import Ubgp.Bgp.PeerLoop

/-! How a session and the worker of a peer get from one phase to the next. -/
namespace Ubgp
namespace Choose

variable {Conn : Type} {cfg : Config} {p : Peer} {x y : State Conn} {e : Event Conn}

/-- The selection has just started. -/
def State.fresh (x : State Conn) : Bool :=
  x.outgoing && x.accepted.isNone && !x.incomingStarted && x.errors.isEmpty && x.pending.isNone &&
    x.ceased.isEmpty && x.outcome.isNone

theorem fresh_iff : x.fresh = true ↔ x = init := by
  cases x
  simp [State.fresh, init, and_assoc]

/-- No round leads back to the start. -/
theorem step_fresh [DecidableEq Conn] (h : step cfg p x e = some y) : y.fresh = false := by
  have hbail : ∀ z : State Conn, z.fresh = false → z.bailIfExhausted.fresh = false := by
    intro z hz
    rcases bailIfExhausted_cases z with hb | ⟨-, message, hb⟩
    · rw [hb, hz]
    · rw [hb]
      simp [State.fresh]
  unfold step at h
  split at h
  case h_1 stream =>
    simp only [Option.ite_none_left_eq_some] at h
    obtain ⟨-, h⟩ := h
    cases stream <;> cases h <;> simp [State.fresh]
  case h_2 =>
    simp only [Option.ite_none_left_eq_some] at h
    obtain ⟨-, h⟩ := h
    split at h <;> cases h
    · simp [State.fresh]
    · exact hbail _ (by simp [State.fresh])
  case h_3 =>
    simp only [Option.ite_none_left_eq_some] at h
    obtain ⟨-, h⟩ := h
    cases h
    exact hbail _ (by simp [State.fresh])
  case h_4 =>
    simp only [Option.ite_none_left_eq_some] at h
    obtain ⟨-, h⟩ := h
    cases h
    unfold State.expire
    split <;> simp [State.fresh]

end Choose

namespace Session

/-- The phases without their data. -/
inductive Kind
  | start
  | confirming
  | waiting
  | established
  | reporting
  | closed
deriving DecidableEq

def Phase.kind : Phase → Kind
  | .start => .start
  | .confirming _ => .confirming
  | .waiting _ => .waiting
  | .established _ _ => .established
  | .reporting _ => .reporting
  | .closed => .closed

/-- How a session gets from one phase to the next. -/
inductive Course : Kind → Label → Kind → Prop
  | keep {k : Kind} {a : Label} : Course k a k
  | entered {a : Label} : Course .start a .confirming
  | sent {a : Label} : Course .confirming a .waiting
  | confirmed {stream : Bytes} (h : confirmFrame stream = .ok ()) :
      Course .waiting (.received stream) .established
  | failed {k : Kind} {a : Label} (hk : k = .waiting ∨ k = .established) : Course k a .reporting
  | closed {k : Kind} {a : Label} : Course k a .closed

variable {cfg : Config} {p : Peer} {n : Negotiated} {s t : State} {a : Label}

theorem fail_course (s : State) (e : Fault) (hk : s.phase.kind = .waiting ∨
    s.phase.kind = .established) :
    Course s.phase.kind a (s.fail e).phase.kind := by
  rcases fail_cases s e with hc | ⟨w, hw, -⟩
  · rw [hc]
    exact .closed
  · rw [hw]
    exact .failed hk

theorem begin_course (s : State) (p : Peer) (packet : Result Bytes) {phase : Write → Phase}
    {k : Kind} (hp : ∀ w, (phase w).kind = k) :
    (s.begin p packet phase).phase.kind = k ∨ (s.begin p packet phase).phase.kind = .closed := by
  unfold State.begin
  split
  · exact Or.inl (hp _)
  · exact Or.inr rfl

theorem receive_course {stream : Bytes} (h : s.receive p n stream = some (a, t)) :
    Course s.phase.kind a t.phase.kind := by
  unfold State.receive at h
  split at h
  case h_1 hphase =>
    split at h
    · rename_i hconfirm
      cases h
      rw [hphase]
      exact .confirmed hconfirm
    · cases h
      exact fail_course s _ (Or.inl (by rw [hphase]; rfl))
  case h_2 hphase =>
    split at h
    · simp only [Option.bind_eq_bind, Option.bind_eq_some_iff, Option.pure_def,
        Option.some.injEq, Prod.mk.injEq] at h
      obtain ⟨tx, -, rfl, rfl⟩ := h
      rw [hphase]
      exact .keep
    · cases h
      exact fail_course s _ (Or.inr (by rw [hphase]; rfl))
  case h_3 => cases h

theorem expire_course (h : s.expire n = some (a, t)) : Course s.phase.kind a t.phase.kind := by
  unfold State.expire at h
  split at h
  case h_1 hphase =>
    split at h
    · cases h
      exact fail_course s _ (Or.inl (by rw [hphase]; rfl))
    · cases h
  case h_2 hphase =>
    split at h
    · cases h
      exact fail_course s _ (Or.inr (by rw [hphase]; rfl))
    · cases h
  case h_3 => cases h

theorem written_course {d : ℕ} {o : Transmit.Orders} (h : s.written p n d o = some (a, t)) :
    Course s.phase.kind a t.phase.kind := by
  unfold State.written at h
  split at h
  case h_1 hphase =>
    cases h
    rw [hphase]
    exact .sent
  case h_2 hphase =>
    obtain ⟨-, hc | ht⟩ := loop_effect h
    · rw [hc]
      exact .closed
    · rw [hphase, ht]
      exact .keep
  case h_3 =>
    cases h
    exact .closed

theorem kind_withWrite (phase : Phase) (w : Write) : (phase.withWrite w).kind = phase.kind := by
  cases phase <;> rfl

theorem Step.course (h : Step cfg p n s a t) : Course s.phase.kind a t.phase.kind := by
  obtain ⟨m, h⟩ := h
  cases m with
  | environment m =>
    have hloop : s.loop p n m s.phase = some (a, t) := by
      cases m <;> first | exact h | cases h
    obtain ⟨-, hc | ht⟩ := loop_effect hloop
    · rw [hc]
      exact .closed
    · rw [ht]
      exact .keep
  | send =>
    simp only [step] at h
    split at h
    case h_1 hphase =>
      cases h
      rw [hphase]
      have hp : ∀ w, (Phase.confirming w).kind = .confirming := fun _ => rfl
      rcases begin_course s p (frame KEEPALIVE []) hp with hk | hk
      · rw [hk]
        exact .entered
      · rw [hk]
        exact .closed
    case h_2 expires hphase =>
      simp only [Option.bind_eq_bind, Option.bind_eq_some_iff, Option.pure_def,
        Option.some.injEq, Prod.mk.injEq] at h
      obtain ⟨m, -, rfl, rfl⟩ := h
      rw [hphase]
      have hp : ∀ w, (Phase.established expires (some w)).kind = .established := fun _ => rfl
      rcases begin_course s p (render cfg p n m) hp with hk | hk
      · rw [hk]
        exact .keep
      · rw [hk]
        exact .closed
    case h_3 => cases h
  | accept k =>
    simp only [step, Option.bind_eq_bind, Option.bind_eq_some_iff] at h
    obtain ⟨w, -, h⟩ := h
    split at h
    · cases h
      simp only [kind_withWrite]
      exact .keep
    · cases h
  | written d o =>
    simp only [step, Option.bind_eq_bind, Option.bind_eq_some_iff] at h
    obtain ⟨w, -, h⟩ := h
    split at h
    · exact written_course h
    · cases h
  | writeExpired | writeFailed =>
    simp only [step, Option.bind_eq_bind, Option.bind_eq_some_iff] at h
    obtain ⟨w, -, h⟩ := h
    split at h
    · cases h
      exact .closed
    · cases h
  | poll =>
    simp only [step] at h
    split at h
    · rename_i hphase
      cases h
      rw [hphase]
      exact .keep
    · cases h
  | receive stream =>
    simp only [step, Option.ite_none_right_eq_some] at h
    exact receive_course h.2
  | readFailed =>
    simp only [step] at h
    split at h
    · cases h
      exact .closed
    · cases h
      exact .closed
    · cases h
  | expire => exact expire_course h
  | loop m =>
    simp only [step] at h
    split at h
    · rename_i hphase _
      obtain ⟨-, hc | ht⟩ := loop_effect h
      · rw [hc]
        exact .closed
      · rw [hphase, ht]
        exact .keep
    · rename_i hphase _
      obtain ⟨-, hc | ht⟩ := loop_effect h
      · rw [hc]
        exact .closed
      · rw [hphase, ht]
        exact .keep
    · cases h

end Session

namespace PeerLoop

variable {Conn : Type} {cfg : Config} {p : Peer} {s t : State Conn} {a : Label Conn} {jitter : ℕ}

/-- The time that passes with a step. -/
def Label.elapsed : Label Conn → ℕ
  | .tick d => d
  | _ => 0

/-- The labels of the steps that leave the loop where it is, or belong to a selection or session. -/
def Label.plain : Label Conn → Bool
  | .woken | .accepted _ | .handshake _ | .returned => false
  | _ => true

/-- The labels of the worker's own steps; the others are those of its environment. -/
def Label.own : Label Conn → Bool
  | .delivered _ | .refused _ | .closed | .published _ | .dropped | .tick _ => false
  | _ => true

/-- What a step does to the phase. -/
inductive Passage (s : State Conn) : Label Conn → State Conn → Prop
  | same {a : Label Conn} {t : State Conn} (ha : a.plain = true) (hb : ∀ b, a ≠ .session b)
      (ht : t.phase = s.phase) (ho : a.own = true → s.phase.origin ≠ none) : Passage s a t
  | selecting {a : Label Conn} {t : State Conn} {x y : Choose.State Conn} (ha : a.plain = true)
      (hs : s.phase = .choosing x) (ht : t.phase = .choosing y) (hy : y.fresh = false) :
      Passage s a t
  | ambient {a : Label Conn} {t : State Conn} {origin : Origin} {c : Candidate Conn}
      {started : ℕ} {x y : Session.State} (ha : a.plain = true) (hb : ∀ b, a ≠ .session b)
      (hs : s.phase = .running origin c started x) (ht : t.phase = .running origin c started y)
      (hxy : y.phase = x.phase) : Passage s a t
  | session {b : Session.Label} {t : State Conn} {origin : Origin} {c : Candidate Conn}
      {started : ℕ} {x y : Session.State} (hs : s.phase = .running origin c started x)
      (ht : t.phase = .running origin c started y)
      (hxy : Session.Course x.phase.kind b y.phase.kind) : Passage s (.session b) t
  | chosen {a : Label Conn} {t : State Conn} {c : Candidate Conn} {x : Choose.State Conn}
      {y : Session.State} (ha : a.plain = true) (hs : s.phase = .choosing x)
      (ht : t.phase = .running .choose c s.now y) (hy : y.phase = .start) : Passage s a t
  | failed {a : Label Conn} {t : State Conn} {x : Choose.State Conn} {failures jitter : ℕ}
      (ha : a.plain = true) (hs : s.phase = .choosing x) (hf : 0 < failures)
      (ht : t.phase = .waiting (s.now + retryMs failures jitter)) : Passage s a t
  | accepted {stream : Conn} {t : State Conn} {deadline : ℕ} (hs : s.phase = .waiting deadline)
      (ht : t.phase = .handshaking stream) : Passage s (.accepted stream) t
  | shook {c : Candidate Conn} {t : State Conn} {stream : Conn} {y : Session.State}
      (hs : s.phase = .handshaking stream) (ht : t.phase = .running .backoff c s.now y)
      (hy : y.phase = .start) : Passage s (.handshake (.ok c)) t
  | refused {e : String} {t : State Conn} {stream : Conn} (hs : s.phase = .handshaking stream)
      (ht : t.phase = .choosing Choose.init) : Passage s (.handshake (.error e)) t
  | closed {t : State Conn} {c : Candidate Conn} {started : ℕ} {x : Session.State}
      {failures jitter : ℕ} (hs : s.phase = .running .choose c started x) (hf : 0 < failures)
      (ht : t.phase = .waiting (s.now + retryMs failures jitter)) : Passage s .returned t
  | left {t : State Conn} {c : Candidate Conn} {started : ℕ} {x : Session.State}
      (hs : s.phase = .running .backoff c started x) (ht : t.phase = .choosing Choose.init) :
      Passage s .returned t
  | woken {t : State Conn} {deadline : ℕ} (hs : s.phase = .waiting deadline)
      (hle : deadline ≤ s.now) (ht : t.phase = .choosing Choose.init) : Passage s .woken t
  | stopped {a : Label Conn} {t : State Conn} (ha : a.plain = true)
      (hs : s.phase.origin ≠ some .backoff) (ht : t.phase = .stopped) : Passage s a t

theorem backoff_waits (s : State Conn) (jitter failures : ℕ) :
    ∃ k, 0 < k ∧ (s.backoff jitter failures).phase = .waiting (s.now + retryMs k jitter) :=
  ⟨_, by omega, rfl⟩

theorem settle_passage {x y : Choose.State Conn} (ha : a.plain = true)
    (hs : s.phase = .choosing x) (hy : y.fresh = false) (queue : List Conn) :
    Passage s a ({ s with queue }.settle jitter y) := by
  unfold State.settle
  split
  · exact .selecting ha hs rfl hy
  · exact .chosen ha hs rfl rfl
  · obtain ⟨k, hk, hphase⟩ := backoff_waits { s with queue } jitter s.failures
    exact .failed ha hs hk hphase

theorem advance_passage {m : Session.Move} {b : Session.Label}
    (h : s.advance cfg p m = some (b, t)) : Passage s (.session b) t ∧ t.now = s.now := by
  unfold State.advance at h
  split at h
  · rename_i hphase
    simp only [Option.bind_eq_bind, Option.bind_eq_some_iff, Option.pure_def, Option.some.injEq,
      Prod.exists, Prod.mk.injEq] at h
    obtain ⟨_, y, hstep, rfl, rfl⟩ := h
    exact ⟨.session hphase rfl (Session.Step.course ⟨m, hstep⟩), rfl⟩
  · cases h

/-- Time and snapshots leave a session where it is. -/
theorem environment_phase {q : Peer} {n : Negotiated} {x y : Session.State} {b : Session.Label}
    {m : Transmit.Move} (h : Session.step cfg q n x (.environment m) = some (b, y)) :
    y.phase = x.phase := by
  cases m with
  | publish e =>
    simp only [Session.step, Session.State.loop, Transmit.step, Option.bind_eq_bind,
      Option.bind_eq_some_iff, Option.ite_none_left_eq_some, Option.pure_def, Option.some.injEq,
      Prod.exists, Prod.mk.injEq] at h
    obtain ⟨_, _, ⟨-, rfl, -⟩, -, rfl⟩ := h
    rfl
  | tick d =>
    cases h
    rfl
  | close =>
    cases h
    rfl
  | request | notify | run | wake => cases h

theorem ambient_passage (s' : State Conn) (m : Transmit.Move) (ha : a.plain = true)
    (hb : ∀ b, a ≠ .session b) (ho : a.own = false) (hs : s'.phase = s.phase) :
    Passage s a (s'.ambient cfg p m) ∧ (s'.ambient cfg p m).now = s'.now := by
  unfold State.ambient
  split
  · rename_i b t h
    unfold State.advance at h
    split at h
    · rename_i hphase
      simp only [Option.bind_eq_bind, Option.bind_eq_some_iff, Option.pure_def,
        Option.some.injEq, Prod.exists, Prod.mk.injEq] at h
      obtain ⟨_, y, hstep, rfl, rfl⟩ := h
      exact ⟨.ambient ha hb (hs.symm.trans hphase) rfl (environment_phase hstep), rfl⟩
    · cases h
  · exact ⟨.same ha hb hs (by simp [ho]), rfl⟩

theorem finish_passage (h : s.finish jitter = some (a, t)) :
    Passage s a t ∧ t.now = s.now + a.elapsed := by
  unfold State.finish at h
  split at h
  · rename_i origin _ started session hphase
    split at h
    · cases h
      obtain ⟨k, hk, hwait⟩ := backoff_waits s jitter
        (if started + stableMs ≤ s.now then 0 else s.failures)
      exact ⟨.closed hphase hk hwait, rfl⟩
    · cases h
      exact ⟨.left hphase rfl, rfl⟩
    · cases h
  · cases h

theorem settle_now (s : State Conn) (jitter : ℕ) (x : Choose.State Conn) :
    (s.settle jitter x).now = s.now := by
  unfold State.settle
  split <;> rfl

theorem handshook_passage {result : Except String (Candidate Conn)}
    (h : s.handshook result = some (a, t)) : Passage s a t ∧ t.now = s.now + a.elapsed := by
  cases result with
  | ok c =>
    simp only [State.handshook] at h
    split at h
    · rename_i hphase
      cases h
      exact ⟨.shook hphase rfl rfl, rfl⟩
    · cases h
  | error e =>
    simp only [State.handshook] at h
    split at h
    · rename_i hphase
      cases h
      exact ⟨.refused hphase rfl, rfl⟩
    · cases h

section Steps
variable [DecidableEq Conn]

theorem recv_passage (h : s.recv cfg p jitter = some (a, t)) :
    Passage s a t ∧ t.now = s.now + a.elapsed := by
  unfold State.recv at h
  split at h
  · rename_i stream queue hq
    unfold State.take at h
    split at h
    case h_1 hphase =>
      simp only [Option.bind_eq_bind, Option.bind_eq_some_iff, Option.pure_def, Option.some.injEq,
        Prod.mk.injEq] at h
      obtain ⟨c, hc, rfl, rfl⟩ := h
      exact ⟨settle_passage (s := s) rfl hphase (Choose.step_fresh hc) queue, settle_now _ _ _⟩
    case h_2 hphase =>
      cases h
      exact ⟨.same rfl (by simp) rfl (fun _ => by rw [hphase]; simp [Phase.origin]), rfl⟩
    case h_4 hphase =>
      cases h
      exact ⟨.accepted hphase rfl, rfl⟩
    all_goals cases h
  · simp only [Option.ite_none_right_eq_some] at h
    obtain ⟨-, h⟩ := h
    unfold State.hangUp at h
    split at h
    case h_1 hphase =>
      simp only [Option.bind_eq_bind, Option.bind_eq_some_iff, Option.pure_def, Option.some.injEq,
        Prod.mk.injEq] at h
      obtain ⟨c, hc, rfl, rfl⟩ := h
      exact ⟨settle_passage (s := s) rfl hphase (Choose.step_fresh hc) s.queue, settle_now _ _ _⟩
    case h_2 hphase | h_4 hphase =>
      cases h
      exact ⟨.stopped rfl (by rw [hphase]; simp [Phase.origin]) rfl, rfl⟩
    all_goals cases h

theorem select_passage {e : Choose.Event Conn} (h : s.select cfg p jitter e = some (a, t)) :
    Passage s a t ∧ t.now = s.now + a.elapsed := by
  unfold State.select at h
  split at h
  · rename_i hphase
    simp only [Option.bind_eq_bind, Option.bind_eq_some_iff, Option.pure_def, Option.some.injEq,
      Prod.mk.injEq] at h
    obtain ⟨c, hc, rfl, rfl⟩ := h
    exact ⟨settle_passage (s := s) rfl hphase (Choose.step_fresh hc) s.queue, settle_now _ _ _⟩
  · cases h

/-- Every step is one of the listed passages, and only the clock moves the time. -/
theorem Step.passage (h : Step cfg p s a t) : Passage s a t ∧ t.now = s.now + a.elapsed := by
  obtain ⟨m, h⟩ := h
  cases m with
  | deliver stream =>
    simp only [step, Option.ite_none_left_eq_some] at h
    obtain ⟨-, h⟩ := h
    split at h
    all_goals
      cases h
      exact ⟨.same rfl (by simp) rfl (by simp [Label.own]), rfl⟩
  | close =>
    cases h
    exact ⟨.same rfl (by simp) rfl (by simp [Label.own]), rfl⟩
  | publish e =>
    simp only [step, Option.ite_none_left_eq_some] at h
    obtain ⟨-, h⟩ := h
    cases h
    exact ambient_passage { s with exports := e } (.publish e) rfl (by simp) rfl rfl
  | drop =>
    cases h
    exact ambient_passage { s with dropped := true } .close rfl (by simp) rfl rfl
  | tick d =>
    cases h
    exact ambient_passage { s with now := s.now + d } (.tick d) rfl (by simp) rfl rfl
  | recv jitter => exact recv_passage h
  | joined incoming result jitter => exact select_passage h
  | deadline jitter => exact select_passage h
  | handshake result => exact handshook_passage h
  | session m =>
    simp only [step, Option.ite_none_right_eq_some, Option.map_eq_some_iff, Prod.exists,
      Prod.mk.injEq] at h
    obtain ⟨-, b, u, hu, rfl, rfl⟩ := h
    exact advance_passage hu
  | finish jitter => exact finish_passage h
  | wake =>
    simp only [step] at h
    split at h
    · rename_i hphase
      simp only [Option.ite_none_right_eq_some] at h
      obtain ⟨hle, h⟩ := h
      cases h
      exact ⟨.woken hphase hle rfl, rfl⟩
    · cases h

end Steps

end PeerLoop
end Ubgp
