import Ubgp.Bgp.Course
import Ubgp.Lib.Rate

/-! How often the worker of a peer connects to it, and how long it waits. -/
namespace Ubgp
namespace PeerLoop

variable {Conn : Type} {cfg : Config} {p : Peer} {s t u : State Conn} {a : Label Conn}
  {ys zs : List (Label Conn × State Conn)} {t₀ : ℕ}

/-- The shortest and the longest wait before a retry. -/
def shortestMs : ℕ := 2000
def longestMs : ℕ := 31000

theorem retryMs_bounds {failures : ℕ} (h : 0 < failures) (jitter : ℕ) :
    shortestMs ≤ retryMs failures jitter ∧ retryMs failures jitter < longestMs := by
  have hpow : 2 ^ 1 ≤ 2 ^ min failures 5 := Nat.pow_le_pow_right (by decide) (by omega)
  have hjitter := Nat.mod_lt jitter (show 0 < 1000 by decide)
  unfold retryMs shortestMs longestMs
  omega

/-- The worker connects or runs a session it has chosen, waits, or deals with a connection that
came in while it waited. -/
inductive Stage
  | busy
  | waiting (deadline : ℕ)
  | guest
deriving DecidableEq

def Phase.stage : Phase Conn → Stage
  | .choosing _ | .running .choose _ _ _ | .stopped => .busy
  | .waiting deadline => .waiting deadline
  | .handshaking _ | .running .backoff _ _ _ => .guest

/-- The time before which the worker does not start over: ahead of it is a whole wait, the rest of
one, or nothing. -/
def State.ready (s : State Conn) : ℕ :=
  match s.phase.stage with
  | .busy => s.now + shortestMs
  | .waiting deadline => deadline
  | .guest => s.now

/-- The selection, and with it the attempt to connect, has just started. -/
def Phase.fresh : Phase Conn → Bool
  | .choosing x => x.fresh
  | _ => false

/-- A step of the worker after which it is at the start of a selection. -/
def starts (x : Label Conn × State Conn) : Bool := x.1.own && x.2.phase.fresh

/-- A connection is accepted during a wait. -/
def accepts : Label Conn × State Conn → Bool
  | (.accepted _, _) => true
  | _ => false

/-- The attempts to connect in a stretch of a run. -/
def attempts (zs : List (Label Conn × State Conn)) : ℕ := zs.countP starts

/-- The connections accepted while the worker waited. -/
def guests (zs : List (Label Conn × State Conn)) : ℕ := zs.countP accepts

theorem fresh_stage {phase : Phase Conn} (h : phase.fresh = true) : phase.stage = .busy := by
  cases phase with
  | choosing => rfl
  | _ => cases h

theorem ready_of_waiting {deadline : ℕ} (h : s.phase = .waiting deadline) : s.ready = deadline := by
  simp only [State.ready, h, Phase.stage]

theorem ready_of_guest (h : s.phase.stage = .guest) : s.ready = s.now := by
  simp only [State.ready, h]

theorem ready_of_busy (h : s.phase.stage = .busy) : s.ready = s.now + shortestMs := by
  simp only [State.ready, h]

/-- A selection starts when a wait is over, or a connection that came in during one. -/
theorem Passage.start (h : Passage s a t) (ha : starts (a, t) = true) : s.ready ≤ s.now := by
  simp only [starts, Bool.and_eq_true] at ha
  obtain ⟨hown, hfresh⟩ := ha
  cases h with
  | same _ _ ht ho =>
    have horigin := ho hown
    rw [← ht] at horigin
    cases hp : t.phase with
    | choosing => simp [hp, Phase.origin] at horigin
    | _ => simp [hp, Phase.fresh] at hfresh
  | selecting _ _ ht hy =>
    rw [ht, Phase.fresh, hy] at hfresh
    cases hfresh
  | refused hs ht => exact (ready_of_guest (by rw [hs]; rfl)).le
  | left hs ht => exact (ready_of_guest (by rw [hs]; rfl)).le
  | woken hs hle ht => rwa [ready_of_waiting hs]
  | ambient _ _ _ ht | session _ ht | chosen _ _ ht | failed _ _ _ ht | accepted _ ht | shook _ ht
  | closed _ _ ht | stopped _ _ ht => simp [ht, Phase.fresh] at hfresh

/-- A step from one stage to the same one. -/
theorem ready_mono (hstage : t.phase.stage = s.phase.stage) (hnow : s.now ≤ t.now) :
    s.ready ≤ t.ready := by
  unfold State.ready
  rw [hstage]
  split <;> omega

theorem ready_after_wait {failures jitter : ℕ} (hf : 0 < failures)
    (ht : t.phase = .waiting (s.now + retryMs failures jitter)) :
    s.now + shortestMs ≤ t.ready := by
  rw [ready_of_waiting ht]
  have hbounds := retryMs_bounds hf jitter
  omega

/-- Any other step brings the next selection no nearer, unless a connection comes in. -/
theorem Passage.others (h : Passage s a t) (hnow : s.now ≤ t.now) (ha : starts (a, t) = false)
    (hc : accepts (a, t) = false) : s.ready ≤ t.ready ∨ s.now + shortestMs ≤ t.ready := by
  cases h with
  | same _ _ ht => exact Or.inl (ready_mono (by rw [ht]) hnow)
  | selecting _ hs ht => exact Or.inl (ready_mono (by rw [hs, ht]; rfl) hnow)
  | @ambient _ _ origin _ _ _ _ _ _ hs ht =>
    exact Or.inl (ready_mono (by rw [hs, ht]; cases origin <;> rfl) hnow)
  | @session _ _ origin _ _ _ _ hs ht =>
    exact Or.inl (ready_mono (by rw [hs, ht]; cases origin <;> rfl) hnow)
  | chosen _ hs ht => exact Or.inl (ready_mono (by rw [hs, ht]; rfl) hnow)
  | failed _ _ hf ht => exact Or.inr (ready_after_wait hf ht)
  | closed _ hf ht => exact Or.inr (ready_after_wait hf ht)
  | shook hs ht => exact Or.inl (ready_mono (by rw [hs, ht]; rfl) hnow)
  | stopped _ _ ht =>
    have hbusy : t.phase.stage = .busy := by rw [ht]; rfl
    rw [ready_of_busy hbusy]
    exact Or.inr (Nat.add_le_add_right hnow _)
  | accepted => cases hc
  | refused _ ht | left _ ht | woken _ _ ht =>
    have hfresh : (Choose.init : Choose.State Conn).fresh = true := Choose.fresh_iff.mpr rfl
    simp [starts, Label.own, ht, Phase.fresh, hfresh] at ha

theorem rationed [DecidableEq Conn] (cfg : Config) (p : Peer) :
    Lts.Rationed (Lts.Recorded (Step cfg p)) (fun s : State Conn => s.now) State.ready starts
      accepts shortestMs (fun _ => True) where
  keeps := fun _ _ => trivial
  clock_le := fun _ ⟨ha, _⟩ => by
    have hnow := ha.passage.2
    omega
  due := fun _ ⟨ha, ht⟩ he => by
    subst ht
    exact ha.passage.1.start he
  waits := fun _ ⟨ha, ht⟩ he => by
    subst ht
    have hnow := ha.passage.2
    simp only [starts, Bool.and_eq_true] at he
    rw [ready_of_busy (fresh_stage he.2)]
    omega
  credits := fun {s a t} _ ⟨ha, ht⟩ hc => by
    obtain ⟨hpassage, hnow⟩ := ha.passage
    obtain ⟨b, u⟩ := a
    cases b <;> cases hc
    cases hpassage with
    | accepted _ hphase =>
      rw [ready_of_guest (by rw [hphase]; rfl)]
      omega
    | _ => simp_all [Label.plain]
  others := fun _ ⟨ha, ht⟩ he hc => by
    subst ht
    obtain ⟨hpassage, hnow⟩ := ha.passage
    exact hpassage.others (by omega) he hc

/-- No wait is a long one. -/
def Bounded (s : State Conn) : Prop :=
  ∀ deadline, s.phase = .waiting deadline → deadline < s.now + longestMs

theorem Bounded.step [DecidableEq Conn] (h : Bounded s) (ha : Step cfg p s a t) : Bounded t := by
  obtain ⟨hpassage, hnow⟩ := ha.passage
  have hwait : ∀ {failures jitter : ℕ}, 0 < failures →
      t.phase = .waiting (s.now + retryMs failures jitter) → Bounded t := by
    intro failures jitter hf ht deadline hd
    cases ht.symm.trans hd
    have hbounds := retryMs_bounds hf jitter
    omega
  intro deadline hd
  cases hpassage with
  | same _ _ ht =>
    have hle := h deadline (ht.symm.trans hd)
    omega
  | failed _ _ hf ht => exact hwait hf ht deadline hd
  | closed _ hf ht => exact hwait hf ht deadline hd
  | selecting _ _ ht | ambient _ _ _ ht | session _ ht | chosen _ _ ht | accepted _ ht | shook _ ht
  | refused _ ht | left _ ht | woken _ _ ht | stopped _ _ ht => cases ht.symm.trans hd

/-- In every stretch of every run of the worker, whatever happens to its connections: it tries to
connect once, then at most every two seconds, plus once for each connection it accepted while it
waited. A stretch that begins with the worker connecting, or in a session it has chosen, has not
even the first of these attempts. It never waits for more than 31 seconds. -/
theorem attempts_paced [DecidableEq Conn] {e : Exports}
    (hu : Lts.Trace (Lts.Recorded (Step cfg p)) (init e t₀) ys u)
    (h : Lts.Trace (Lts.Recorded (Step cfg p)) u zs s) :
    attempts zs ≤ (s.now - u.now) / shortestMs + 1 + guests zs ∧
      (u.phase.stage = .busy → attempts zs ≤ (s.now - u.now) / shortestMs + guests zs) ∧
      ∀ deadline, s.phase = .waiting deadline → deadline < s.now + longestMs := by
  refine ⟨?_, ?_, ?_⟩
  · exact (rationed cfg p).count_le h trivial (by decide)
  · intro hbusy
    have hready : u.now + shortestMs ≤ u.ready := (ready_of_busy hbusy).ge
    exact (rationed cfg p).count_le_of_ready h trivial (by decide) hready
  · have hinit : Bounded (init e t₀ : State Conn) := fun deadline hd => by cases hd
    exact ((hu.append h).forget).invariant hinit (fun _ _ _ hb ha => hb.step ha)

/-- No connection is made in time, twice, and the worker waits for the second time. -/
def retryingMoves : List (Move Side) := [.deadline 0, .tick 2000, .wake, .deadline 0]

theorem retryingMoves_exec :
    (Lts.exec (Lts.recording (step exampleConfig examplePeer)) retryingMoves (init ∅ 0)).map
      (fun r => (attempts r.1, guests r.1, r.2.now)) = some (1, 0, 2000) := by
  decide +kernel

theorem example_attempts_paced : ∃ zs s,
    Lts.Trace (Lts.Recorded (Step exampleConfig examplePeer)) (init ∅ 0 : State Side) zs s ∧
      attempts zs = 1 ∧ 1 ≤ s.now / shortestMs := by
  obtain ⟨⟨zs, s⟩, hr, he⟩ := Option.map_eq_some_iff.mp retryingMoves_exec
  simp only [Prod.mk.injEq] at he
  obtain ⟨hattempts, hguests, -⟩ := he
  have htrace := Lts.exec_recorded hr
  have hle := (attempts_paced .refl htrace).2.1 rfl
  rw [hattempts, hguests] at hle
  exact ⟨zs, s, htrace, hattempts, hle⟩

end PeerLoop
end Ubgp
