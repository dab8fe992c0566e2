import Ubgp.Bgp.Course
import Ubgp.Bgp.Listeners

/-! The status record of a peer (`update` in `management.rs`) beside the worker that keeps it: the
calls of `update` in `session` and `peer_loop`. Times are in milliseconds. -/
namespace Ubgp

/-- Set the state and reset its age, preserving the last error when none is supplied. -/
def Listeners.PeerStatus.update (status : Listeners.PeerStatus) (now : ℕ) (state : String)
    (error : Option String) : Listeners.PeerStatus :=
  ⟨state, now, error.or status.lastError⟩

namespace Session

/-- A step that ends the session with an error. -/
def fails : Phase → Phase → Bool
  | .reporting _, _ | .closed, _ => false
  | _, .reporting _ | _, .closed => true
  | _, _ => false

end Session

namespace PeerLoop
open Listeners (PeerStatus)

/-- A worker with its status record. `confirmed` tells which part of `session` it is in, and
`result` is the error the session returns, as the console shows it. -/
structure Watched (Conn : Type) where
  worker : State Conn
  status : PeerStatus
  confirmed : Bool
  result : Option String

/-- The error a step raises: a selection, a handshake or a session fails. -/
def raised {Conn : Type} (text : String) : Phase Conn → Label Conn → Phase Conn → Option String
  | .choosing _, _, .waiting _ | .handshaking _, _, .choosing _ => some text
  | .running _ _ _ s, .session _, .running _ _ _ t =>
    if Session.fails s.phase t.phase then some text else none
  | _, _, _ => none

namespace Watched
variable {Conn : Type} (w : Watched Conn)

def update (state : String) (error : Option String) : Watched Conn :=
  { w with status := w.status.update w.worker.now state error }

/-- `if let Err(e) = result`. -/
def report : Watched Conn :=
  match w.result with
  | some e => w.update "Active" (some e)
  | none => w

/-- The calls within `session`. -/
def during : Session.Phase → Session.Phase → Watched Conn
  | .start, .start => w
  | .start, _ => w.update "OpenConfirm" none
  | .waiting _, .established _ _ => { w with confirmed := true }.update "Established" none
  | .closed, .closed => w
  | _, .closed => if w.confirmed then w.update "Active" w.result else w
  | _, _ => w

/-- The calls that go with a step of the worker from a phase. -/
def follow (text : String) (old : Phase Conn) : Watched Conn :=
  match old, w.worker.phase with
  | .running _ _ _ s, .running _ _ _ t => w.during s.phase t.phase
  | .choosing _, .running _ _ _ _ | .handshaking _, .running _ _ _ _ =>
    { w with confirmed := false, result := none }
  | .choosing _, .waiting _ => (w.update "Active" (some text)).update "Active" none
  | .running _ _ _ _, .waiting _ => w.report.update "Active" none
  | .running _ _ _ _, .choosing _ => w.report.update "Connect" none
  | .handshaking _, .choosing _ => (w.update "Active" (some text)).update "Connect" none
  | .waiting _, .choosing _ => w.update "Connect" none
  | _, _ => w

end Watched

/-- The worker at its start: the first call replaces the Idle record. -/
def Watched.init {Conn : Type} (status : PeerStatus) (e : Exports) (t : ℕ) : Watched Conn :=
  ⟨PeerLoop.init e t, status.update t "Connect" none, false, none⟩

/-- `text` is the error, if the step raises one. -/
def Watched.step {Conn : Type} [DecidableEq Conn] (cfg : Config) (p : Peer) (w : Watched Conn)
    (m : Move Conn × String) : Option ((Label Conn × Option String) × Watched Conn) := do
  let (a, t) ← PeerLoop.step cfg p w.worker m.1
  let error := raised m.2 w.worker.phase a t.phase
  return ((a, error), { w with worker := t, result := error.or w.result }.follow m.2 w.worker.phase)

def Watched.Step {Conn : Type} [DecidableEq Conn] (cfg : Config) (p : Peer) (w : Watched Conn)
    (x : Label Conn × Option String) (w' : Watched Conn) : Prop :=
  ∃ m, w.step cfg p m = some (x, w')

/-- What the record is to show of a phase. -/
def Phase.shown {Conn : Type} (confirmed : Bool) : Phase Conn → String
  | .choosing _ => "Connect"
  | .waiting _ | .handshaking _ => "Active"
  | .running origin _ _ session =>
    match session.phase.kind with
    | .start => if origin = .choose then "Connect" else "Active"
    | .confirming | .waiting => "OpenConfirm"
    | .established => "Established"
    | .reporting => if confirmed then "Established" else "OpenConfirm"
    | .closed => if confirmed then "Active" else "OpenConfirm"
  | .stopped => "Idle"

variable {Conn : Type} {cfg : Config} {p : Peer} {w w' : Watched Conn}
  {x : Label Conn × Option String} {xs : List (Label Conn × Option String)} {a : Label Conn}

def elapsed (xs : List (Label Conn × Option String)) : ℕ := (xs.map (fun x => x.1.elapsed)).sum

/-- The errors raised in a run. -/
def errors (xs : List (Label Conn × Option String)) : List String := xs.filterMap Prod.snd

/-- The session at hand was confirmed as long ago as the record tells. -/
def Confirmed (xs : List (Label Conn × Option String)) (w : Watched Conn) : Prop :=
  ∃ ys stream e zs, xs = ys ++ (.session (.received stream), e) :: zs ∧
    Session.confirmFrame stream = .ok () ∧ w.worker.now = w.status.since + elapsed zs ∧
    ∀ x ∈ zs, x.1 ≠ .returned

/-- The record is true to a run of the worker. -/
structure Truthful (xs : List (Label Conn × Option String)) (w : Watched Conn) : Prop where
  state : w.worker.phase ≠ .stopped → w.status.state = w.worker.phase.shown w.confirmed
  part : ∀ origin c started x, w.worker.phase = .running origin c started x →
    (x.phase.kind = .established → w.confirmed = true) ∧
    (x.phase.kind = .start ∨ x.phase.kind = .confirming ∨ x.phase.kind = .waiting →
      w.confirmed = false)
  since : w.status.state = "Established" → Confirmed xs w
  error : w.worker.phase ≠ .stopped →
    (if w.worker.phase.origin = none then none else w.result).or w.status.lastError =
      (errors xs).getLast?

theorem errors_snoc : (errors (xs ++ [x])).getLast? = x.2.or (errors xs).getLast? := by
  obtain ⟨a, e⟩ := x
  cases e <;> simp [errors]

/-- Nothing has happened to the record since. -/
theorem Confirmed.snoc (h : Confirmed xs w) (hsince : w'.status.since = w.status.since)
    (hnow : w'.worker.now = w.worker.now + x.1.elapsed) (hx : x.1 ≠ .returned) :
    Confirmed (xs ++ [x]) w' := by
  obtain ⟨ys, stream, e, zs, rfl, hframe, hw, hzs⟩ := h
  refine ⟨ys, stream, e, zs ++ [x], by simp, hframe, ?_, ?_⟩
  · rw [hnow, hw, hsince, elapsed, elapsed, List.map_append, List.sum_append]
    simp only [List.map_cons, List.map_nil, List.sum_cons, List.sum_nil]
    omega
  · intro y hy
    rcases List.mem_append.mp hy with hy | hy
    · exact hzs y hy
    · rw [List.mem_singleton.mp hy]
      exact hx

section During
variable {y z : Session.Phase}

theorem during_keep (h : z.kind = y.kind) : w.during y z = w := by
  cases y <;> cases z <;> first | rfl | cases h

theorem during_entered (hy : y.kind = .start) (hz : z.kind ≠ .start) :
    w.during y z = w.update "OpenConfirm" none := by
  cases y <;> cases hy
  cases z <;> first | rfl | exact absurd rfl hz

theorem during_quiet (hy : y.kind ≠ .start) (hz : z.kind ≠ .closed) (hz' : z.kind ≠ .established) :
    w.during y z = w := by
  cases y <;> cases z <;>
    first | rfl | exact absurd rfl hy | exact absurd rfl hz | exact absurd rfl hz'

theorem during_confirmed (hy : y.kind = .waiting) (hz : z.kind = .established) :
    w.during y z = { w with confirmed := true }.update "Established" none := by
  cases y <;> cases hy
  cases z <;> cases hz
  rfl

theorem during_closed (hy : y.kind ≠ .start) (hy' : y.kind ≠ .closed) (hz : z.kind = .closed) :
    w.during y z = if w.confirmed then w.update "Active" w.result else w := by
  cases z <;> cases hz
  cases y <;> first | rfl | exact absurd rfl hy | exact absurd rfl hy'

end During

/-- What a step of the watched worker consists of. -/
theorem Watched.Step.follows [DecidableEq Conn] (h : w.Step cfg p x w') :
    ∃ t text, PeerLoop.Step cfg p w.worker x.1 t ∧ x.2 = raised text w.worker.phase x.1 t.phase ∧
      w' = { w with worker := t, result := x.2.or w.result }.follow text w.worker.phase := by
  obtain ⟨⟨m, text⟩, h⟩ := h
  simp only [Watched.step, Option.bind_eq_bind, Option.bind_eq_some_iff, Option.pure_def,
    Option.some.injEq, Prod.exists, Prod.mk.injEq] at h
  obtain ⟨a, t, hstep, rfl, rfl⟩ := h
  exact ⟨t, text, ⟨m, hstep⟩, rfl, rfl⟩

theorem Truthful.error_running {origin : Origin} (h : Truthful xs w)
    (ho : w.worker.phase.origin = some origin) :
    w.result.or w.status.lastError = (errors xs).getLast? := by
  have herror := h.error (fun hp => by simp [hp, Phase.origin] at ho)
  rwa [ho, if_neg (by simp)] at herror

theorem Truthful.error_idle (h : Truthful xs w) (hp : w.worker.phase ≠ .stopped)
    (ho : w.worker.phase.origin = none) : w.status.lastError = (errors xs).getLast? := by
  have herror := h.error hp
  rwa [if_pos ho, Option.none_or] at herror

section Sessions
variable {origin : Origin} {c : Candidate Conn} {started : ℕ} {y z : Session.State} {t : State Conn}

/-- A step of the session that is no call of `update`. -/
theorem Truthful.quiet (h : Truthful xs w) (hs : w.worker.phase = .running origin c started y)
    (ht : t.phase = .running origin c started z) (hnow : t.now = w.worker.now + x.1.elapsed)
    (hx : x.1 ≠ .returned)
    (hshown : t.phase.shown w.confirmed = w.worker.phase.shown w.confirmed)
    (hpart : (z.phase.kind = .established → w.confirmed = true) ∧
      (z.phase.kind = .start ∨ z.phase.kind = .confirming ∨ z.phase.kind = .waiting →
        w.confirmed = false)) :
    Truthful (xs ++ [x]) { w with worker := t, result := x.2.or w.result } where
  state := fun _ => (h.state (by simp [hs])).trans hshown.symm
  part := fun o c' st z' hz => by
    cases ht.symm.trans hz
    exact hpart
  since := fun hstate => (h.since hstate).snoc rfl hnow hx
  error := fun _ => by
    rw [errors_snoc, ← h.error_running (by rw [hs]; rfl), if_neg (by simp [ht, Phase.origin]),
      Option.or_assoc]

/-- A call of `update` within the session. -/
theorem Truthful.called {state : String} {error : Option String}
    (hs : w.worker.phase = .running origin c started y)
    (hstate : state = w.worker.phase.shown w.confirmed)
    (hpart : (y.phase.kind = .established → w.confirmed = true) ∧
      (y.phase.kind = .start ∨ y.phase.kind = .confirming ∨ y.phase.kind = .waiting →
        w.confirmed = false))
    (hsince : state = "Established" → Confirmed xs (w.update state error))
    (herror : error = none ∨ error = w.result)
    (hlast : w.result.or w.status.lastError = (errors xs).getLast?) :
    Truthful xs (w.update state error) where
  state := fun _ => hstate
  part := fun o c' st y' hy => by
    cases hs.symm.trans hy
    exact hpart
  since := hsince
  error := fun _ => by
    have horigin : (w.update state error).worker.phase.origin ≠ none := by
      change w.worker.phase.origin ≠ none
      simp [hs, Phase.origin]
    rw [if_neg horigin, ← hlast]
    change w.result.or (error.or w.status.lastError) = w.result.or w.status.lastError
    rcases herror with rfl | rfl
    · rw [Option.none_or]
    · cases w.result <;> rfl

theorem Truthful.session {b : Session.Label} {e : Option String} (h : Truthful xs w)
    (hs : w.worker.phase = .running origin c started y)
    (ht : t.phase = .running origin c started z) (hnow : t.now = w.worker.now)
    (hyz : Session.Course y.phase.kind b z.phase.kind) :
    Truthful (xs ++ [(.session b, e)])
      ({ w with worker := t, result := e.or w.result }.during y.phase z.phase) := by
  obtain ⟨hest, hearly⟩ := h.part origin c started y hs
  have hlast : (e.or w.result).or w.status.lastError =
      (errors (xs ++ [(.session b, e)])).getLast? := by
    rw [errors_snoc, ← h.error_running (by rw [hs]; rfl), Option.or_assoc]
  have hquiet := h.quiet (x := (.session b, e)) hs ht hnow (by simp)
  rw [hs, ht] at hquiet
  simp only [Phase.shown] at hquiet
  generalize hy : y.phase.kind = k at *
  generalize hz : z.phase.kind = k' at *
  cases hyz with
  | keep =>
    rw [during_keep (hz.trans hy.symm)]
    exact hquiet rfl ⟨hest, hearly⟩
  | entered =>
    rw [during_entered hy (by simp [hz])]
    have hconfirmed := hearly (Or.inl rfl)
    exact .called ht (by simp [ht, Phase.shown, hz]) (by simp [hz, hconfirmed]) (by simp)
      (Or.inl rfl) hlast
  | sent =>
    rw [during_quiet (by simp [hy]) (by simp [hz]) (by simp [hz])]
    exact hquiet rfl (by simp [hearly (Or.inr (Or.inl rfl))])
  | @confirmed stream hframe =>
    rw [during_confirmed hy hz]
    refine .called ht (by simp [ht, Phase.shown, hz]) (by simp [hz]) ?_ (Or.inl rfl) hlast
    exact fun _ => ⟨xs, stream, e, [], rfl, hframe, rfl, by simp⟩
  | failed hk =>
    rw [during_quiet (by rcases hk with rfl | rfl <;> simp [hy]) (by simp [hz]) (by simp [hz])]
    refine hquiet ?_ (by simp)
    rcases hk with rfl | rfl
    · simp [hearly (Or.inr (Or.inr rfl))]
    · simp [hest rfl]
  | closed =>
    by_cases hstart : k = .start
    · subst hstart
      rw [during_entered hy (by simp [hz])]
      have hconfirmed := hearly (Or.inl rfl)
      exact .called ht (by simp [ht, Phase.shown, hz, hconfirmed]) (by simp [hz]) (by simp)
        (Or.inl rfl) hlast
    · by_cases hclosed : k = .closed
      · subst hclosed
        rw [during_keep (hz.trans hy.symm)]
        exact hquiet rfl (by simp)
      · rw [during_closed (by simpa [hy] using hstart) (by simpa [hy] using hclosed) hz]
        split
        · rename_i hconfirmed
          exact .called ht (by simp_all [Phase.shown]) (by simp [hz]) (by simp) (Or.inr rfl) hlast
        · rename_i hconfirmed
          refine hquiet ?_ (by simp)
          cases k <;> simp_all

end Sessions

/-- A record without a session in progress. -/
theorem Truthful.of_idle (ho : w.worker.phase.origin = none)
    (hstate : w.status.state = w.worker.phase.shown w.confirmed)
    (hlast : w.status.lastError = (errors xs).getLast?) : Truthful xs w where
  state := fun _ => hstate
  part := fun _ _ _ _ hs => by simp [hs, Phase.origin] at ho
  since := fun hest => by
    rw [hest] at hstate
    cases hp : w.worker.phase with
    | running => simp [hp, Phase.origin] at ho
    | _ => simp [hp, Phase.shown] at hstate
  error := fun _ => by rw [if_pos ho, Option.none_or, hlast]

/-- A session at its start. -/
theorem Truthful.of_start {origin : Origin} {c : Candidate Conn} {started : ℕ}
    {y : Session.State}
    (hs : w.worker.phase = .running origin c started y) (hy : y.phase = .start)
    (hstate : w.status.state = if origin = .choose then "Connect" else "Active")
    (hconfirmed : w.confirmed = false) (hresult : w.result = none)
    (hlast : w.status.lastError = (errors xs).getLast?) : Truthful xs w where
  state := fun _ => by
    rw [hstate, hs]
    simp only [Phase.shown, hy, Session.Phase.kind]
  part := fun _ _ _ _ hs' => by
    cases hs.symm.trans hs'
    simp [hconfirmed, hy, Session.Phase.kind]
  since := fun hest => by
    rw [hest] at hstate
    split at hstate <;> simp at hstate
  error := fun _ => by rw [hresult, ite_self, Option.none_or, hlast]

theorem report_eq (w : Watched Conn) : w.report.worker = w.worker ∧
    w.report.status.lastError = w.result.or w.status.lastError := by
  unfold Watched.report
  split
  · rename_i h
    simp [h, Watched.update, PeerStatus.update]
  · rename_i h
    simp [h]

/-- The worker has left the loop; its record stays as it is. -/
theorem Truthful.stop {t : State Conn} {result : Option String} (h : Truthful xs w)
    (ht : t.phase = .stopped) (hnow : t.now = w.worker.now + x.1.elapsed) (hx : x.1 ≠ .returned) :
    Truthful (xs ++ [x]) { w with worker := t, result } where
  state := fun hp => absurd ht hp
  part := fun _ _ _ _ hs => by cases ht.symm.trans hs
  since := fun hest => (h.since hest).snoc rfl hnow hx
  error := fun hp => absurd ht hp

theorem returned_of_plain (ha : a.plain = true) : a ≠ .returned := by
  rintro rfl
  cases ha

/-- A step that neither moves the worker nor its session. -/
theorem Truthful.same {t : State Conn} (h : Truthful xs w) (ht : t.phase = w.worker.phase)
    (hnow : t.now = w.worker.now + a.elapsed) (ha : a ≠ .returned) :
    Truthful (xs ++ [(a, none)]) { w with worker := t } := by
  cases hs : w.worker.phase with
  | running origin c started y =>
    exact h.quiet (x := (a, none)) hs (ht.trans hs) hnow ha (by rw [ht])
      (h.part origin c started y hs)
  | stopped => exact h.stop (ht.trans hs) hnow ha
  | choosing | waiting | handshaking =>
    have ho : w.worker.phase.origin = none := by rw [hs]; rfl
    have hp : w.worker.phase ≠ .stopped := by simp [hs]
    refine .of_idle (by rw [← ho, ← ht]) (by rw [ht]; exact h.state hp) ?_
    rw [errors_snoc, Option.none_or]
    exact h.error_idle hp ho

/-- The session has returned, and its error is on the record. -/
theorem Truthful.reported {t : State Conn} {origin : Origin} {state : String} (h : Truthful xs w)
    (hs : w.worker.phase.origin = some origin) (ht : t.phase.origin = none)
    (hstate : ∀ confirmed, t.phase.shown confirmed = state) :
    Truthful (xs ++ [(a, none)])
      ({ w with worker := t, result := none.or w.result }.report.update state none) := by
  obtain ⟨hworker, hlast⟩ :=
    report_eq ({ w with worker := t, result := none.or w.result } : Watched Conn)
  refine .of_idle ?_ ?_ ?_
  · simpa only [Watched.update, hworker] using ht
  · simp only [Watched.update, PeerStatus.update, hworker, hstate]
  · rw [errors_snoc, Option.none_or, ← h.error_running hs]
    simp only [Watched.update, PeerStatus.update, Option.none_or]
    exact hlast

theorem Truthful.follow {t : State Conn} (h : Truthful xs w) (ha : Passage w.worker a t)
    (hnow : t.now = w.worker.now + a.elapsed) (text : String) {e : Option String}
    (he : e = raised text w.worker.phase a t.phase) :
    Truthful (xs ++ [(a, e)])
      ({ w with worker := t, result := e.or w.result }.follow text w.worker.phase) := by
  have hstate := h.state
  have hlast : w.worker.phase.origin = none → w.worker.phase ≠ .stopped →
      e.or w.status.lastError = (errors (xs ++ [(a, e)])).getLast? := by
    intro ho hp
    rw [errors_snoc, h.error_idle hp ho]
  cases ha with
  | same ha hb ht =>
    have hnone : e = none := by
      rw [he, ht]
      cases w.worker.phase <;> cases a <;> first | rfl | exact absurd rfl (hb _)
    subst hnone
    have hfollow : { w with worker := t, result := none.or w.result }.follow text w.worker.phase =
        { w with worker := t } := by
      simp only [Watched.follow, ht, Option.none_or]
      cases w.worker.phase <;> first | rfl | exact during_keep rfl
    rw [hfollow]
    exact h.same ht hnow (returned_of_plain ha)
  | selecting ha hs ht =>
    rw [hs, ht] at he
    cases he
    simp only [hs, Phase.shown] at hstate
    simp only [Watched.follow, hs, ht]
    refine .of_idle (by simp [ht, Phase.origin]) ?_ (hlast (by rw [hs]; rfl) (by simp [hs]))
    simpa [ht, Phase.shown] using hstate
  | ambient ha hb hs ht hxy =>
    have hnone : e = none := by
      rw [he, hs, ht]
      cases a <;> first | rfl | exact absurd rfl (hb _)
    subst hnone
    simp only [Watched.follow, hs, ht, during_keep (congrArg Session.Phase.kind hxy)]
    refine h.quiet hs ht hnow (returned_of_plain ha) ?_ ?_
    · rw [hs, ht]
      simp only [Phase.shown, hxy]
    · rw [hxy]
      exact h.part _ _ _ _ hs
  | session hs ht hxy =>
    simp only [Watched.follow, hs, ht]
    exact h.session hs ht hnow hxy
  | chosen ha hs ht hy =>
    rw [hs, ht] at he
    cases he
    simp only [hs, Phase.shown] at hstate
    simp only [Watched.follow, hs, ht]
    refine .of_start ht hy ?_ rfl rfl (hlast (by rw [hs]; rfl) (by simp [hs]))
    simpa using hstate
  | failed ha hs hf ht =>
    rw [hs, ht] at he
    cases he
    simp only [Watched.follow, hs, ht]
    exact .of_idle (by simp [Watched.update, ht, Phase.origin])
      (by simp [Watched.update, PeerStatus.update, ht, Phase.shown])
      (hlast (by rw [hs]; rfl) (by simp [hs]))
  | accepted hs ht =>
    rw [hs, ht] at he
    cases he
    simp only [hs, Phase.shown] at hstate
    simp only [Watched.follow, hs, ht]
    refine .of_idle (by simp [ht, Phase.origin]) ?_ (hlast (by rw [hs]; rfl) (by simp [hs]))
    simpa [ht, Phase.shown] using hstate
  | shook hs ht hy =>
    rw [hs, ht] at he
    cases he
    simp only [hs, Phase.shown] at hstate
    simp only [Watched.follow, hs, ht]
    refine .of_start ht hy ?_ rfl rfl (hlast (by rw [hs]; rfl) (by simp [hs]))
    simpa using hstate
  | refused hs ht =>
    rw [hs, ht] at he
    cases he
    simp only [Watched.follow, hs, ht]
    exact .of_idle (by simp [Watched.update, ht, Phase.origin])
      (by simp [Watched.update, PeerStatus.update, ht, Phase.shown])
      (hlast (by rw [hs]; rfl) (by simp [hs]))
  | closed hs hf ht =>
    rw [hs, ht] at he
    cases he
    simp only [Watched.follow, hs, ht]
    exact h.reported (by rw [hs]; rfl) (by rw [ht]; rfl) (by simp [ht, Phase.shown])
  | left hs ht =>
    rw [hs, ht] at he
    cases he
    simp only [Watched.follow, hs, ht]
    exact h.reported (by rw [hs]; rfl) (by rw [ht]; rfl) (by simp [ht, Phase.shown])
  | woken hs hle ht =>
    rw [hs, ht] at he
    cases he
    simp only [Watched.follow, hs, ht]
    exact .of_idle (by simp [Watched.update, ht, Phase.origin])
      (by simp [Watched.update, PeerStatus.update, ht, Phase.shown])
      (hlast (by rw [hs]; rfl) (by simp [hs]))
  | stopped ha hs ht =>
    have hfollow : ∀ v : Watched Conn, v.worker = t → v.follow text w.worker.phase = v := by
      intro v hv
      simp only [Watched.follow, hv, ht]
      cases w.worker.phase <;> rfl
    rw [hfollow _ rfl]
    exact h.stop ht hnow (returned_of_plain ha)

theorem Truthful.step [DecidableEq Conn] (h : Truthful xs w) (ha : w.Step cfg p x w') :
    Truthful (xs ++ [x]) w' := by
  obtain ⟨t, text, hstep, hx, rfl⟩ := ha.follows
  exact h.follow hstep.passage.1 hstep.passage.2 text hx

theorem truthful_of_trace [DecidableEq Conn] {status : PeerStatus} {e : Exports} {t₀ : ℕ}
    (hstatus : status.lastError = none)
    (h : Lts.Trace (Watched.Step cfg p) (Watched.init status e t₀) xs w) : Truthful xs w := by
  refine h.history (P := Truthful) ?_ (fun _ _ _ _ hw ha => hw.step ha)
  exact .of_idle rfl rfl (by simp [Watched.init, PeerStatus.update, hstatus, errors])

/-- The session at hand is past its confirmation. -/
def Watched.established (w : Watched Conn) : Prop :=
  ∃ origin c started y, w.worker.phase = .running origin c started y ∧
    y.phase.kind = .established

/-- In every run of the worker from a new record until the worker ends: a session that is
established is shown as such; whatever is shown as Established was confirmed by the KEEPALIVE of the
neighbour, as long ago as the record tells and without the session having returned since; between
sessions the record shows whether the worker connects or waits, and as the last error the last one
that was raised in the whole run. -/
theorem status_truthful [DecidableEq Conn] {clock : ℕ → ℕ} {status : PeerStatus} {e : Exports}
    {t₀ : ℕ} (hstatus : status ∈ Listeners.statuses clock cfg)
    (h : Lts.Trace (Watched.Step cfg p) (Watched.init status e t₀) xs w)
    (hp : w.worker.phase ≠ .stopped) :
    (w.established → w.status.state = "Established") ∧
      (w.status.state = "Established" → w.worker.phase.origin ≠ none ∧ Confirmed xs w) ∧
      (∀ x, w.worker.phase = .choosing x → w.status.state = "Connect") ∧
      (∀ deadline, w.worker.phase = .waiting deadline → w.status.state = "Active") ∧
      (w.worker.phase.origin = none → w.status.lastError = (errors xs).getLast?) := by
  have hnone : status.lastError = none := by
    obtain ⟨i, _, rfl⟩ := List.mem_mapIdx.mp hstatus
    rfl
  have htrue := truthful_of_trace hnone h
  have hstate := htrue.state hp
  refine ⟨?_, ?_, ?_, ?_, htrue.error_idle hp⟩
  · rintro ⟨origin, c, started, y, hs, hk⟩
    rw [hstate, hs]
    simp only [Phase.shown, hk]
  · intro hest
    refine ⟨?_, htrue.since hest⟩
    intro ho
    rw [hest] at hstate
    cases hs : w.worker.phase with
    | running => simp [hs, Phase.origin] at ho
    | _ => simp [hs, Phase.shown] at hstate
  · intro x hs
    rw [hstate, hs]
    rfl
  · intro deadline hs
    rw [hstate, hs]
    rfl

open Ubgp.Choose (exampleIncoming)

/-- The first connection fails and is on the record; the second one is confirmed. -/
def confirmedMoves : List (Move Side × String) :=
  [(.deadline 0, "no usable BGP connection"), (.tick 2000, ""), (.wake, ""), (.deliver .b, ""),
    (.recv 0, ""), (.joined true (.ok exampleIncoming) 0, ""), (.session .send, ""),
    (.session (.accept 19), ""), (.session (.written 0 ⟨[], []⟩), ""),
    (.session (.receive (List.replicate 16 255 ++ [0, 19, 4])), ""), (.tick 7000, "")]

theorem confirmedMoves_exec :
    (Lts.exec (Watched.step exampleConfig examplePeer) confirmedMoves
      (Watched.init ⟨"Idle", 0, none⟩ ∅ 0)).map
      (fun r => (r.2.worker.phase.origin, r.2.status.state, r.2.status.since, r.2.status.lastError,
        r.2.worker.now)) =
      some (some .choose, "Established", 2000, some "no usable BGP connection", 9000) := by
  decide +kernel

theorem example_status_truthful : ∃ xs w,
    Lts.Trace (Watched.Step exampleConfig examplePeer)
      (Watched.init ⟨"Idle", 0, none⟩ ∅ 0 : Watched Side) xs w ∧
      w.status.state = "Established" ∧ Confirmed xs w := by
  obtain ⟨⟨xs, w⟩, hr, he⟩ := Option.map_eq_some_iff.mp confirmedMoves_exec
  simp only [Prod.mk.injEq] at he
  obtain ⟨horigin, hstate, -⟩ := he
  have htrace := Lts.exec_trace hr
  have hp : w.worker.phase ≠ .stopped := fun hp => by simp [hp, Phase.origin] at horigin
  have hstatus : ⟨"Idle", 0, none⟩ ∈ Listeners.statuses (fun _ => 0) exampleConfig := by
    simp [Listeners.statuses, exampleConfig]
  obtain ⟨-, hest, -⟩ := status_truthful hstatus htrace hp
  exact ⟨xs, w, htrace, hstate, (hest hstate).2⟩

end PeerLoop
end Ubgp
