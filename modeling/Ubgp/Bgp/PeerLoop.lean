import Ubgp.Bgp.Selection
import Ubgp.Bgp.Session

/-! The worker of one peer (`peer_loop` in `bgp.rs`) beside the listener that fills its queue.

The selection and the session are the step systems of their own modules. Times are in
milliseconds. -/
namespace Ubgp
namespace PeerLoop

/-- The place of the loop a session runs at: after `choose`, or within the backoff wait. -/
inductive Origin
  | choose
  | backoff
deriving DecidableEq

inductive Phase (Conn : Type)
  | choosing (c : Choose.State Conn)
  | running (origin : Origin) (candidate : Candidate Conn) (started : ℕ) (session : Session.State)
  | waiting (deadline : ℕ)
  | handshaking (stream : Conn)
  | stopped

/-- `queue` is the channel of accepted streams, `closed` that its sender is gone; `dropped` is that
of the exports. -/
structure State (Conn : Type) where
  phase : Phase Conn
  queue : List Conn
  closed : Bool
  failures : ℕ
  exports : Exports
  dropped : Bool
  now : ℕ

def init {Conn : Type} (e : Exports) (t : ℕ) : State Conn :=
  ⟨.choosing Choose.init, [], false, 0, e, false, t⟩

/-- `ceased` is a `try_write` on a stream that is dropped afterwards. -/
inductive Label (Conn : Type)
  | delivered (stream : Conn)
  | refused (stream : Conn)
  | closed
  | published (e : Exports)
  | dropped
  | tick (d : ℕ)
  | received (stream : Conn)
  | ceased (stream : Conn) (packet : Result Bytes)
  | accepted (stream : Conn)
  | selected (e : Choose.Event Conn)
  | handshake (result : Except String (Candidate Conn))
  | session (a : Session.Label)
  | returned
  | woken
  | stopped

/-- `jitter` is the sub-second part of the clock where the step ends in the backoff wait. -/
inductive Move (Conn : Type)
  | deliver (stream : Conn)
  | close
  | publish (e : Exports)
  | drop
  | tick (d : ℕ)
  | recv (jitter : ℕ)
  | joined (incoming : Bool) (result : Except String (Candidate Conn)) (jitter : ℕ)
  | deadline (jitter : ℕ)
  | handshake (result : Except String (Candidate Conn))
  | session (m : Session.Move)
  | finish (jitter : ℕ)
  | wake

/-- `mpsc::channel(2)`. -/
def capacity : ℕ := 2

/-- The bounded outbound backoff. -/
def retryMs (failures jitter : ℕ) : ℕ := min (2 ^ min failures 5) 30 * 1000 + jitter % 1000

/-- A session of this length clears the failures. -/
def stableMs : ℕ := 30000

namespace State
variable {Conn : Type} (cfg : Config) (p : Peer) (s : State Conn) (jitter : ℕ)

/-- Count a failure and wait. -/
def backoff (failures : ℕ) : State Conn :=
  let failures := min (failures + 1) (2 ^ 32 - 1)
  { s with phase := .waiting (s.now + retryMs failures jitter), failures }

/-- Run `session` on a candidate. -/
def begin (origin : Origin) (c : Candidate Conn) : State Conn :=
  let session := Session.init s.exports s.now
  let tx := { session.tx with closed := s.dropped }
  { s with phase := .running origin c s.now { session with tx } }

/-- Go on with the selection, or leave it. -/
def settle (c : Choose.State Conn) : State Conn :=
  match c.outcome with
  | none => { s with phase := .choosing c }
  | some (.ok candidate) => s.begin .choose candidate
  | some (.error _) => s.backoff jitter s.failures

/-- `recv` returned a stream. Within the backoff wait the session that follows does not look at
the queue. -/
def take [DecidableEq Conn] (stream : Conn) : Option (Label Conn × State Conn) :=
  match s.phase with
  | .choosing c => do
    let c ← Choose.step cfg p c (.recv (some stream))
    return (.received stream, s.settle jitter c)
  | .running .choose _ _ _ => some (.ceased stream (notification 6 7 []), s)
  | .running .backoff _ _ _ => none
  | .waiting _ => some (.accepted stream, { s with phase := .handshaking stream })
  | .handshaking _ => none
  | .stopped => none

/-- `recv` returned `None`. -/
def hangUp [DecidableEq Conn] : Option (Label Conn × State Conn) :=
  match s.phase with
  | .choosing c => do
    let c ← Choose.step cfg p c (.recv none)
    return (.selected (.recv none), s.settle jitter c)
  | .running .choose _ _ _ => some (.stopped, { s with phase := .stopped })
  | .running .backoff _ _ _ => none
  | .waiting _ => some (.stopped, { s with phase := .stopped })
  | .handshaking _ => none
  | .stopped => none

def recv [DecidableEq Conn] : Option (Label Conn × State Conn) :=
  match s.queue with
  | stream :: queue => { s with queue }.take cfg p jitter stream
  | [] => if s.closed then s.hangUp cfg p jitter else none

/-- Another branch of `choose`. -/
def select [DecidableEq Conn] (e : Choose.Event Conn) : Option (Label Conn × State Conn) :=
  match s.phase with
  | .choosing c => do
    let c ← Choose.step cfg p c e
    return (.selected e, s.settle jitter c)
  | _ => none

/-- The handshake on a stream accepted during the backoff wait returned. -/
def handshook : Except String (Candidate Conn) → Option (Label Conn × State Conn)
  | .ok c =>
    match s.phase with
    | .handshaking _ => some (.handshake (.ok c), s.begin .backoff c)
    | _ => none
  | .error e =>
    match s.phase with
    | .handshaking _ => some (.handshake (.error e), { s with phase := .choosing Choose.init })
    | _ => none

/-- A step of the running session or of its environment. -/
def advance (m : Session.Move) : Option (Session.Label × State Conn) :=
  match s.phase with
  | .running origin c started session => do
    let (a, session) ← Session.step cfg (p.fill c.linkLocal) c.negotiated session m
    return (a, { s with phase := .running origin c started session })
  | _ => none

/-- The session has returned: wait after `choose`, start over after the backoff wait. -/
def finish : Option (Label Conn × State Conn) :=
  match s.phase with
  | .running origin _ started session =>
    match session.phase, origin with
    | .closed, .choose =>
      some (.returned, s.backoff jitter (if started + stableMs ≤ s.now then 0 else s.failures))
    | .closed, .backoff => some (.returned, { s with phase := .choosing Choose.init })
    | _, _ => none
  | _ => none

/-- What the environment does to a running session as well. -/
def ambient (m : Transmit.Move) : State Conn :=
  match s.advance cfg p (.environment m) with
  | some (_, t) => t
  | none => s

end State

/-- The session's own steps; time and snapshots reach it with those of the worker. -/
def ownMove : Session.Move → Bool
  | .environment _ => false
  | _ => true

def step {Conn : Type} [DecidableEq Conn] (cfg : Config) (p : Peer) (s : State Conn) :
    Move Conn → Option (Label Conn × State Conn)
  | .deliver stream =>
    if s.closed then none
    else if s.queue.length < capacity then
      some (.delivered stream, { s with queue := s.queue ++ [stream] })
    else some (.refused stream, s)
  | .close => some (.closed, { s with closed := true })
  | .publish e =>
    if s.dropped then none
    else some (.published e, { s with exports := e }.ambient cfg p (.publish e))
  | .drop => some (.dropped, { s with dropped := true }.ambient cfg p .close)
  | .tick d => some (.tick d, { s with now := s.now + d }.ambient cfg p (.tick d))
  | .recv jitter => s.recv cfg p jitter
  | .joined incoming result jitter => s.select cfg p jitter (.joined incoming result)
  | .deadline jitter => s.select cfg p jitter .deadline
  | .handshake result => s.handshook result
  | .session m =>
    if ownMove m then (s.advance cfg p m).map (fun r => (.session r.1, r.2)) else none
  | .finish jitter => s.finish jitter
  | .wake =>
    match s.phase with
    | .waiting deadline =>
      if deadline ≤ s.now then some (.woken, { s with phase := .choosing Choose.init }) else none
    | _ => none

def Step {Conn : Type} [DecidableEq Conn] (cfg : Config) (p : Peer) (s : State Conn)
    (a : Label Conn) (t : State Conn) : Prop :=
  ∃ m, step cfg p s m = some (a, t)

/-- Where the running session came from. -/
def Phase.origin {Conn : Type} : Phase Conn → Option Origin
  | .running origin _ _ _ => some origin
  | _ => none

variable {Conn : Type} {cfg : Config} {p : Peer} {s t : State Conn}
  {a : Label Conn} {xs : List (Label Conn)} {jitter : ℕ}

/-- What a step does to the queue, and to the place the session runs at. -/
inductive Effect (s : State Conn) : Label Conn → State Conn → Prop
  | other {a : Label Conn} {t : State Conn} (ha : ∀ stream packet, a ≠ .ceased stream packet)
      (hq : s.queue <+: t.queue)
      (ho : t.phase.origin = some .backoff → s.phase.origin = some .backoff) : Effect s a t
  | taken {a : Label Conn} {t : State Conn} {stream : Conn}
      (ha : ∀ stream packet, a ≠ .ceased stream packet) (hs : s.phase.origin = none)
      (hq : s.queue = stream :: t.queue) (ho : t.phase.origin ≠ some .backoff) : Effect s a t
  | ceased {stream : Conn} {queue : List Conn} (hs : s.phase.origin = some .choose)
      (hq : s.queue = stream :: queue) :
      Effect s (.ceased stream (notification 6 7 [])) { s with queue }
  | began {c : Candidate Conn} {t : State Conn} (hq : t.queue = s.queue) :
      Effect s (.handshake (.ok c)) t

theorem settle_spec (s : State Conn) (jitter : ℕ) (c : Choose.State Conn) :
    (s.settle jitter c).queue = s.queue ∧
      (s.settle jitter c).phase.origin ≠ some .backoff := by
  unfold State.settle
  split
  · exact ⟨rfl, by simp [Phase.origin]⟩
  · exact ⟨rfl, by simp [State.begin, Phase.origin]⟩
  · exact ⟨rfl, by simp [State.backoff, Phase.origin]⟩

theorem advance_spec {m : Session.Move} {b : Session.Label}
    (h : s.advance cfg p m = some (b, t)) :
    t.queue = s.queue ∧ t.phase.origin = s.phase.origin := by
  unfold State.advance at h
  split at h
  · rename_i hphase
    simp only [Option.bind_eq_bind, Option.bind_eq_some_iff, Option.pure_def, Option.some.injEq,
      Prod.exists, Prod.mk.injEq] at h
    obtain ⟨_, _, -, -, rfl⟩ := h
    exact ⟨rfl, by rw [hphase]; rfl⟩
  · cases h

theorem ambient_spec (cfg : Config) (p : Peer) (s : State Conn) (m : Transmit.Move) :
    (s.ambient cfg p m).queue = s.queue ∧ (s.ambient cfg p m).phase.origin = s.phase.origin := by
  unfold State.ambient
  split
  · rename_i h
    exact advance_spec h
  · exact ⟨rfl, rfl⟩

/-- A step that leaves the queue alone and does not start a session within the backoff wait. -/
theorem Effect.leave (ha : ∀ stream packet, a ≠ .ceased stream packet) (hq : t.queue = s.queue)
    (ho : t.phase.origin ≠ some .backoff) : Effect s a t :=
  .other ha (by rw [hq]) (fun h => absurd h ho)

theorem finish_effect (h : s.finish jitter = some (a, t)) : Effect s a t := by
  unfold State.finish at h
  split at h
  · split at h
    · cases h
      exact .leave (by simp) rfl (by simp [State.backoff, Phase.origin])
    · cases h
      exact .leave (by simp) rfl (by simp [Phase.origin])
    · cases h
  · cases h

variable [DecidableEq Conn]

theorem recv_effect (h : s.recv cfg p jitter = some (a, t)) : Effect s a t := by
  unfold State.recv at h
  split at h
  · rename_i stream queue hq
    unfold State.take at h
    split at h
    case h_1 hphase =>
      simp only [Option.bind_eq_bind, Option.bind_eq_some_iff, Option.pure_def, Option.some.injEq,
        Prod.mk.injEq] at h
      obtain ⟨c, -, rfl, rfl⟩ := h
      obtain ⟨hqueue, horigin⟩ := settle_spec { s with queue } jitter c
      exact .taken (by simp) (by rw [hphase]; rfl) (by rw [hqueue, hq]) horigin
    case h_2 hphase =>
      cases h
      exact .ceased (by rw [hphase]; rfl) hq
    case h_4 hphase =>
      cases h
      exact .taken (by simp) (by rw [hphase]; rfl) hq (by simp [Phase.origin])
    all_goals cases h
  · simp only [Option.ite_none_right_eq_some] at h
    obtain ⟨-, h⟩ := h
    unfold State.hangUp at h
    split at h
    case h_1 =>
      simp only [Option.bind_eq_bind, Option.bind_eq_some_iff, Option.pure_def, Option.some.injEq,
        Prod.mk.injEq] at h
      obtain ⟨c, -, rfl, rfl⟩ := h
      obtain ⟨hqueue, horigin⟩ := settle_spec s jitter c
      exact .leave (by simp) hqueue horigin
    case h_2 | h_4 =>
      cases h
      exact .leave (by simp) rfl (by simp [Phase.origin])
    all_goals cases h

theorem select_effect {e : Choose.Event Conn} (h : s.select cfg p jitter e = some (a, t)) :
    Effect s a t := by
  unfold State.select at h
  split at h
  · simp only [Option.bind_eq_bind, Option.bind_eq_some_iff, Option.pure_def, Option.some.injEq,
      Prod.mk.injEq] at h
    obtain ⟨c, -, rfl, rfl⟩ := h
    obtain ⟨hqueue, horigin⟩ := settle_spec s jitter c
    exact .leave (by simp) hqueue horigin
  · cases h

/-- Every step is one of the listed effects. -/
theorem Step.effect (h : Step cfg p s a t) : Effect s a t := by
  obtain ⟨m, h⟩ := h
  cases m with
  | deliver stream =>
    simp only [step, Option.ite_none_left_eq_some] at h
    obtain ⟨-, h⟩ := h
    split at h
    · cases h
      exact .other (by simp) (List.prefix_append _ _) (fun h => h)
    · cases h
      exact .other (by simp) (List.prefix_refl _) (fun h => h)
  | close =>
    cases h
    exact .other (by simp) (List.prefix_refl _) (fun h => h)
  | publish e =>
    simp only [step, Option.ite_none_left_eq_some] at h
    obtain ⟨-, h⟩ := h
    cases h
    obtain ⟨hqueue, horigin⟩ := ambient_spec cfg p { s with exports := e } (.publish e)
    exact .other (by simp) (by rw [hqueue]) (by rw [horigin]; exact fun h => h)
  | drop =>
    cases h
    obtain ⟨hqueue, horigin⟩ := ambient_spec cfg p { s with dropped := true } .close
    exact .other (by simp) (by rw [hqueue]) (by rw [horigin]; exact fun h => h)
  | tick d =>
    cases h
    obtain ⟨hqueue, horigin⟩ := ambient_spec cfg p { s with now := s.now + d } (.tick d)
    exact .other (by simp) (by rw [hqueue]) (by rw [horigin]; exact fun h => h)
  | recv jitter => exact recv_effect h
  | joined incoming result jitter => exact select_effect h
  | deadline jitter => exact select_effect h
  | handshake result =>
    cases result with
    | ok c =>
      simp only [step, State.handshook] at h
      split at h
      · cases h
        exact .began rfl
      · cases h
    | error e =>
      simp only [step, State.handshook] at h
      split at h
      · cases h
        exact .leave (by simp) rfl (by simp [Phase.origin])
      · cases h
  | session m =>
    simp only [step, Option.ite_none_right_eq_some, Option.map_eq_some_iff, Prod.exists,
      Prod.mk.injEq] at h
    obtain ⟨-, b, u, hu, rfl, rfl⟩ := h
    obtain ⟨hqueue, horigin⟩ := advance_spec hu
    exact .other (by simp) (by rw [hqueue]) (by rw [horigin]; exact fun h => h)
  | finish jitter => exact finish_effect h
  | wake =>
    simp only [step] at h
    split at h
    · simp only [Option.ite_none_right_eq_some] at h
      obtain ⟨-, h⟩ := h
      cases h
      exact .leave (by simp) rfl (by simp [Phase.origin])
    · cases h

/-- A further stream can be taken off the queue, with an attempt to send Cease and nothing else. -/
structure Deals (cfg : Config) (p : Peer) (s : State Conn) : Prop where
  enabled : ∀ stream queue, s.queue = stream :: queue →
    Step cfg p s (.ceased stream (notification 6 7 [])) { s with queue }
  only : ∀ a t stream, Step cfg p s a t → s.queue = stream :: t.queue →
    a = .ceased stream (notification 6 7 []) ∧ t = { s with queue := t.queue }

/-- A step of a running session that shortens the queue is the attempt to send Cease. -/
theorem taken_ceased {origin : Origin} {stream : Conn} (hs : s.phase.origin = some origin)
    (h : Step cfg p s a t) (hq : s.queue = stream :: t.queue) :
    a = .ceased stream (notification 6 7 []) ∧ t = { s with queue := t.queue } := by
  cases h.effect with
  | other _ hle =>
    have hlen := hle.length_le
    rw [hq, List.length_cons] at hlen
    omega
  | taken _ hnone => cases hnone.symm.trans hs
  | ceased _ hq' =>
    rw [hq'] at hq
    cases hq
    exact ⟨rfl, rfl⟩
  | began hkeep =>
    rw [hkeep] at hq
    exact absurd (congrArg List.length hq) (by simp)

theorem deals_of_choose (h : s.phase.origin = some .choose) : Deals cfg p s := by
  refine ⟨?_, fun _ _ _ => taken_ceased h⟩
  intro stream queue hq
  refine ⟨.recv 0, ?_⟩
  cases hphase : s.phase with
  | running origin c started session =>
    rw [hphase] at h
    cases h
    simp [step, State.recv, hq, State.take, hphase]
  | choosing | waiting | handshaking | stopped =>
    rw [hphase] at h
    cases h

/-- Only a session after `choose` answers a stream with Cease. -/
theorem ceased_origin {stream : Conn} {packet : Result Bytes}
    (h : Step cfg p s (.ceased stream packet) t) : s.phase.origin = some .choose := by
  cases h.effect with
  | other ha => exact absurd rfl (ha _ _)
  | taken ha => exact absurd rfl (ha _ _)
  | ceased hs => exact hs

/-- Beside a session within the backoff wait the queue only grows. -/
theorem queue_grows (hs : s.phase.origin = some .backoff) (h : Step cfg p s a t) :
    s.queue <+: t.queue := by
  cases h.effect with
  | other _ hq => exact hq
  | taken _ hnone => cases hnone.symm.trans hs
  | ceased hchoose => cases hchoose.symm.trans hs
  | began hq => rw [hq]

/-- A session within the backoff wait was started by a handshake there. -/
theorem backoff_of_trace {e : Exports} {t₀ : ℕ} (h : Lts.Trace (Step cfg p) (init e t₀) xs s)
    (hs : s.phase.origin = some .backoff) : ∃ c, .handshake (.ok c) ∈ xs := by
  revert hs
  refine h.history (P := fun xs s => s.phase.origin = some .backoff →
    ∃ c, .handshake (.ok c) ∈ xs) (fun hs => by cases hs) ?_
  intro xs s a t ih ha hs
  have hold : s.phase.origin = some .backoff → ∃ c, .handshake (.ok c) ∈ xs ++ [a] := by
    intro hs
    obtain ⟨c, hc⟩ := ih hs
    exact ⟨c, List.mem_append_left _ hc⟩
  cases ha.effect with
  | other _ _ ho => exact hold (ho hs)
  | taken _ _ _ ho => exact absurd hs ho
  | ceased _ _ => exact hold hs
  | @began c => exact ⟨c, by simp⟩

/-- In every run, while a session runs: redundant connections are dealt with iff its candidate came
from `choose` or there is none; otherwise they stay in the queue. So they always are in runs
without a successful handshake in the backoff wait. -/
theorem redundant_dealt_iff {e : Exports} {t₀ : ℕ}
    (h : Lts.Trace (Step cfg p) (init e t₀) xs s) {origin : Origin}
    (hs : s.phase.origin = some origin) :
    (Deals cfg p s ↔ origin = .choose ∨ s.queue = []) ∧
    (origin = .backoff → ∀ a t, Step cfg p s a t → s.queue <+: t.queue) ∧
    ((∀ c, .handshake (.ok c) ∉ xs) → Deals cfg p s) := by
  have hdeals : origin = .choose ∨ s.queue = [] → Deals cfg p s := by
    rintro (rfl | hnil)
    · exact deals_of_choose hs
    · refine ⟨fun stream queue hq => ?_, fun _ _ _ => taken_ceased hs⟩
      rw [hnil] at hq
      cases hq
  refine ⟨⟨?_, hdeals⟩, ?_, ?_⟩
  · intro hd
    cases hq : s.queue with
    | nil => exact Or.inr rfl
    | cons stream queue =>
      have hchoose := ceased_origin (hd.enabled stream queue hq)
      exact Or.inl (Option.some.inj (hs.symm.trans hchoose))
  · rintro rfl a t ha
    exact queue_grows hs ha
  · intro hnone
    cases origin with
    | choose => exact hdeals (Or.inl rfl)
    | backoff =>
      obtain ⟨c, hc⟩ := backoff_of_trace h hs
      exact absurd hc (hnone c)

open Ubgp.Choose (exampleIncoming)

/-- The first incoming connection is chosen; the second one arrives during its session. -/
def chosenMoves : List (Move Side) :=
  [.deliver .b, .recv 0, .joined true (.ok exampleIncoming) 0, .deliver .a]

/-- No connection is made in time. The first incoming one is accepted while the worker waits; the
second one arrives during its session. -/
def backoffMoves : List (Move Side) :=
  [.deadline 0, .deliver .b, .recv 0, .handshake (.ok exampleIncoming), .deliver .a]

theorem chosenMoves_exec :
    (Lts.exec (step exampleConfig examplePeer) chosenMoves (init ∅ 0)).map
      (fun r => (r.2.phase.origin, r.2.queue)) = some (some .choose, [.a]) := by
  decide +kernel

theorem backoffMoves_exec :
    (Lts.exec (step exampleConfig examplePeer) backoffMoves (init ∅ 0)).map
      (fun r => (r.2.phase.origin, r.2.queue)) = some (some .backoff, [.a]) := by
  decide +kernel

theorem example_redundant_dealt :
    ∃ xs s, Lts.Trace (Step exampleConfig examplePeer) (init ∅ 0) xs s ∧ s.queue = [Side.a] ∧
      Step exampleConfig examplePeer s (.ceased .a (notification 6 7 []))
        { s with queue := [] } := by
  obtain ⟨⟨xs, s⟩, hr, he⟩ := Option.map_eq_some_iff.mp chosenMoves_exec
  simp only [Prod.mk.injEq] at he
  obtain ⟨horigin, hqueue⟩ := he
  have htrace := Lts.exec_trace hr
  obtain ⟨hdeals, -⟩ := redundant_dealt_iff htrace horigin
  exact ⟨xs, s, htrace, hqueue, (hdeals.mpr (Or.inl rfl)).enabled _ _ hqueue⟩

/-- A connection that arrives during a session within the backoff wait is not dealt with. -/
theorem redundant_parked :
    ¬ ∀ (cfg : Config) (p : Peer) (e : Exports) (t₀ : ℕ) (xs : List (Label Side))
      (s : State Side) (origin : Origin), Lts.Trace (Step cfg p) (init e t₀) xs s →
        s.phase.origin = some origin → Deals cfg p s := by
  intro hall
  obtain ⟨⟨xs, s⟩, hr, he⟩ := Option.map_eq_some_iff.mp backoffMoves_exec
  simp only [Prod.mk.injEq] at he
  obtain ⟨horigin, hqueue⟩ := he
  have hdeals := hall _ _ _ _ xs s _ (Lts.exec_trace hr) horigin
  have hchoose := ceased_origin (hdeals.enabled _ _ hqueue)
  cases hchoose.symm.trans horigin

end PeerLoop
end Ubgp
