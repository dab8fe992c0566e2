import Ubgp.Bgp.Plan
import Ubgp.Lib.Trace
import Ubgp.Lib.Watch

/-! The export loop of an established session (`transmit` in `bgp.rs`) as a step system.

Times are in milliseconds. The channel, the refresh requests and the clock are moved by the
environment; every other step is one section of the loop. -/
namespace Ubgp

/-- A mask of address families (the bits 1 and 2 of the source). -/
structure Families where
  v4 : Bool
  v6 : Bool
deriving DecidableEq

namespace Families

def none : Families := ⟨false, false⟩

/-- `fetch_or` of one family bit. -/
def insert (f : Families) (v6 : Bool) : Families :=
  if v6 then { f with v6 := true } else { f with v4 := true }

def mask (f g : Families) : Families := ⟨f.v4 && g.v4, f.v6 && g.v6⟩

/-- The mask selects the family of a prefix. -/
def covers (f : Families) (p : IpNet) : Bool := if p.isIpv6 then f.v6 else f.v4

end Families

/-- The families a session has negotiated. -/
def Negotiated.families (n : Negotiated) : Families := ⟨n.ipv4, n.ipv6⟩

/-- Coalesced refresh requests. `permit` is the stored notification; `notifying` is set between
the `fetch_or` and the `notify_one` of a request. -/
structure Refresh where
  pending : Families
  permit : Bool
  notifying : Bool

namespace Transmit

/-- Where the loop stands; `armed` is the value of the cooldown branch's guard when the final
`select!` was entered. -/
inductive Pc
  | start
  | replan
  | refresh
  | keepalive
  | batch
  | eor4
  | eor6
  | arm
  | select (armed : Bool)
  | ended
deriving DecidableEq

structure State where
  pc : Pc
  channel : Watch Exports
  closed : Bool
  refresh : Refresh
  now : ℕ
  advertised : Prefixes
  target : Prefixes
  replay : Prefixes
  plan : Plan
  nextKeepalive : ℕ
  eor : Families
  lastReplan : ℕ
  nextRefresh : ℕ

/-- A session about to start its export loop at time `t`. -/
def init (e : Exports) (t : ℕ) : State where
  pc := .start
  channel := Watch.start e
  closed := false
  refresh := ⟨Families.none, false, false⟩
  now := t
  advertised := ∅
  target := ∅
  replay := ∅
  plan := ⟨[], []⟩
  nextKeepalive := t
  eor := Families.none
  lastReplan := t
  nextRefresh := t

/-- The messages of the loop. -/
inductive Send
  | keepalive
  | update (withdraw : Bool) (batch : List IpNet)
  | endOfRib (v6 : Bool)
deriving DecidableEq

inductive Label
  | publish (e : Exports)
  | request (v6 : Bool)
  | notify
  | tick (d : ℕ)
  | close
  | adopt (e : Exports)
  | swap (families : Families)
  | sent (m : Send)
  | tau
  | stop

/-- Iteration orders of the sent and the targeted prefixes. -/
structure Orders where
  sent : List IpNet
  targeted : List IpNet

/-- The branches of the final `select!`. -/
inductive Branch
  | changed
  | notified
  | cooldown
  | keepalive

/-- A step of the environment, a section of the loop taking `d` milliseconds, or a wake-up. -/
inductive Move
  | publish (e : Exports)
  | request (v6 : Bool)
  | notify
  | tick (d : ℕ)
  | close
  | run (d : ℕ) (o : Orders)
  | wake (branch : Branch) (d : ℕ) (o : Orders)

/-- A third of the hold time, but at least a second. -/
def keepaliveMs (n : Negotiated) : ℕ := max (n.hold / 3) 1 * 1000

def replanMs : ℕ := 100
def refreshMs : ℕ := 1000

namespace State
variable (n : Negotiated) (acl : String) (s : State) (d : ℕ) (o : Orders)

/-- Diff the target against what was sent, under some iteration order. -/
def withPlan (target replay : Prefixes) : Option State :=
  if Enumerates o.sent s.advertised ∧ Enumerates o.targeted target then
    some { s with
      target
      replay
      plan := Plan.new s.advertised target n replay o.sent o.targeted }
  else none

/-- Mark the snapshot, adopt it and replan; prefixes that left the target need no replay. -/
def adopt : Option State :=
  let target := desired s.channel.value acl
  { s with channel := s.channel.mark, lastReplan := s.now + d, now := s.now + d }.withPlan n o
    target (s.replay.filter (· ∈ target))

/-- The locals before the loop. -/
def begin : Option (Label × State) := do
  let t ← s.adopt n acl d o
  return (.adopt s.channel.value, { t with
    pc := .replan
    nextKeepalive := t.now + keepaliveMs n
    eor := n.families
    nextRefresh := t.now })

/-- Replan against what was actually written, at most every 100 ms. -/
def replanSection : Option (Label × State) :=
  if s.closed then some (.stop, { s with pc := .ended })
  else if s.channel.hasChanged && decide (s.lastReplan + replanMs ≤ s.now) then do
    let t ← s.adopt n acl d o
    return (.adopt s.channel.value, { t with pc := .refresh })
  else some (.tau, { s with pc := .refresh, now := s.now + d })

/-- Start a refresh cycle when none is unfinished and the cooldown is over. -/
def refreshSection : Option (Label × State) :=
  let f := s.refresh.pending
  if s.eor = Families.none ∧ s.nextRefresh ≤ s.now ∧ f ≠ Families.none then do
    let t ← s.withPlan n o s.target (s.target.filter (fun p => f.covers p = true))
    return (.swap f, { t with
      pc := .keepalive
      refresh := { s.refresh with pending := Families.none }
      now := s.now + d
      eor := f.mask n.families
      nextRefresh := s.now + d + refreshMs })
  else some (.tau, { s with pc := .keepalive, now := s.now + d })

/-- What the sections that write are about to send. -/
def outgoing : Option Send :=
  match s.pc with
  | .keepalive => if n.hold ≠ 0 ∧ s.nextKeepalive ≤ s.now then some .keepalive else none
  | .batch => s.plan.next.map (fun r => .update r.1.1 r.1.2)
  | .eor4 => if s.eor.v4 then some (.endOfRib false) else none
  | .eor6 => if s.eor.v6 then some (.endOfRib true) else none
  | _ => none

/-- After a batch was written: account for it and go round. -/
def afterBatch (withdraw : Bool) (batch : List IpNet) (plan : Plan) : State :=
  { s with
    pc := .replan
    now := s.now + d
    replay := s.replay \ batch.toFinset
    advertised := if withdraw then s.advertised \ batch.toFinset
      else s.advertised ∪ batch.toFinset
    plan }

def keepaliveSection : Label × State :=
  if n.hold ≠ 0 ∧ s.nextKeepalive ≤ s.now then
    (.sent .keepalive, { s with
      pc := .batch, now := s.now + d, nextKeepalive := s.now + d + keepaliveMs n })
  else (.tau, { s with pc := .batch, now := s.now + d })

def batchSection : Label × State :=
  match s.plan.next with
  | some ((withdraw, batch), plan) =>
    (.sent (.update withdraw batch), s.afterBatch d withdraw batch plan)
  | none => (.tau, { s with pc := .eor4, now := s.now + d })

def eor4Section : Label × State :=
  (if s.eor.v4 then .sent (.endOfRib false) else .tau, { s with pc := .eor6, now := s.now + d })

def eor6Section : Label × State :=
  (if s.eor.v6 then .sent (.endOfRib true) else .tau,
    { s with pc := .arm, now := s.now + d, eor := Families.none })

/-- Enter the final `select!`, evaluating the guard of its cooldown branch. -/
def armSection : Label × State :=
  (.tau, { s with
    pc := .select (decide (s.eor = Families.none ∧ s.refresh.pending ≠ Families.none))
    now := s.now + d })

/-- One section of the loop. -/
def advance : Option (Label × State) :=
  match s.pc with
  | .start => s.begin n acl d o
  | .replan => s.replanSection n acl d o
  | .refresh => s.refreshSection n d o
  | .keepalive => some (s.keepaliveSection n d)
  | .batch => some (s.batchSection d)
  | .eor4 => some (s.eor4Section d)
  | .eor6 => some (s.eor6Section d)
  | .arm => some (s.armSection d)
  | .select _ => none
  | .ended => none

/-- A ready branch of the final `select!`. -/
def wake (armed : Bool) : Branch → Option (Label × State)
  | .changed =>
    if s.channel.hasChanged then do
      let t ← s.adopt n acl d o
      return (.adopt s.channel.value, { t with pc := .replan })
    else if s.closed then some (.stop, { s with pc := .ended })
    else none
  | .notified =>
    if s.refresh.permit then
      some (.tau, { s with pc := .replan, now := s.now + d,
                           refresh := { s.refresh with permit := false } })
    else none
  | .cooldown =>
    if armed && decide (s.nextRefresh ≤ s.now) then
      some (.tau, { s with pc := .replan, now := s.now + d })
    else none
  | .keepalive =>
    if n.hold ≠ 0 ∧ s.nextKeepalive ≤ s.now then
      some (.tau, { s with pc := .replan, now := s.now + d })
    else none

end State

def step (n : Negotiated) (acl : String) (s : State) : Move → Option (Label × State)
  | .publish e =>
    if s.closed then none else some (.publish e, { s with channel := s.channel.sendReplace e })
  | .request v6 =>
    if s.refresh.notifying then none
    else some (.request v6, { s with
      refresh := { s.refresh with pending := s.refresh.pending.insert v6, notifying := true } })
  | .notify =>
    if s.refresh.notifying then
      some (.notify, { s with refresh := { s.refresh with permit := true, notifying := false } })
    else none
  | .tick d => some (.tick d, { s with now := s.now + d })
  | .close => some (.close, { s with closed := true })
  | .run d o => s.advance n acl d o
  | .wake branch d o =>
    match s.pc with
    | .select armed => s.wake n acl d o armed branch
    | _ => none

/-- Some move takes `s` to `t` under this label. -/
def Step (n : Negotiated) (acl : String) (s : State) (a : Label) (t : State) : Prop :=
  ∃ m, step n acl s m = some (a, t)

/-- What one step can do, section by section. -/
inductive Effect (n : Negotiated) (acl : String) (s : State) : Label → State → Prop
  | publish {e : Exports} (hopen : s.closed = false) :
      Effect n acl s (.publish e) { s with channel := s.channel.sendReplace e }
  | request {v6 : Bool} (hn : s.refresh.notifying = false) :
      Effect n acl s (.request v6) { s with
        refresh := { s.refresh with pending := s.refresh.pending.insert v6, notifying := true } }
  | notify (hn : s.refresh.notifying = true) :
      Effect n acl s .notify { s with
        refresh := { s.refresh with permit := true, notifying := false } }
  | tick {d : ℕ} : Effect n acl s (.tick d) { s with now := s.now + d }
  | close : Effect n acl s .close { s with closed := true }
  | begin {d : ℕ} {o : Orders} {t : State} (hpc : s.pc = .start)
      (ht : s.adopt n acl d o = some t) :
      Effect n acl s (.adopt s.channel.value) { t with
        pc := .replan
        nextKeepalive := t.now + keepaliveMs n
        eor := n.families
        nextRefresh := t.now }
  | replan {d : ℕ} {o : Orders} {t : State} (hpc : s.pc = .replan) (hopen : s.closed = false)
      (hc : s.channel.hasChanged = true) (he : s.lastReplan + replanMs ≤ s.now)
      (ht : s.adopt n acl d o = some t) :
      Effect n acl s (.adopt s.channel.value) { t with pc := .refresh }
  | keep {d : ℕ} (hpc : s.pc = .replan) (hopen : s.closed = false)
      (hc : s.channel.hasChanged = true → s.now < s.lastReplan + replanMs) :
      Effect n acl s .tau { s with pc := .refresh, now := s.now + d }
  | swap {d : ℕ} {o : Orders} {t : State} (hpc : s.pc = .refresh) (heor : s.eor = Families.none)
      (hcool : s.nextRefresh ≤ s.now) (hf : s.refresh.pending ≠ Families.none)
      (ht : s.withPlan n o s.target
        (s.target.filter (fun p => s.refresh.pending.covers p = true)) = some t) :
      Effect n acl s (.swap s.refresh.pending) { t with
        pc := .keepalive
        refresh := { s.refresh with pending := Families.none }
        now := s.now + d
        eor := s.refresh.pending.mask n.families
        nextRefresh := s.now + d + refreshMs }
  | noSwap {d : ℕ} (hpc : s.pc = .refresh)
      (hn : s.eor = Families.none → s.nextRefresh ≤ s.now → s.refresh.pending = Families.none) :
      Effect n acl s .tau { s with pc := .keepalive, now := s.now + d }
  | keepalive {d : ℕ} (hpc : s.pc = .keepalive) (hh : n.hold ≠ 0)
      (hdue : s.nextKeepalive ≤ s.now) :
      Effect n acl s (.sent .keepalive) { s with
        pc := .batch, now := s.now + d, nextKeepalive := s.now + d + keepaliveMs n }
  | noKeepalive {d : ℕ} (hpc : s.pc = .keepalive) (hn : n.hold ≠ 0 → s.now < s.nextKeepalive) :
      Effect n acl s .tau { s with pc := .batch, now := s.now + d }
  | batch {d : ℕ} {withdraw : Bool} {batch : List IpNet} {plan : Plan} (hpc : s.pc = .batch)
      (hn : s.plan.next = some ((withdraw, batch), plan)) :
      Effect n acl s (.sent (.update withdraw batch)) (s.afterBatch d withdraw batch plan)
  | drained {d : ℕ} (hpc : s.pc = .batch) (hn : s.plan.next = none) :
      Effect n acl s .tau { s with pc := .eor4, now := s.now + d }
  | eor4 {d : ℕ} (hpc : s.pc = .eor4) :
      Effect n acl s (if s.eor.v4 then .sent (.endOfRib false) else .tau)
        { s with pc := .eor6, now := s.now + d }
  | eor6 {d : ℕ} (hpc : s.pc = .eor6) :
      Effect n acl s (if s.eor.v6 then .sent (.endOfRib true) else .tau)
        { s with pc := .arm, now := s.now + d, eor := Families.none }
  | arm {d : ℕ} (hpc : s.pc = .arm) :
      Effect n acl s .tau { s with
        pc := .select (decide (s.eor = Families.none ∧ s.refresh.pending ≠ Families.none))
        now := s.now + d }
  | changed {d : ℕ} {o : Orders} {t : State} {armed : Bool} (hpc : s.pc = .select armed)
      (hc : s.channel.hasChanged = true) (ht : s.adopt n acl d o = some t) :
      Effect n acl s (.adopt s.channel.value) { t with pc := .replan }
  | notified {d : ℕ} {armed : Bool} (hpc : s.pc = .select armed)
      (hp : s.refresh.permit = true) :
      Effect n acl s .tau { s with
        pc := .replan, now := s.now + d, refresh := { s.refresh with permit := false } }
  | timer {d : ℕ} {armed : Bool} (hpc : s.pc = .select armed)
      (hdue : (armed = true ∧ s.nextRefresh ≤ s.now) ∨
        (n.hold ≠ 0 ∧ s.nextKeepalive ≤ s.now)) :
      Effect n acl s .tau { s with pc := .replan, now := s.now + d }
  | stop (hpc : s.pc = .replan ∨ ∃ armed, s.pc = .select armed) (hc : s.closed = true) :
      Effect n acl s .stop { s with pc := .ended }

variable {n : Negotiated} {acl : String} {s t : State} {a : Label} {d : ℕ} {o : Orders}

/-- A new plan is the diff of what was sent against the target. -/
theorem withPlan_spec {target replay : Prefixes} (h : s.withPlan n o target replay = some t) :
    ∃ plan : Plan, plan.Matches s.advertised (n.gate target) replay ∧
      t = { s with target, replay, plan } := by
  simp only [State.withPlan, Option.ite_none_right_eq_some, Option.some.injEq] at h
  obtain ⟨⟨hs, ht⟩, rfl⟩ := h
  exact ⟨_, Plan.new_matches hs ht, rfl⟩

theorem adopt_spec (h : s.adopt n acl d o = some t) :
    ∃ plan : Plan, plan.Matches s.advertised (n.gate (desired s.channel.value acl))
        (s.replay.filter (· ∈ desired s.channel.value acl)) ∧
      t = { s with
        channel := s.channel.mark
        lastReplan := s.now + d
        now := s.now + d
        target := desired s.channel.value acl
        replay := s.replay.filter (· ∈ desired s.channel.value acl)
        plan } :=
  withPlan_spec h

theorem advance_effect (h : s.advance n acl d o = some (a, t)) : Effect n acl s a t := by
  unfold State.advance at h
  split at h
  case h_1 hpc =>
    simp only [State.begin, Option.bind_eq_bind, Option.bind_eq_some_iff, Option.pure_def,
      Option.some.injEq, Prod.mk.injEq] at h
    obtain ⟨u, hu, rfl, rfl⟩ := h
    exact .begin hpc hu
  case h_2 hpc =>
    unfold State.replanSection at h
    split at h
    · rename_i hc
      cases h
      exact .stop (Or.inl hpc) hc
    · rename_i hopen
      split at h
      · rename_i hc
        simp only [Bool.and_eq_true, decide_eq_true_eq] at hc
        simp only [Option.bind_eq_bind, Option.bind_eq_some_iff, Option.pure_def,
          Option.some.injEq, Prod.mk.injEq] at h
        obtain ⟨u, hu, rfl, rfl⟩ := h
        exact .replan hpc (by simpa using hopen) hc.1 hc.2 hu
      · rename_i hc
        cases h
        refine .keep hpc (by simpa using hopen) ?_
        simpa using hc
  case h_3 hpc =>
    simp only [State.refreshSection] at h
    split at h
    · rename_i hc
      simp only [Option.bind_eq_bind, Option.bind_eq_some_iff, Option.pure_def,
        Option.some.injEq, Prod.mk.injEq] at h
      obtain ⟨u, hu, rfl, rfl⟩ := h
      exact .swap hpc hc.1 hc.2.1 hc.2.2 hu
    · rename_i hc
      cases h
      refine .noSwap hpc ?_
      intro he ht
      by_contra hf
      exact hc ⟨he, ht, hf⟩
  case h_4 hpc =>
    simp only [State.keepaliveSection, Option.some.injEq] at h
    split at h
    · rename_i hc
      cases h
      exact .keepalive hpc hc.1 hc.2
    · rename_i hc
      cases h
      refine .noKeepalive hpc ?_
      intro hh
      by_contra hlt
      exact hc ⟨hh, Nat.le_of_not_lt hlt⟩
  case h_5 hpc =>
    simp only [State.batchSection, Option.some.injEq] at h
    split at h
    · rename_i hn
      cases h
      exact .batch hpc hn
    · rename_i hn
      cases h
      exact .drained hpc hn
  case h_6 hpc =>
    cases h
    exact .eor4 hpc
  case h_7 hpc =>
    cases h
    exact .eor6 hpc
  case h_8 hpc =>
    cases h
    exact .arm hpc
  case h_9 => cases h
  case h_10 => cases h

theorem wake_effect {armed : Bool} {branch : Branch} (hpc : s.pc = .select armed)
    (h : s.wake n acl d o armed branch = some (a, t)) : Effect n acl s a t := by
  cases branch with
  | changed =>
    simp only [State.wake] at h
    split at h
    · rename_i hc
      simp only [Option.bind_eq_bind, Option.bind_eq_some_iff, Option.pure_def,
        Option.some.injEq, Prod.mk.injEq] at h
      obtain ⟨u, hu, rfl, rfl⟩ := h
      exact .changed hpc hc hu
    · split at h
      · rename_i hc
        cases h
        exact .stop (Or.inr ⟨armed, hpc⟩) hc
      · cases h
  | notified =>
    simp only [State.wake, Option.ite_none_right_eq_some] at h
    obtain ⟨hp, rfl, rfl⟩ := h
    exact .notified hpc hp
  | cooldown =>
    simp only [State.wake, Option.ite_none_right_eq_some] at h
    obtain ⟨hp, rfl, rfl⟩ := h
    exact .timer hpc (Or.inl (by simpa using hp))
  | keepalive =>
    simp only [State.wake, Option.ite_none_right_eq_some] at h
    obtain ⟨hp, rfl, rfl⟩ := h
    exact .timer hpc (Or.inr hp)

/-- Every step is one of the listed effects. -/
theorem Step.effect (h : Step n acl s a t) : Effect n acl s a t := by
  obtain ⟨m, h⟩ := h
  cases m with
  | publish e =>
    simp only [step, Option.ite_none_left_eq_some] at h
    obtain ⟨hc, rfl, rfl⟩ := h
    exact .publish (by simpa using hc)
  | request v6 =>
    simp only [step, Option.ite_none_left_eq_some] at h
    obtain ⟨hn, rfl, rfl⟩ := h
    exact .request (by simpa using hn)
  | notify =>
    simp only [step, Option.ite_none_right_eq_some] at h
    obtain ⟨hn, rfl, rfl⟩ := h
    exact .notify hn
  | tick d =>
    cases h
    exact .tick
  | close =>
    cases h
    exact .close
  | run d o => exact advance_effect h
  | wake branch d o =>
    simp only [step] at h
    split at h
    · rename_i hpc
      exact wake_effect hpc h
    · cases h

/-- The batch that is up can be sent. -/
theorem step_batch (n : Negotiated) (acl : String) {withdraw : Bool} {batch : List IpNet}
    (hpc : s.pc = .batch) (hn : s.plan.next.map Prod.fst = some (withdraw, batch)) :
    ∃ t, Step n acl s (.sent (.update withdraw batch)) t := by
  obtain ⟨⟨b, plan⟩, hn, rfl⟩ := Option.map_eq_some_iff.mp hn
  refine ⟨(s.batchSection 0).2, .run 0 ⟨[], []⟩, ?_⟩
  simp [step, State.advance, hpc, State.batchSection, hn]

end Transmit
end Ubgp
