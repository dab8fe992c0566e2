import Ubgp.Bgp.Session
import Ubgp.Bgp.Sync
import Ubgp.Wire.Framing

/-! The receive half under polling (`receive` in `bgp.rs`): the hold timer is `timeout_at` around
`read_frame`, which returns a frame that is ready and looks at the clock only when none is.

A poll takes no time; times are in milliseconds. -/
namespace Ubgp
namespace Hold

/-- A poll of `read_frame` over these octets completes: the header is there and refused, or the
whole frame has arrived. -/
def ready (unread : Bytes) : Bool :=
  decide (19 ≤ unread.length) &&
    match checkHeader (unread.take 19) with
    | .ok (_, len) => decide (len ≤ unread.length)
    | .error _ => true

/-- One poll of `read_frame`, `none` while it is pending. -/
def pollFrame (unread : Bytes) (eof : Bool) : Option (Result ((UInt8 × Bytes) × Bytes)) :=
  if ready unread || eof then some (readFrame unread) else none

/-- What a poll of `receive` comes to. -/
inductive Outcome
  | waiting
  | handled (kind : UInt8) (body : Bytes)
  | failed
  | expired
deriving DecidableEq

/-- `receive` goes on after such a poll. -/
def Outcome.goesOn : Outcome → Bool
  | .waiting | .handled _ _ => true
  | .failed | .expired => false

inductive Label
  | arrived (bytes : Bytes)
  | eof
  | tick (d : ℕ)
  | broken
  | polled (now : ℕ) (outcome : Outcome)
deriving DecidableEq

/-- `unread` is what has arrived and was not returned as a frame. -/
structure State where
  now : ℕ
  unread : Bytes
  eof : Bool
  expires : ℕ
  ended : Option Fault

def holdMs (n : Negotiated) : ℕ := n.hold * 1000

/-- A session established at time `t`. -/
def init (n : Negotiated) (t : ℕ) : State := ⟨t, [], false, t + holdMs n, none⟩

/-- Octets arrive, the peer closes its direction, time passes, the read returns an I/O error, or
`receive` is polled. -/
inductive Move
  | arrive (bytes : Bytes)
  | close
  | tick (d : ℕ)
  | fail
  | poll

namespace State
variable (n : Negotiated) (s : State)

def finish (e : Fault) : State := { s with ended := some e }

/-- The message of a completed read. -/
def handle (kind : UInt8) (body rest : Bytes) : Outcome × State :=
  match Session.handle n kind body with
  | .ok r => (.handled kind body, { s with
      unread := rest
      expires := if r.reset then s.now + holdMs n else s.expires })
  | .error e => (.failed, { s with unread := rest }.finish e)

/-- A pending read, against the deadline. -/
def wait : Outcome × State :=
  if n.hold ≠ 0 ∧ s.expires ≤ s.now then
    (.expired, s.finish (.protocol ⟨4, 0, [], "hold timer expired"⟩))
  else (.waiting, s)

/-- One poll: a round of the loop up to its `yield_now`, or as far as the read gets. -/
def poll : Outcome × State :=
  match pollFrame s.unread s.eof with
  | some (.ok ((kind, body), rest)) => s.handle n kind body rest
  | some (.error e) => (.failed, s.finish e)
  | none => s.wait n

end State

def step (n : Negotiated) (s : State) : Move → Option (Label × State)
  | .arrive bytes =>
    if s.eof then none else some (.arrived bytes, { s with unread := s.unread ++ bytes })
  | .close => some (.eof, { s with eof := true })
  | .tick d => some (.tick d, { s with now := s.now + d })
  | .fail => if s.ended.isSome then none else some (.broken, s.finish (.other "read failed"))
  | .poll =>
    if s.ended.isSome then none
    else some (.polled s.now (s.poll n).1, (s.poll n).2)

def Step (n : Negotiated) (s : State) (a : Label) (t : State) : Prop :=
  ∃ m, step n s m = some (a, t)

/-! When the session was renewed, and when it should have ended. -/

/-- The time of a completely read KEEPALIVE or non-fatal UPDATE; a fatal one is not handled. -/
def Label.renewal : Label → Option ℕ
  | .polled now (.handled kind _) => if kind = KEEPALIVE ∨ kind = UPDATE then some now else none
  | _ => none

/-- The later of the start of the session and the last renewal. -/
def renewed (t₀ : ℕ) (xs : List Label) : ℕ := xs.foldl (fun t a => a.renewal.getD t) t₀

/-- `receive` goes on past no poll at which more than the hold time has elapsed. -/
def Enforced (n : Negotiated) (t₀ : ℕ) (xs : List Label) : Prop :=
  ∀ ys now r zs, xs = ys ++ .polled now r :: zs → r.goesOn = true →
    now ≤ renewed t₀ (ys ++ [.polled now r]) + holdMs n

/-- The frame at the front is a ROUTE-REFRESH that will be accepted. -/
def State.offersRefresh (n : Negotiated) (s : State) : Bool :=
  match pollFrame s.unread s.eof with
  | some (.ok ((kind, body), _)) => kind == ROUTE_REFRESH && (refreshFamily body n).toBool
  | _ => false

/-- A poll after the deadline does not find a ROUTE-REFRESH. -/
def Undisturbed (n : Negotiated) (s : State) : Label → Prop
  | .polled _ _ => s.expires < s.now → s.offersRefresh n = false
  | _ => True

instance (n : Negotiated) (s : State) : (a : Label) → Decidable (Undisturbed n s a)
  | .polled _ _ => inferInstanceAs (Decidable (s.expires < s.now → s.offersRefresh n = false))
  | .arrived _ | .eof | .tick _ | .broken => .isTrue trivial

variable {n : Negotiated} {s t : State} {a : Label} {xs : List Label} {t₀ : ℕ}

/-- A handled message renews the session, or is an accepted ROUTE-REFRESH. -/
theorem handle_reset {kind : UInt8} {body : Bytes} {r : Session.Handled}
    (h : Session.handle n kind body = .ok r) :
    (r.reset = true ∧ (kind = KEEPALIVE ∨ kind = UPDATE)) ∨
    (r.reset = false ∧ kind = ROUTE_REFRESH ∧ (refreshFamily body n).toBool = true) := by
  unfold Session.handle at h
  split at h
  · rename_i hk
    cases h
    exact Or.inl ⟨rfl, Or.inl hk⟩
  · split at h
    · rename_i hk
      refine Or.inl ⟨?_, Or.inr hk⟩
      simp only [bind_eq_ok] at h
      obtain ⟨action, -, h⟩ := h
      split at h
      · cases h
        rfl
      · simp only [bind_eq_ok] at h
        obtain ⟨-, -, -, -, h⟩ := h
        cases h
        rfl
    · split at h
      · rename_i hk
        simp only [bind_eq_ok] at h
        obtain ⟨family, hf, h⟩ := h
        cases h
        exact Or.inr ⟨rfl, hk, by rw [hf]; rfl⟩
      · cases h

theorem handle_refresh (n : Negotiated) (body : Bytes) : Session.handle n ROUTE_REFRESH body =
    (refreshFamily body n).map (fun family => ⟨family, false⟩) := by
  cases h : refreshFamily body n <;>
    simp [Session.handle, KEEPALIVE, UPDATE, ROUTE_REFRESH, h, bind, Except.bind, Except.map, pure,
      Except.pure]

/-- A poll after the deadline goes on without a renewal iff a ROUTE-REFRESH is at the front. -/
theorem poll_late (hh : n.hold ≠ 0) (hl : s.expires < s.now) :
    (s.poll n).1.goesOn = true ∧ (Label.polled s.now (s.poll n).1).renewal = none ↔
      s.offersRefresh n = true := by
  rcases hp : pollFrame s.unread s.eof with _ | e | ⟨⟨kind, body⟩, rest⟩
  · simp [State.poll, State.offersRefresh, hp, State.wait, hh, Nat.le_of_lt hl, Outcome.goesOn]
  · simp [State.poll, State.offersRefresh, hp, Outcome.goesOn]
  · simp only [State.poll, State.offersRefresh, hp]
    cases hr : Session.handle n kind body with
    | error e =>
      simp only [State.handle, hr, Outcome.goesOn, Bool.false_eq_true, false_and, false_iff]
      intro hoffer
      obtain ⟨hk, hf⟩ := Bool.and_eq_true_iff.mp hoffer
      rw [beq_iff_eq.mp hk, handle_refresh] at hr
      cases hfam : refreshFamily body n <;> simp [hfam, Except.map, Except.toBool] at hr hf
    | ok r =>
      simp only [State.handle, hr, Outcome.goesOn, Label.renewal]
      rcases handle_reset hr with ⟨-, hk⟩ | ⟨-, rfl, hf⟩
      · rcases hk with rfl | rfl <;> simp [KEEPALIVE, UPDATE, ROUTE_REFRESH]
      · simp [hf, KEEPALIVE, UPDATE, ROUTE_REFRESH]

/-- A step renews the deadline with the session and leaves it alone otherwise. -/
theorem expires_step (ha : Step n s a t) :
    t.expires = (a.renewal.map (· + holdMs n)).getD s.expires := by
  obtain ⟨m, h⟩ := ha
  cases m with
  | arrive bytes =>
    simp only [step, Option.ite_none_left_eq_some] at h
    obtain ⟨-, h⟩ := h
    cases h
    rfl
  | close =>
    cases h
    rfl
  | tick d =>
    cases h
    rfl
  | fail =>
    simp only [step, Option.ite_none_left_eq_some] at h
    obtain ⟨-, h⟩ := h
    cases h
    rfl
  | poll =>
    simp only [step, Option.ite_none_left_eq_some] at h
    obtain ⟨-, h⟩ := h
    cases h
    unfold State.poll
    split
    · rename_i kind body rest _
      cases hr : Session.handle n kind body with
      | error e =>
        simp only [State.handle, hr]
        rfl
      | ok r =>
        simp only [State.handle, hr, Label.renewal]
        rcases handle_reset hr with ⟨hreset, hk⟩ | ⟨hreset, rfl, -⟩
        · simp [hreset, hk]
        · simp [hreset, KEEPALIVE, UPDATE, ROUTE_REFRESH]
    · rfl
    · unfold State.wait
      split <;> rfl

theorem renewed_snoc (t₀ : ℕ) (xs : List Label) (a : Label) :
    renewed t₀ (xs ++ [a]) = a.renewal.getD (renewed t₀ xs) := by
  rw [renewed, List.foldl_append]
  rfl

/-- The deadline is the hold time after the last renewal. -/
theorem expires_snoc (h : s.expires = renewed t₀ xs + holdMs n) (ha : Step n s a t) :
    t.expires = renewed t₀ (xs ++ [a]) + holdMs n := by
  rw [expires_step ha, renewed_snoc]
  cases a.renewal with
  | none => exact h
  | some now => rfl

/-- What a poll is, seen from its label. -/
theorem polled_step {now : ℕ} {r : Outcome} (ha : Step n s (.polled now r) t) :
    now = s.now ∧ r = (s.poll n).1 := by
  obtain ⟨m, h⟩ := ha
  cases m with
  | poll =>
    simp only [step, Option.ite_none_left_eq_some] at h
    obtain ⟨-, h⟩ := h
    cases h
    exact ⟨rfl, rfl⟩
  | arrive bytes =>
    simp only [step, Option.ite_none_left_eq_some] at h
    obtain ⟨-, h⟩ := h
    cases h
  | fail =>
    simp only [step, Option.ite_none_left_eq_some] at h
    obtain ⟨-, h⟩ := h
    cases h
  | close | tick => cases h

/-- The last step of a history is in time. -/
def InTime (n : Negotiated) (t₀ : ℕ) (xs : List Label) (a : Label) : Prop :=
  ∀ now r, a = .polled now r → r.goesOn = true → now ≤ renewed t₀ (xs ++ [a]) + holdMs n

theorem enforced_snoc : Enforced n t₀ (xs ++ [a]) ↔ Enforced n t₀ xs ∧ InTime n t₀ xs a := by
  constructor
  · intro h
    refine ⟨?_, ?_⟩
    · intro ys now r zs hxs hr
      exact h ys now r (zs ++ [a]) (by rw [hxs]; simp) hr
    · rintro now r rfl hr
      exact h xs now r [] rfl hr
  · rintro ⟨hxs, ha⟩ ys now r zs heq hr
    rcases Lts.snoc_eq_append_cons heq with ⟨rfl, rfl, rfl⟩ | ⟨zs', rfl, hold⟩
    · exact ha now r rfl hr
    · exact hxs ys now r zs' hold hr

theorem renewal_now {now time : ℕ} {r : Outcome} (h : (Label.polled now r).renewal = some time) :
    time = now := by
  unfold Label.renewal at h
  split at h
  · rename_i heq
    cases heq
    simp only [Option.ite_none_right_eq_some, Option.some.injEq] at h
    exact h.2.symm
  · cases h

/-- A step is in time iff it is not disturbed. -/
theorem inTime_iff (hh : n.hold ≠ 0) (h : s.expires = renewed t₀ xs + holdMs n)
    (ha : Step n s a t) : InTime n t₀ xs a ↔ Undisturbed n s a := by
  cases a with
  | polled now r =>
    obtain ⟨rfl, rfl⟩ := polled_step ha
    constructor
    · intro hin hl
      by_contra hoffer
      obtain ⟨hgo, hnone⟩ := (poll_late hh hl).mpr (by simpa using hoffer)
      have hle := hin s.now _ rfl hgo
      rw [renewed_snoc, hnone] at hle
      exact absurd hl (by rw [h]; exact Nat.not_lt.mpr hle)
    · intro hun now r heq hgo
      cases heq
      rw [renewed_snoc]
      cases hren : (Label.polled s.now (s.poll n).1).renewal with
      | some time =>
        rw [renewal_now hren]
        exact Nat.le_add_right _ _
      | none =>
        rw [Option.getD_none, ← h]
        by_contra hl
        have hoffer := (poll_late hh (Nat.not_le.mp hl)).mp ⟨hgo, hren⟩
        rw [hun (Nat.not_le.mp hl)] at hoffer
        cases hoffer
  | arrived | eof | tick | broken =>
    refine ⟨fun _ => trivial, ?_⟩
    intro _ now r hb
    cases hb

/-- A run keeps the hold timer iff no poll after the deadline finds a ROUTE-REFRESH. -/
theorem hold_enforced_iff (hh : n.hold ≠ 0) (h : Lts.Trace (Step n) (init n t₀) xs s) :
    Enforced n t₀ xs ↔
      Lts.GuardedTrace (Step n) (fun _ s a => Undisturbed n s a) (init n t₀) xs s := by
  constructor
  · intro hen
    induction h with
    | refl => exact .refl
    | snoc htrace ha ih =>
      obtain ⟨hen, hin⟩ := enforced_snoc.mp hen
      have hexp := htrace.history (P := fun xs s => s.expires = renewed t₀ xs + holdMs n) rfl
        (fun _ _ _ _ hs ha => expires_snoc hs ha)
      exact .snoc (ih hen) ((inTime_iff hh hexp ha).mp hin) ha
  · intro hg
    have hrun := hg.history (P := fun xs s => s.expires = renewed t₀ xs + holdMs n ∧
      Enforced n t₀ xs) ⟨rfl, fun ys _ _ _ hnil => by simp at hnil⟩ ?_
    · exact hrun.2
    · rintro xs s a t ⟨hexp, hen⟩ hun ha
      exact ⟨expires_snoc hexp ha, enforced_snoc.mpr ⟨hen, (inTime_iff hh hexp ha).mpr hun⟩⟩

open Transmit (exampleSession)

def keepaliveFrame : Bytes := marker ++ [0, 19, 4]

/-- The request to refresh IPv4 unicast. -/
def refreshFrame : Bytes := marker ++ [0, 23, 5, 0, 1, 0, 1]

/-- A KEEPALIVE after a second, a ROUTE-REFRESH and part of a frame after two, then silence. -/
def silentMoves : List Move :=
  [.arrive keepaliveFrame, .tick 1000, .poll, .arrive (refreshFrame ++ marker), .tick 1000, .poll,
    .tick 2001, .poll]

/-- Every poll finds the next ROUTE-REFRESH. -/
def floodMoves : List Move :=
  [.arrive (refreshFrame ++ refreshFrame ++ refreshFrame ++ refreshFrame), .tick 1000, .poll,
    .tick 1000, .poll, .tick 1000, .poll, .tick 1000, .poll]

theorem silentMoves_exec :
    (Lts.execGuarded (step exampleSession) (fun _ s a => decide (Undisturbed exampleSession s a))
      silentMoves [] (init exampleSession 0)).map (fun r => r.1.getLast?) =
      some (some (.polled 4001 .expired)) := by
  decide +kernel

/-- What the flood has done before its last poll. -/
def floodHistory : List Label :=
  [.arrived (refreshFrame ++ refreshFrame ++ refreshFrame ++ refreshFrame),
    .tick 1000, .polled 1000 (.handled ROUTE_REFRESH [0, 1, 0, 1]),
    .tick 1000, .polled 2000 (.handled ROUTE_REFRESH [0, 1, 0, 1]),
    .tick 1000, .polled 3000 (.handled ROUTE_REFRESH [0, 1, 0, 1]), .tick 1000]

theorem floodMoves_exec :
    (Lts.exec (step exampleSession) floodMoves (init exampleSession 0)).map Prod.fst =
      some (floodHistory ++ [.polled 4000 (.handled ROUTE_REFRESH [0, 1, 0, 1])]) := by
  decide +kernel

theorem example_hold_enforced :
    ∃ xs s, Lts.Trace (Step exampleSession) (init exampleSession 0) xs s ∧
      xs.getLast? = some (.polled 4001 .expired) ∧ Enforced exampleSession 0 xs := by
  obtain ⟨⟨xs, s⟩, hr, hlast⟩ := Option.map_eq_some_iff.mp silentMoves_exec
  have hrun := Lts.execGuarded_trace .refl hr
  refine ⟨xs, s, hrun.trace, hlast, (hold_enforced_iff (by decide) hrun.trace).mpr ?_⟩
  exact hrun.mono (fun _ _ _ h => of_decide_eq_true h)

/-- Four seconds without a KEEPALIVE or an UPDATE, and the session goes on. -/
theorem flood_not_enforced :
    ¬ ∀ (n : Negotiated) (t₀ : ℕ) (xs : List Label) (s : State), n.hold ≠ 0 →
      Lts.Trace (Step n) (init n t₀) xs s → Enforced n t₀ xs := by
  intro hall
  obtain ⟨⟨xs, s⟩, hr, hxs⟩ := Option.map_eq_some_iff.mp floodMoves_exec
  have hen := hall exampleSession 0 xs s (by decide) (Lts.exec_trace hr)
  have hle := hen floodHistory 4000 _ [] hxs rfl
  exact absurd hle (by decide)

end Hold
end Ubgp
