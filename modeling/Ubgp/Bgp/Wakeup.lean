import Ubgp.Bgp.Session
import Ubgp.Bgp.Sync

/-! Refresh requests: none is dropped, and none is left pending behind a sleeping export loop. -/
namespace Ubgp

/-- The mask has the bit of a family. -/
def Families.has (f : Families) (v6 : Bool) : Bool := if v6 then f.v6 else f.v4

namespace Transmit

variable {n : Negotiated} {acl : String} {s t : State} {a : Label} {xs : List Label}
  {e : Exports} {t₀ : ℕ} {v6 : Bool} {f g : Families}

/-- Requests are those `receive` makes for a message it accepted. -/
def Received (n : Negotiated) : Label → Prop
  | .request v6 => ∃ kind body reset, Session.handle n kind body = .ok ⟨some v6, reset⟩
  | _ => True

/-- A run of the export loop beside `receive`. -/
def RequestedTrace (n : Negotiated) (acl : String) : State → List Label → State → Prop :=
  Lts.GuardedTrace (Step n acl) (fun _ _ a => Received n a)

/-- The end-of-RIB markers of all families of a cycle were sent. -/
def Marked (f : Families) (zs : List Label) : Prop :=
  ∀ v6, f.has v6 = true → .sent (.endOfRib v6) ∈ zs

/-! Masks. -/

theorem has_insert {w6 : Bool} (h : (f.insert v6).has w6 = true) : f.has w6 = true ∨ w6 = v6 := by
  cases v6 <;> cases w6 <;> simp_all [Families.insert, Families.has]

theorem has_mono_insert {w6 : Bool} (h : f.has w6 = true) : (f.insert v6).has w6 = true := by
  cases v6 <;> cases w6 <;> simp_all [Families.insert, Families.has]

theorem has_none : Families.none.has v6 = false := by
  cases v6 <;> rfl

theorem mask_eq_left (h : ∀ v6, f.has v6 = true → g.has v6 = true) : f.mask g = f := by
  have h4 := h false
  have h6 := h true
  obtain ⟨a, b⟩ := f
  simp only [Families.has, Bool.false_eq_true, if_false, if_true] at h4 h6
  cases a <;> cases b <;> simp_all [Families.mask]

theorem covers_eq_has (p : IpNet) : f.covers p = f.has p.isIpv6 := rfl

theorem enabled_eq_has (p : IpNet) : n.enabled p = n.families.has p.isIpv6 := by
  cases p <;>
    simp [Negotiated.enabled, Negotiated.families, Families.has, IpNet.isIpv6, IpNet.isIpv4]

/-- `receive` asks only for negotiated families. -/
theorem refreshFamily_has {b : Bytes} (h : refreshFamily b n = .ok (some v6)) :
    n.families.has v6 = true := by
  unfold refreshFamily at h
  split at h
  · obtain ⟨subtype, -, h⟩ := bind_eq_ok.mp h
    obtain ⟨safi, -, h⟩ := bind_eq_ok.mp h
    obtain ⟨afi, -, h⟩ := bind_eq_ok.mp h
    split at h
    · cases h
    · split at h
      · rename_i h4
        cases h
        exact h4.2
      · split at h
        · rename_i h6
          cases h
          exact h6.2
        · cases h
  · cases h

theorem handle_has {kind : UInt8} {body : Bytes} {reset : Bool}
    (h : Session.handle n kind body = .ok ⟨some v6, reset⟩) : n.families.has v6 = true := by
  unfold Session.handle at h
  split at h
  · cases h
  · split at h
    · obtain ⟨action, -, h⟩ := bind_eq_ok.mp h
      split at h
      · cases h
      · obtain ⟨nets, -, h⟩ := bind_eq_ok.mp h
        obtain ⟨packet, -, h⟩ := bind_eq_ok.mp h
        cases h
    · split at h
      · obtain ⟨r, hr, h⟩ := bind_eq_ok.mp h
        cases h
        exact refreshFamily_has hr
      · cases h

/-! The invariant. -/

/-- A cycle is marked before the next one starts, its replay set is within the enabled target, and
a parked loop with a request pending has something to wake it. -/
structure Served (n : Negotiated) (xs : List Label) (s : State) : Prop where
  start : s.pc = .start → ∀ g, .swap g ∉ xs
  pending : ∀ v6, s.refresh.pending.has v6 = true → n.families.has v6 = true
  replay : ∀ p ∈ s.replay, p ∈ s.target ∧ n.enabled p = true
  cycle : ∀ ys f zs, xs = ys ++ .swap f :: zs → Marked f zs ∨
    (f ≠ Families.none ∧ s.eor = f ∧ (s.pc = .eor6 → f.v4 = true → .sent (.endOfRib false) ∈ zs))
  arm : s.pc = .arm → s.eor = Families.none
  wake : ∀ armed, s.pc = .select armed → s.refresh.pending ≠ Families.none →
    s.refresh.permit = true ∨ armed = true ∨ s.refresh.notifying = true

theorem init_served : Served n [] (init e t₀) where
  start := fun _ g => List.not_mem_nil
  pending := fun v6 h => by simp [init, has_none] at h
  replay := fun p hp => by simp [init] at hp
  cycle := fun ys f zs h => by simp at h
  arm := fun h => by cases h
  wake := fun armed h => by cases h

theorem Marked.snoc {zs : List Label} (h : Marked f zs) (a : Label) : Marked f (zs ++ [a]) :=
  fun v6 hv => List.mem_append_left _ (h v6 hv)

/-- A step that is no swap and keeps what the cycle owes. -/
theorem Served.cycle_snoc (h : Served n xs s) (ha : ∀ g, a ≠ .swap g) (he : t.eor = s.eor)
    (hpc : t.pc = .eor6 → s.pc = .eor6) :
    ∀ ys f zs, xs ++ [a] = ys ++ .swap f :: zs → Marked f zs ∨ (f ≠ Families.none ∧ t.eor = f ∧
      (t.pc = .eor6 → f.v4 = true → .sent (.endOfRib false) ∈ zs)) := by
  intro ys f zs hx
  rcases Lts.snoc_eq_append_cons hx with ⟨-, rfl, -⟩ | ⟨zs', rfl, hx'⟩
  · exact absurd rfl (ha f)
  · rcases h.cycle ys f zs' hx' with hm | ⟨hf, heor, hfour⟩
    · exact Or.inl (hm.snoc a)
    · refine Or.inr ⟨hf, he.trans heor, ?_⟩
      intro hq hv
      exact List.mem_append_left _ (hfour (hpc hq) hv)

theorem Served.start_snoc (h : Served n xs s) (ha : ∀ g, a ≠ .swap g)
    (hs : t.pc = .start → s.pc = .start) : t.pc = .start → ∀ g, .swap g ∉ xs ++ [a] := by
  intro hq g hg
  rcases List.mem_append.mp hg with hg | hg
  · exact h.start (hs hq) g hg
  · exact ha g (List.mem_singleton.mp hg).symm

/-- A step that leaves the cycle and the requests alone. -/
theorem Served.moved (h : Served n xs s) (ha : ∀ g, a ≠ .swap g)
    (hp : t.refresh.pending = s.refresh.pending) (hr : t.replay = s.replay)
    (ht : t.target = s.target) (he : t.eor = s.eor) (hs : t.pc = .start → s.pc = .start)
    (hpc : t.pc = .eor6 → s.pc = .eor6) (harm : t.pc = .arm → s.pc = .arm)
    (hw : ∀ armed, t.pc = .select armed → s.refresh.pending ≠ Families.none →
      t.refresh.permit = true ∨ armed = true ∨ t.refresh.notifying = true) :
    Served n (xs ++ [a]) t where
  start := h.start_snoc ha hs
  pending := by
    rw [hp]
    exact h.pending
  replay := by
    rw [hr, ht]
    exact h.replay
  cycle := h.cycle_snoc ha he hpc
  arm := by
    intro hq
    rw [he]
    exact h.arm (harm hq)
  wake := by
    rw [hp]
    exact hw

theorem Served.adopt {d : ℕ} {o : Orders} (h : Served n xs s) (ht : s.adopt n acl d o = some t) :
    (∀ p ∈ t.replay, p ∈ t.target ∧ n.enabled p = true) ∧ t.refresh = s.refresh ∧
      t.eor = s.eor := by
  obtain ⟨plan, -, rfl⟩ := adopt_spec ht
  refine ⟨?_, rfl, rfl⟩
  intro p hp
  obtain ⟨hold, hnew⟩ := Finset.mem_filter.mp hp
  exact ⟨hnew, (h.replay p hold).2⟩

/-- A swap finds every earlier cycle marked. -/
theorem Served.marked (h : Served n xs s) (heor : s.eor = Families.none) {ys zs : List Label}
    (hx : xs = ys ++ .swap f :: zs) : Marked f zs := by
  rcases h.cycle ys f zs hx with hm | ⟨hf, he, -⟩
  · exact hm
  · exact absurd (he.symm.trans heor) hf

theorem Served.swap {d : ℕ} {o : Orders} (h : Served n xs s)
    (heor : s.eor = Families.none) (hf : s.refresh.pending ≠ Families.none)
    (ht : s.withPlan n o s.target
      (s.target.filter (fun p => s.refresh.pending.covers p = true)) = some t) :
    Served n (xs ++ [.swap s.refresh.pending]) { t with
      pc := .keepalive
      refresh := { s.refresh with pending := Families.none }
      now := s.now + d
      eor := s.refresh.pending.mask n.families
      nextRefresh := s.now + d + refreshMs } := by
  obtain ⟨plan, -, rfl⟩ := withPlan_spec ht
  refine ⟨(fun hq => by cases hq), ?_, ?_, ?_, (fun hq => by cases hq),
    fun armed hq => by cases hq⟩
  · intro v6 hv
    simp [has_none] at hv
  · intro p hp
    obtain ⟨htarget, hcov⟩ := Finset.mem_filter.mp hp
    refine ⟨htarget, ?_⟩
    rw [enabled_eq_has]
    exact h.pending _ hcov
  · intro ys f zs hx
    rcases Lts.snoc_eq_append_cons hx with ⟨rfl, hfam, rfl⟩ | ⟨zs', rfl, hx'⟩
    · cases hfam
      exact Or.inr ⟨hf, mask_eq_left h.pending, fun hq => by cases hq⟩
    · exact Or.inl ((h.marked heor hx').snoc _)

/-- The first marker. -/
theorem Served.eor4 {d : ℕ} (h : Served n xs s) :
    Served n (xs ++ [if s.eor.v4 then .sent (.endOfRib false) else .tau])
      { s with pc := .eor6, now := s.now + d } := by
  refine ⟨(fun hq => by cases hq), h.pending, h.replay, ?_, (fun hq => by cases hq),
    fun armed hq => by cases hq⟩
  intro ys f zs hx
  rcases Lts.snoc_eq_append_cons hx with ⟨-, hb, -⟩ | ⟨zs', rfl, hx'⟩
  · split at hb <;> cases hb
  · rcases h.cycle ys f zs' hx' with hm | ⟨hf, heor, -⟩
    · exact Or.inl (hm.snoc _)
    · refine Or.inr ⟨hf, heor, ?_⟩
      intro _ hv
      rw [heor, if_pos hv]
      exact List.mem_append_right _ (List.mem_singleton.mpr rfl)

/-- The second marker ends the cycle. -/
theorem Served.eor6 {d : ℕ} (h : Served n xs s) (hpc : s.pc = .eor6) :
    Served n (xs ++ [if s.eor.v6 then .sent (.endOfRib true) else .tau])
      { s with pc := .arm, now := s.now + d, eor := Families.none } := by
  refine ⟨(fun hq => by cases hq), h.pending, h.replay, ?_, fun _ => rfl,
    fun armed hq => by cases hq⟩
  intro ys f zs hx
  rcases Lts.snoc_eq_append_cons hx with ⟨-, hb, -⟩ | ⟨zs', rfl, hx'⟩
  · split at hb <;> cases hb
  · rcases h.cycle ys f zs' hx' with hm | ⟨hf, heor, hfour⟩
    · exact Or.inl (hm.snoc _)
    · refine Or.inl ?_
      intro v6 hv
      cases v6 with
      | false => exact List.mem_append_left _ (hfour hpc hv)
      | true =>
        have hsix : s.eor.v6 = true := heor ▸ hv
        rw [if_pos hsix]
        exact List.mem_append_right _ (List.mem_singleton.mpr rfl)

theorem Served.step (h : Served n xs s) (hr : Received n a) (ha : Step n acl s a t) :
    Served n (xs ++ [a]) t := by
  cases ha.effect with
  | publish | tick | close =>
    exact h.moved (fun g hg => by cases hg) rfl rfl rfl rfl (fun hq => hq) (fun hq => hq)
      (fun hq => hq) h.wake
  | request =>
    obtain ⟨kind, body, reset, hh⟩ := hr
    refine ⟨h.start_snoc (fun g hg => by cases hg) (fun hq => hq), ?_, h.replay,
      h.cycle_snoc (fun g hg => by cases hg) rfl (fun hq => hq), h.arm, ?_⟩
    · intro w6 hw
      rcases has_insert hw with hold | rfl
      · exact h.pending w6 hold
      · exact handle_has hh
    · intro armed _ _
      exact Or.inr (Or.inr rfl)
  | notify =>
    refine h.moved (fun g hg => by cases hg) rfl rfl rfl rfl (fun hq => hq) (fun hq => hq)
      (fun hq => hq) ?_
    intro armed _ _
    exact Or.inl rfl
  | begin hpc ht =>
    obtain ⟨hreplay, hrefresh, -⟩ := h.adopt ht
    refine ⟨(fun hq => by cases hq), ?_, hreplay, ?_, (fun hq => by cases hq),
      fun armed hq => by cases hq⟩
    · rw [hrefresh]
      exact h.pending
    · intro ys f zs hx
      have hmem : Label.swap f ∈ xs := by
        rcases Lts.snoc_eq_append_cons hx with ⟨-, hb, -⟩ | ⟨zs', -, rfl⟩
        · cases hb
        · simp
      exact absurd hmem (h.start hpc f)
  | replan hpc _ _ _ ht | changed hpc _ ht =>
    obtain ⟨hreplay, hrefresh, heor⟩ := h.adopt ht
    refine ⟨(fun hq => by cases hq), ?_, hreplay,
      h.cycle_snoc (fun g hg => by cases hg) heor (fun hq => by cases hq),
      (fun hq => by cases hq), fun armed hq => by cases hq⟩
    rw [hrefresh]
    exact h.pending
  | keep hpc | noSwap hpc | keepalive hpc | noKeepalive hpc | drained hpc | notified hpc
  | timer hpc | stop hpc =>
    exact h.moved (fun g hg => by cases hg) rfl rfl rfl rfl (fun hq => by cases hq)
      (fun hq => by cases hq) (fun hq => by cases hq) (fun armed hq => by cases hq)
  | swap hpc heor _ hf ht => exact h.swap heor hf ht
  | @batch d withdraw batch plan hpc hn =>
    refine ⟨(fun hq => by cases hq), h.pending, ?_,
      h.cycle_snoc (fun g hg => by cases hg) rfl (fun hq => by cases hq),
      (fun hq => by cases hq), fun armed hq => by cases hq⟩
    intro p hp
    exact h.replay p (Finset.mem_sdiff.mp hp).1
  | eor4 hpc => exact h.eor4
  | eor6 hpc => exact h.eor6 hpc
  | arm hpc =>
    refine h.moved (fun g hg => by cases hg) rfl rfl rfl rfl (fun hq => by cases hq)
      (fun hq => by cases hq) (fun hq => by cases hq) ?_
    intro armed hq hp
    cases hq
    exact Or.inr (Or.inl (decide_eq_true ⟨h.arm hpc, hp⟩))

theorem Served.of_trace (h : RequestedTrace n acl (init e t₀) xs s) : Served n xs s :=
  h.history init_served (fun _ _ _ _ hs hr ha => hs.step hr ha)

/-! What clears a request, and what ends a cycle. -/

/-- Only a swap clears a bit, and it takes over everything the bit asks for. -/
theorem pending_cleared (hs : ∀ w6, s.refresh.pending.has w6 = true → n.families.has w6 = true)
    (ha : Step n acl s a t) (hold : s.refresh.pending.has v6 = true)
    (hnew : t.refresh.pending.has v6 = false) :
    a = .swap s.refresh.pending ∧ t.target = s.target ∧
      (∀ p ∈ t.target, p.isIpv6 = v6 → p ∈ t.replay) ∧ t.eor.has v6 = true := by
  have hkept : t.refresh.pending = s.refresh.pending → False := by
    intro he
    rw [he, hold] at hnew
    cases hnew
  cases ha.effect with
  | @request w6 _ =>
    have hmono : (s.refresh.pending.insert w6).has v6 = true := has_mono_insert hold
    exact absurd (hmono.symm.trans hnew) (by simp)
  | begin _ ht | replan _ _ _ _ ht | changed _ _ ht =>
    obtain ⟨plan, -, rfl⟩ := adopt_spec ht
    exact (hkept rfl).elim
  | swap hpc heor _ hf ht =>
    obtain ⟨plan, -, rfl⟩ := withPlan_spec ht
    refine ⟨rfl, rfl, ?_, ?_⟩
    · intro p hp hv
      refine Finset.mem_filter.mpr ⟨hp, ?_⟩
      rw [covers_eq_has, hv]
      exact hold
    · change (s.refresh.pending.mask n.families).has v6 = true
      rw [mask_eq_left hs]
      exact hold
  | _ => exact (hkept rfl).elim

/-- On a drained plan nothing is left to replay. -/
theorem Served.replay_empty (h : Served n xs s) (hsync : Synced n acl s)
    (hq : s.pc.quiet = true) : s.replay = ∅ := by
  obtain ⟨-, hadd⟩ := hsync.plan.settled (hsync.drained hq)
  refine Finset.eq_empty_of_forall_notMem ?_
  intro p hp
  obtain ⟨htarget, henabled⟩ := h.replay p hp
  have hgate : p ∈ n.gate s.target := Negotiated.mem_gate.mpr ⟨htarget, henabled⟩
  exact Reconcile.disjoint_replay_of_settled hadd hgate hp

theorem swap_eor (ha : Step n acl s (.swap g) t) : s.eor = Families.none := by
  generalize hb : Label.swap g = b at ha
  cases ha.effect with
  | swap _ heor => exact heor
  | eor4 | eor6 => split at hb <;> cases hb
  | _ => cases hb

theorem endOfRib_replay (ha : Step n acl s (.sent (.endOfRib v6)) t) : t.replay = s.replay := by
  generalize hb : Label.sent (.endOfRib v6) = b at ha
  cases ha.effect with
  | eor4 | eor6 => rfl
  | _ => cases hb

/-! Waking up. -/

/-- The steps that wake a parked loop without new input. -/
def Wakes : Label → Prop
  | .notify | .tick _ | .tau => True
  | _ => False

theorem wake_permit {armed : Bool} (n : Negotiated) (acl : String) (hpc : s.pc = .select armed)
    (hp : s.refresh.permit = true) : ∃ t, Step n acl s .tau t ∧ t.pc = .replan := by
  refine ⟨{ s with pc := .replan, now := s.now + 0, refresh := { s.refresh with permit := false } },
    ⟨.wake .notified 0 ⟨[], []⟩, ?_⟩, rfl⟩
  simp [step, hpc, State.wake, hp]

/-- A parked loop with a permit, an armed timer or a notification on its way goes round without
any further input. -/
theorem wakes_up {armed : Bool} (n : Negotiated) (acl : String) (hpc : s.pc = .select armed)
    (h : s.refresh.permit = true ∨ armed = true ∨ s.refresh.notifying = true) :
    ∃ ys t, (∀ a ∈ ys, Wakes a) ∧ Lts.Trace (Step n acl) s ys t ∧ t.pc = .replan := by
  rcases h with hp | rfl | hn
  · obtain ⟨t, ht, hq⟩ := wake_permit n acl hpc hp
    exact ⟨[] ++ [.tau], t, by simp [Wakes], .snoc .refl ht, hq⟩
  · have htick : Step n acl s (.tick s.nextRefresh) { s with now := s.now + s.nextRefresh } :=
      ⟨.tick s.nextRefresh, rfl⟩
    have hwake : Step n acl { s with now := s.now + s.nextRefresh } .tau
        { s with pc := .replan, now := s.now + s.nextRefresh + 0 } := by
      refine ⟨.wake .cooldown 0 ⟨[], []⟩, ?_⟩
      simp [step, hpc, State.wake]
    exact ⟨[] ++ [.tick s.nextRefresh] ++ [.tau], _, by simp [Wakes],
      .snoc (.snoc .refl htick) hwake, rfl⟩
  · have hnotify : Step n acl s .notify
        { s with refresh := { s.refresh with permit := true, notifying := false } } :=
      ⟨.notify, by simp [step, hn]⟩
    obtain ⟨t, ht, hq⟩ := wake_permit n acl (s := { s with
      refresh := { s.refresh with permit := true, notifying := false } }) hpc rfl
    exact ⟨[] ++ [.notify] ++ [.tau], t, by simp [Wakes], .snoc (.snoc .refl hnotify) ht, hq⟩

/-- No refresh request is lost. A pending bit is cleared only by a swap that replays its family and
owes its marker; the next swap comes after that marker, which leaves nothing to replay; and a loop
parked with a bit pending has a permit, an armed timer or a notification on its way, each of which
wakes it. -/
theorem refresh_never_lost (h : RequestedTrace n acl (init e t₀) xs s) :
    (∀ a t v6, Step n acl s a t → s.refresh.pending.has v6 = true →
      t.refresh.pending.has v6 = false →
        a = .swap s.refresh.pending ∧ t.target = s.target ∧
          (∀ p ∈ t.target, p.isIpv6 = v6 → p ∈ t.replay) ∧ t.eor.has v6 = true) ∧
    (∀ g t, Step n acl s (.swap g) t → ∀ ys f zs, xs = ys ++ .swap f :: zs → Marked f zs) ∧
    (∀ v6 t, Step n acl s (.sent (.endOfRib v6)) t → s.replay = ∅ ∧ t.replay = ∅) ∧
    ∀ armed, s.pc = .select armed → s.refresh.pending ≠ Families.none →
      (s.refresh.permit = true ∨ armed = true ∨ s.refresh.notifying = true) ∧
      ∃ ys t, (∀ a ∈ ys, Wakes a) ∧ Lts.Trace (Step n acl) s ys t ∧ t.pc = .replan := by
  have hserved := Served.of_trace h
  have hsync := Synced.of_trace h.trace
  refine ⟨?_, ?_, ?_, ?_⟩
  · intro a t v6 ha hold hnew
    exact pending_cleared hserved.pending ha hold hnew
  · intro g t ha ys f zs hx
    exact hserved.marked (swap_eor ha) hx
  · intro v6 t ha
    have hempty := hserved.replay_empty hsync (endOfRib_pc ha)
    exact ⟨hempty, (endOfRib_replay ha).trans hempty⟩
  · intro armed hpc hp
    have hwake := hserved.wake armed hpc hp
    exact ⟨hwake, wakes_up n acl hpc hwake⟩

/-- The only requests are for IPv4. -/
def asksV4 (_ : List Label) (_ : State) : Label → Bool
  | .request v6 => !v6
  | _ => true

theorem asksV4_received {ys : List Label} (h : asksV4 ys s a = true) :
    Received exampleSession a := by
  cases a with
  | request v6 =>
    obtain rfl : v6 = false := by simpa [asksV4] using h
    exact ⟨ROUTE_REFRESH, [0, 1, 0, 1], false, rfl⟩
  | _ => trivial

/-- A request arrives while the session of the example is parked, and is not notified yet. -/
theorem askedMoves_exec :
    (Lts.execGuarded (step exampleSession "edge") asksV4 (exampleMoves ++ [.request false]) []
        (init exampleExports 0)).map
      (fun r => (r.2.pc, r.2.refresh.pending, r.2.refresh.permit)) =
      some (.select false, ⟨true, false⟩, false) := by
  decide +kernel

theorem example_refresh_kept :
    ∃ xs s, RequestedTrace exampleSession "edge" (init exampleExports 0) xs s ∧
      s.pc = .select false ∧ s.refresh.permit = false ∧ s.refresh.notifying = true := by
  obtain ⟨⟨xs, s⟩, hr, he⟩ := Option.map_eq_some_iff.mp askedMoves_exec
  simp only [Prod.mk.injEq] at he
  obtain ⟨hpc, hpending, hpermit⟩ := he
  have hrun : RequestedTrace exampleSession "edge" (init exampleExports 0) xs s :=
    (Lts.execGuarded_trace .refl hr).mono (fun _ _ _ hc => asksV4_received hc)
  obtain ⟨-, -, -, hwake⟩ := refresh_never_lost hrun
  have hne : s.refresh.pending ≠ Families.none := by
    rw [hpending]
    decide
  rcases (hwake false hpc hne).1 with hp | ha | hn
  · rw [hpermit] at hp
    cases hp
  · cases ha
  · exact ⟨xs, s, hrun, hpc, hpermit, hn⟩

end Transmit
end Ubgp
