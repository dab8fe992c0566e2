import Ubgp.Bgp.Sync

/-! Refresh cycles: what is announced again between the swap and the end-of-RIB marker. -/
namespace Ubgp
namespace Transmit

variable {n : Negotiated} {acl : String} {s t : State} {a : Label} {xs : List Label}
  {e : Exports} {t₀ : ℕ} {v6 : Bool}

def applyCycle (announced : Option Prefixes) : Label → Option Prefixes
  | .swap _ => some ∅
  | .sent (.update false batch) => announced.map (· ∪ batch.toFinset)
  | _ => announced

/-- What was announced since the last swap, if there was one. -/
def announcedSince (xs : List Label) : Option Prefixes := xs.foldl applyCycle none

/-- Every targeted prefix of the family was announced since the swap that started the cycle. -/
def Refreshed (xs : List Label) (s : State) (v6 : Bool) : Prop :=
  ∀ A, announcedSince xs = some A → ∀ p ∈ s.target, p.isIpv6 = v6 → p ∈ A

/-- The condition on a step: a snapshot adopted within a cycle that owes the family its marker
brings back no prefix of the family that the peer still holds and was not sent since the swap. -/
def bringsBackNone (acl : String) (v6 : Bool) (xs : List Label) (s : State) : Label → Bool
  | .adopt e =>
    match announcedSince xs with
    | some A => decide (∀ p ∈ desired e acl, p.isIpv6 = v6 →
        s.eor.covers p = true → p ∉ s.target → p ∈ s.advertised → p ∈ A)
    | none => true
  | _ => true

theorem announcedSince_snoc : announcedSince (xs ++ [a]) = applyCycle (announcedSince xs) a := by
  rw [announcedSince, announcedSince, List.foldl_append]
  rfl

theorem covers_mask {f g : Families} {p : IpNet} (h : (f.mask g).covers p = true) :
    f.covers p = true ∧ g.covers p = true := by
  cases p <;> simpa [Families.covers, Families.mask, IpNet.isIpv6] using h

theorem covers_families {p : IpNet} (h : n.families.covers p = true) : n.enabled p = true := by
  cases p <;>
    simpa [Families.covers, Negotiated.families, Negotiated.enabled, IpNet.isIpv6,
      IpNet.isIpv4] using h

theorem not_covers_none {p : IpNet} : Families.none.covers p = false := by
  cases p <;> rfl

/-- Within a cycle of the family every prefix of it was sent again, is queued for it, or is not
held by the peer. -/
structure Replaying (n : Negotiated) (v6 : Bool) (xs : List Label) (s : State) : Prop where
  start : s.pc = .start → announcedSince xs = none
  eor : ∀ p, s.eor.covers p = true → n.enabled p = true
  owed : ∀ A, announcedSince xs = some A → ∀ p ∈ s.target, p.isIpv6 = v6 →
    s.eor.covers p = true → p ∈ A ∨ p ∈ s.replay ∨ p ∉ s.advertised

theorem init_replaying : Replaying n v6 [] (init e t₀) where
  start := fun _ => rfl
  eor := fun p hp => by simp [init, not_covers_none] at hp
  owed := fun A hA => by cases hA

/-- A step that neither sends a batch nor plans keeps the debts. -/
theorem Replaying.moved (h : Replaying n v6 xs s) (ha : applyCycle (announcedSince xs) a =
    announcedSince xs) (hs : t.pc = .start → s.pc = .start) (ht : t.target = s.target)
    (hr : t.replay = s.replay) (hadv : t.advertised = s.advertised)
    (he : ∀ p, t.eor.covers p = true → s.eor.covers p = true) :
    Replaying n v6 (xs ++ [a]) t where
  start := fun hp => by rw [announcedSince_snoc, ha]; exact h.start (hs hp)
  eor := fun p hp => h.eor p (he p hp)
  owed := by
    rw [announcedSince_snoc, ha, ht, hr, hadv]
    exact fun A hA p hp hv hc => h.owed A hA p hp hv (he p hc)

theorem adopt_eor {d : ℕ} {o : Orders} (ht : s.adopt n acl d o = some t) : t.eor = s.eor := by
  obtain ⟨plan, -, rfl⟩ := adopt_spec ht
  rfl

/-- Adopting a snapshot that brings nothing back. -/
theorem Replaying.adopt {d : ℕ} {o : Orders} (h : Replaying n v6 xs s)
    (hg : bringsBackNone acl v6 xs s (.adopt s.channel.value) = true)
    (ht : s.adopt n acl d o = some t) {A : Prefixes} (hA : announcedSince xs = some A) {p : IpNet}
    (hp : p ∈ t.target) (hv : p.isIpv6 = v6) (hc : s.eor.covers p = true) :
    p ∈ A ∨ p ∈ t.replay ∨ p ∉ t.advertised := by
  obtain ⟨plan, -, rfl⟩ := adopt_spec ht
  simp only [bringsBackNone, hA, decide_eq_true_eq] at hg
  by_cases hold : p ∈ s.target
  · rcases h.owed A hA p hold hv hc with hpA | hpr | hpn
    · exact Or.inl hpA
    · exact Or.inr (Or.inl (Finset.mem_filter.mpr ⟨hpr, hp⟩))
    · exact Or.inr (Or.inr hpn)
  · by_cases hadv : p ∈ s.advertised
    · exact Or.inl (hg p hp hv hc hold hadv)
    · exact Or.inr (Or.inr hadv)

/-- A batch pays for what it announces, and withdraws nothing that is owed. -/
theorem Replaying.batch {d : ℕ} {withdraw : Bool} {batch : List IpNet} {plan : Plan}
    (h : Replaying n v6 xs s) (hsync : Synced n acl s)
    (hn : s.plan.next = some ((withdraw, batch), plan)) :
    Replaying n v6 (xs ++ [.sent (.update withdraw batch)])
      (s.afterBatch d withdraw batch plan) := by
  refine ⟨(fun hp => by cases hp), h.eor, ?_⟩
  intro A hA p hp hv hc
  rw [announcedSince_snoc] at hA
  rcases hsync.plan.batch_mem hn with ⟨rfl, hsub⟩ | ⟨rfl, -⟩
  · have hnot : p ∉ batch := by
      intro hb
      have hdrop := hsub (List.mem_toFinset.mpr hb)
      exact (Reconcile.mem_drops.mp hdrop).2 (Negotiated.mem_gate.mpr ⟨hp, h.eor p hc⟩)
    rcases h.owed A hA p hp hv hc with hpA | hpr | hpn
    · exact Or.inl hpA
    · exact Or.inr (Or.inl (by simp [State.afterBatch, hpr, hnot]))
    · exact Or.inr (Or.inr (by simp [State.afterBatch, hpn]))
  · obtain ⟨A, hA', rfl⟩ := Option.map_eq_some_iff.mp hA
    by_cases hb : p ∈ batch
    · exact Or.inl (by simp [hb])
    · rcases h.owed A hA' p hp hv hc with hpA | hpr | hpn
      · exact Or.inl (by simp [hpA])
      · exact Or.inr (Or.inl (by simp [State.afterBatch, hpr, hb]))
      · exact Or.inr (Or.inr (by simp [State.afterBatch, hpn, hb]))

theorem Replaying.step (h : Replaying n v6 xs s) (hsync : Synced n acl s)
    (hg : bringsBackNone acl v6 xs s a = true) (ha : Step n acl s a t) :
    Replaying n v6 (xs ++ [a]) t := by
  cases ha.effect with
  | publish | request | notify | tick | close =>
    exact h.moved rfl (fun hs => hs) rfl rfl rfl (fun _ hp => hp)
  | begin hpc ht =>
    refine ⟨(fun hs => by cases hs), fun p hp => covers_families hp, ?_⟩
    intro A hA
    rw [announcedSince_snoc] at hA
    simp [applyCycle, h.start hpc] at hA
  | replan hpc _ _ _ ht | changed hpc _ ht =>
    refine ⟨(fun hs => by cases hs), fun p hp => h.eor p (adopt_eor ht ▸ hp), ?_⟩
    intro A hA p hp hv hc
    rw [announcedSince_snoc] at hA
    exact h.adopt hg ht hA hp hv (adopt_eor ht ▸ hc)
  | swap hpc _ _ _ ht =>
    obtain ⟨plan, -, rfl⟩ := withPlan_spec ht
    refine ⟨(fun hs => by cases hs), fun p hp => covers_families (covers_mask hp).2, ?_⟩
    intro A hA p hp _ hc
    exact Or.inr (Or.inl (Finset.mem_filter.mpr ⟨hp, (covers_mask hc).1⟩))
  | keep hpc | noSwap hpc | keepalive hpc | noKeepalive hpc | drained hpc | arm hpc
  | notified hpc | timer hpc | stop hpc =>
    exact h.moved rfl (fun hs => by cases hs) rfl rfl rfl (fun _ hp => hp)
  | batch hpc hn => exact h.batch hsync hn
  | eor4 hpc =>
    refine h.moved ?_ (fun hs => by cases hs) rfl rfl rfl (fun _ hp => hp)
    split <;> rfl
  | eor6 hpc =>
    refine h.moved ?_ (fun hs => by cases hs) rfl rfl rfl (fun p hp => ?_)
    · split <;> rfl
    · simp [not_covers_none] at hp

/-- The marker of a family is sent only while the cycle owes it. -/
theorem endOfRib_covers (ha : Step n acl s (.sent (.endOfRib v6)) t) {p : IpNet}
    (hp : p.isIpv6 = v6) : s.eor.covers p = true := by
  generalize hb : Label.sent (.endOfRib v6) = b at ha
  cases ha.effect with
  | eor4 =>
    split at hb
    · cases hb
      simpa [Families.covers, hp] using ‹_›
    · cases hb
  | eor6 =>
    split at hb
    · cases hb
      simpa [Families.covers, hp] using ‹_›
    · cases hb
  | _ => cases hb

/-- In every run in which no snapshot brings back a held and unsent prefix of a family within its
cycle, each end-of-RIB marker of a refresh of the family closes a complete replay of it. -/
theorem refresh_complete
    (h : Lts.GuardedTrace (Step n acl) (fun xs s a => bringsBackNone acl v6 xs s a = true)
      (init e t₀) xs s) (ha : Step n acl s (.sent (.endOfRib v6)) t) : Refreshed xs s v6 := by
  have hsync := Synced.of_trace h.trace
  have hrun : Replaying n v6 xs s ∧ Synced n acl s := by
    refine h.history (P := fun xs s => Replaying n v6 xs s ∧ Synced n acl s)
      ⟨init_replaying, init_synced⟩ ?_
    intro xs s a t hs hg ha
    exact ⟨hs.1.step hs.2 hg ha, hs.2.step ha⟩
  intro A hA p hp hv
  have hc := endOfRib_covers ha hv
  have hgate : p ∈ n.gate s.target := Negotiated.mem_gate.mpr ⟨hp, hrun.1.eor p hc⟩
  obtain ⟨hd, hadd⟩ := hsync.plan.settled (hsync.drained (endOfRib_pc ha))
  rcases hrun.1.owed A hA p hp hv hc with hpA | hpr | hpn
  · exact hpA
  · exact absurd hpr (Reconcile.disjoint_replay_of_settled hadd hgate)
  · rw [hsync.settled (endOfRib_pc ha)] at hpn
    exact absurd hgate hpn

def dualExports : Exports := Finmap.singleton "edge" {examplePrefix, examplePrefix6}

def idle (k : ℕ) : List Move := List.replicate k (.run 0 ⟨[], []⟩)

/-- The dual-stack session exports both prefixes, parks, and is asked to refresh both families;
the first replayed batch has been written. -/
def refreshMoves : List Move :=
  .run 0 ⟨[], [examplePrefix, examplePrefix6]⟩ :: idle 15 ++
    [.request false, .notify, .request true, .notify, .wake .notified 0 ⟨[], []⟩,
      .run 0 ⟨[], []⟩,
      .run 0 ⟨[examplePrefix, examplePrefix6], [examplePrefix, examplePrefix6]⟩] ++ idle 2

/-- The session replays to the end. -/
def undisturbedMoves : List Move := refreshMoves ++ idle 9

/-- Within the cycle a snapshot drops both prefixes, and before the IPv6 withdrawal is written
another one brings the IPv6 prefix back. -/
def bounceMoves : List Move :=
  refreshMoves ++ [.publish ∅, .tick 100, .run 0 ⟨[examplePrefix, examplePrefix6], []⟩] ++
    idle 3 ++ [.publish (Finmap.singleton "edge" {examplePrefix6}), .tick 100,
      .run 0 ⟨[examplePrefix6], [examplePrefix6]⟩] ++ idle 4

theorem undisturbedMoves_exec :
    (Lts.execGuarded (step dualSession "edge") (bringsBackNone "edge" true) undisturbedMoves []
        (init dualExports 0)).map
      (fun r => (r.2.pc, r.2.eor.v6, r.2.target, announcedSince r.1)) =
      some (.eor6, true, {examplePrefix, examplePrefix6},
        some {examplePrefix, examplePrefix6}) := by
  decide +kernel

theorem bounceMoves_exec :
    (Lts.exec (step dualSession "edge") bounceMoves (init dualExports 0)).map
      (fun r => (r.2.pc, r.2.eor.v6, r.2.target, announcedSince r.1)) =
      some (.eor6, true, {examplePrefix6}, some {examplePrefix}) := by
  decide +kernel

theorem step_eor6 (n : Negotiated) (acl : String) (hpc : s.pc = .eor6) (he : s.eor.v6 = true) :
    ∃ t, Step n acl s (.sent (.endOfRib true)) t := by
  refine ⟨(s.eor6Section 0).2, .run 0 ⟨[], []⟩, ?_⟩
  simp [step, State.advance, hpc, State.eor6Section, he]

theorem example_refresh_complete :
    ∃ xs s t, Lts.Trace (Step dualSession "edge") (init dualExports 0) xs s ∧
      Step dualSession "edge" s (.sent (.endOfRib true)) t ∧
      s.target = {examplePrefix, examplePrefix6} ∧ (announcedSince xs).isSome = true ∧
      Refreshed xs s true := by
  obtain ⟨⟨xs, s⟩, hr, he⟩ := Option.map_eq_some_iff.mp undisturbedMoves_exec
  simp only [Prod.mk.injEq] at he
  obtain ⟨hpc, heor, htarget, hA⟩ := he
  obtain ⟨t, ht⟩ := step_eor6 dualSession "edge" hpc heor
  have hrun := Lts.execGuarded_trace .refl hr
  exact ⟨xs, s, t, hrun.trace, ht, htarget, by simp [hA], refresh_complete hrun ht⟩

/-- The prefix that bounced is held by the peer and never announced in the cycle. -/
theorem refresh_incomplete :
    ¬ ∀ (n : Negotiated) (acl : String) (e : Exports) (t₀ : ℕ) (xs : List Label) (s t : State)
      (v6 : Bool), Lts.Trace (Step n acl) (init e t₀) xs s →
        Step n acl s (.sent (.endOfRib v6)) t → Refreshed xs s v6 := by
  intro hall
  obtain ⟨⟨xs, s⟩, hr, he⟩ := Option.map_eq_some_iff.mp bounceMoves_exec
  simp only [Prod.mk.injEq] at he
  obtain ⟨hpc, heor, htarget, hA⟩ := he
  obtain ⟨t, ht⟩ := step_eor6 dualSession "edge" hpc heor
  have href := hall _ _ _ _ _ _ _ _ (Lts.exec_trace hr) ht _ hA examplePrefix6
    (by rw [htarget]; exact Finset.mem_singleton_self _) rfl
  exact absurd (Finset.mem_singleton.mp href) (by decide)

end Transmit
end Ubgp
