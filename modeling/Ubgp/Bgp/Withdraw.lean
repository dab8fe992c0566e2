import Ubgp.Bgp.Leak
import Ubgp.Bgp.Replay

/-! Withdrawals come before announcements, whatever replaces the plan in between. -/
namespace Ubgp
namespace Transmit

variable {n : Negotiated} {acl : String} {s t : State} {a : Label} {xs ys zs : List Label}
  {e : Exports} {t₀ : ℕ} {p : IpNet} {batch : List IpNet}

/-- While an announcement is sent nothing is held that is not targeted and enabled. -/
theorem announce_settled (h : Synced n acl s) (ha : Step n acl s (.sent (.update false batch)) t)
    (hp : p ∈ s.advertised) : p ∈ s.target ∧ n.enabled p = true := by
  obtain ⟨-, plan, hn⟩ := update_next ha
  obtain ⟨-, -, hdrops⟩ := (h.plan.batch_mem hn).resolve_left (by simp)
  by_contra hnot
  have hmem : p ∈ Reconcile.drops s.advertised (n.gate s.target) :=
    Reconcile.mem_drops.mpr ⟨hp, fun hg => hnot (Negotiated.mem_gate.mp hg)⟩
  rw [hdrops] at hmem
  exact absurd hmem (Finset.notMem_empty p)

/-- Only what is held is withdrawn. -/
theorem withdraw_held (h : Synced n acl s) (ha : Step n acl s (.sent (.update true batch)) t)
    (hp : p ∈ batch) : p ∈ s.advertised := by
  obtain ⟨-, plan, hn⟩ := update_next ha
  obtain ⟨-, hsub⟩ := (h.plan.batch_mem hn).resolve_right (by simp)
  exact (Reconcile.mem_drops.mp (hsub (List.mem_toFinset.mpr hp))).1

def Label.withdraws (p : IpNet) : Label → Bool
  | .sent (.update true b) => decide (p ∈ b)
  | _ => false

def Label.restores (acl : String) (p : IpNet) : Label → Bool
  | .adopt e => decide (p ∈ desired e acl)
  | _ => false

/-- A history withdraws a prefix. -/
def Withdrawn (p : IpNet) (xs : List Label) : Prop := ∃ a ∈ xs, a.withdraws p = true

/-- A snapshot adopted in this history has the prefix. -/
def Restored (acl : String) (p : IpNet) (xs : List Label) : Prop :=
  ∃ a ∈ xs, a.restores acl p = true

/-- A peer keeps what is not withdrawn. -/
theorem peerTable_keep (hp : p ∈ peerTable ys) (hz : ¬ Withdrawn p zs) :
    p ∈ peerTable (ys ++ zs) := by
  induction zs using List.reverseRecOn with
  | nil => rwa [List.append_nil]
  | append_singleton zs a ih =>
    have hkeep := ih (fun ⟨b, hb, hpb⟩ => hz ⟨b, List.mem_append_left _ hb, hpb⟩)
    have hstep : peerTable (ys ++ (zs ++ [a])) = applyBatch (peerTable (ys ++ zs)) a := by
      rw [← List.append_assoc, peerTable, List.foldl_append]
      rfl
    rw [hstep]
    unfold applyBatch
    split
    · rename_i b
      refine Finset.mem_sdiff.mpr ⟨hkeep, ?_⟩
      intro hpb
      exact hz ⟨_, List.mem_append_right _ (List.mem_singleton_self _),
        decide_eq_true (List.mem_toFinset.mp hpb)⟩
    · exact Finset.mem_union_left _ hkeep
    · exact hkeep

/-- The snapshot adopted last is a given one, or was adopted after it. -/
theorem lastAdopted_since {e₁ e₂ : Exports} (h : lastAdopted (ys ++ .adopt e₁ :: zs) = some e₂) :
    e₂ = e₁ ∨ .adopt e₂ ∈ zs := by
  induction zs using List.reverseRecOn with
  | nil =>
    rw [lastAdopted_snoc] at h
    cases h
    exact Or.inl rfl
  | append_singleton zs a ih =>
    rw [← List.cons_append, ← List.append_assoc, lastAdopted_snoc] at h
    unfold applyAdopt at h
    split at h
    · cases h
      exact Or.inr (by simp)
    · rcases ih h with rfl | hmem
      · exact Or.inl rfl
      · exact Or.inr (List.mem_append_left _ hmem)

/-- In every run: an announcement is sent only while everything held is targeted and enabled; what
a snapshot removed was then withdrawn, unless a later snapshot restored it; and only what the peer
holds is withdrawn. -/
theorem withdrawals_first (h : Lts.Trace (Step n acl) (init e t₀) xs s) :
    s.advertised = peerTable xs ∧
    (∀ batch t, Step n acl s (.sent (.update false batch)) t →
      (∀ p ∈ s.advertised, p ∈ s.target ∧ n.enabled p = true) ∧
      ∀ ys e₁ zs, xs = ys ++ .adopt e₁ :: zs → ∀ p ∈ peerTable ys, p ∉ desired e₁ acl →
        Withdrawn p zs ∨ Restored acl p zs) ∧
    ∀ batch t, Step n acl s (.sent (.update true batch)) t → ∀ p ∈ batch, p ∈ peerTable xs := by
  have hsync := Synced.of_trace h
  have htable := advertised_of_trace h
  refine ⟨htable, ?_, ?_⟩
  · intro batch t ha
    refine ⟨fun p hp => announce_settled hsync ha hp, ?_⟩
    intro ys e₁ zs hxs p hp hn
    by_cases hw : Withdrawn p zs
    · exact Or.inl hw
    · have hheld : p ∈ s.advertised := by
        have hkeep : p ∈ peerTable (ys ++ [.adopt e₁]) := by
          rwa [peerTable, List.foldl_append]
        rw [htable, hxs, List.append_cons]
        exact peerTable_keep hkeep hw
      obtain ⟨hpc, -⟩ := update_next ha
      obtain ⟨e₂, hlast, htarget⟩ := (target_of_trace h).resolve_left (by simp [hpc])
      have hp₂ : p ∈ desired e₂ acl := htarget ▸ (announce_settled hsync ha hheld).1
      rw [hxs] at hlast
      rcases lastAdopted_since hlast with rfl | hmem
      · exact absurd hp₂ hn
      · exact Or.inr ⟨_, hmem, decide_eq_true hp₂⟩
  · intro batch t ha p hp
    rw [← htable]
    exact withdraw_held hsync ha hp

/-- The session announces one prefix and parks. A snapshot without it wakes the session up, and
before the withdrawal is written a snapshot with two prefixes takes its place. -/
def restoreMoves : List Move :=
  .run 0 ⟨[], [examplePrefix]⟩ :: idle 11 ++
    [.publish ∅, .wake .changed 0 ⟨[examplePrefix], []⟩, .publish dualExports, .tick 100,
      .run 0 ⟨[examplePrefix], [examplePrefix, examplePrefix6]⟩] ++ idle 2

/-- The snapshot at this place of a history removes a held prefix, and nothing after it withdraws
the prefix. -/
def neverWithdrawn (p : IpNet) (k : ℕ) (xs : List Label) : Bool :=
  match xs.drop k with
  | .adopt e :: zs => decide (p ∈ peerTable (xs.take k)) && decide (p ∉ desired e "edge") &&
      zs.all (fun a => !a.withdraws p)
  | _ => false

theorem restoreMoves_exec :
    (Lts.exec (step dualSession "edge") restoreMoves (init exampleExports 0)).map
      (fun r => (r.2.pc, r.2.plan.next.map Prod.fst, peerTable r.1,
        neverWithdrawn examplePrefix 13 r.1)) =
      some (.batch, some (false, [examplePrefix6]), {examplePrefix}, true) := by
  decide +kernel

theorem example_withdrawals_first :
    ∃ xs s t, Lts.Trace (Step dualSession "edge") (init exampleExports 0) xs s ∧
      Step dualSession "edge" s (.sent (.update false [examplePrefix6])) t ∧
      peerTable xs = {examplePrefix} ∧ examplePrefix ∈ s.target := by
  obtain ⟨⟨xs, s⟩, hr, he⟩ := Option.map_eq_some_iff.mp restoreMoves_exec
  simp only [Prod.mk.injEq] at he
  obtain ⟨hpc, hnext, htable, -⟩ := he
  obtain ⟨t, ht⟩ := step_batch dualSession "edge" hpc hnext
  have htrace := Lts.exec_trace hr
  obtain ⟨hheld, hannounce, -⟩ := withdrawals_first htrace
  refine ⟨xs, s, t, htrace, ht, htable, ((hannounce _ t ht).1 examplePrefix ?_).1⟩
  rw [hheld, htable]
  exact Finset.mem_singleton_self _

/-- A removed prefix that a later snapshot has again is kept and never withdrawn. -/
theorem restored_not_withdrawn :
    ¬ ∀ (n : Negotiated) (acl : String) (e : Exports) (t₀ : ℕ) (xs : List Label) (s t : State)
      (batch : List IpNet), Lts.Trace (Step n acl) (init e t₀) xs s →
        Step n acl s (.sent (.update false batch)) t → ∀ ys e₁ zs, xs = ys ++ .adopt e₁ :: zs →
          ∀ p ∈ peerTable ys, p ∉ desired e₁ acl → Withdrawn p zs := by
  intro hall
  obtain ⟨⟨xs, s⟩, hr, he⟩ := Option.map_eq_some_iff.mp restoreMoves_exec
  simp only [Prod.mk.injEq] at he
  obtain ⟨hpc, hnext, -, hnever⟩ := he
  obtain ⟨t, ht⟩ := step_batch dualSession "edge" hpc hnext
  unfold neverWithdrawn at hnever
  split at hnever
  · rename_i e₁ zs hdrop
    simp only [Bool.and_eq_true, decide_eq_true_eq, List.all_eq_true, Bool.not_eq_true'] at hnever
    obtain ⟨⟨hheld, hgone⟩, hkept⟩ := hnever
    have hxs : xs = xs.take 13 ++ .adopt e₁ :: zs := by rw [← hdrop, List.take_append_drop]
    obtain ⟨a, ha, hw⟩ := hall _ _ _ _ xs s t _ (Lts.exec_trace hr) ht _ e₁ zs hxs _ hheld hgone
    rw [hkept a ha] at hw
    cases hw
  · cases hnever

end Transmit
end Ubgp
