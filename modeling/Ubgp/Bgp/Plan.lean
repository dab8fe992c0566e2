import Ubgp.Lib.Reconcile
import Ubgp.Netlink.Exports

/-! Export plans: the diff against the sent routes and its batches (`bgp.rs`). -/
namespace Ubgp

structure Plan where
  withdrawals : List IpNet
  additions : List IpNet

/-- An order in which a hash set may be iterated. -/
structure Enumerates (l : List IpNet) (s : Prefixes) : Prop where
  nodup : l.Nodup
  mem : ∀ p, p ∈ l ↔ p ∈ s

instance (l : List IpNet) (s : Prefixes) : Decidable (Enumerates l s) :=
  decidable_of_iff (l.Nodup ∧ l.toFinset = s)
    ⟨fun h => ⟨h.1, fun p => by rw [← h.2, List.mem_toFinset]⟩,
      fun h => ⟨h.nodup, by ext p; rw [List.mem_toFinset, h.mem]⟩⟩

namespace Plan

/-- `sort_unstable_by_key(is_ipv6)`: IPv4 first. The order within a family is that of the
arbitrary iteration order, so any outcome of the unstable sort is covered. -/
def byFamily (l : List IpNet) : List IpNet := l.filter (·.isIpv4) ++ l.filter (·.isIpv6)

/-- Diff against sent routes, gate additions by negotiated family, and replay on refresh.
`sent` and `wanted` are the iteration orders of the two sets. -/
def new (advertised target : Prefixes) (n : Negotiated) (replay : Prefixes)
    (sent wanted : List IpNet) : Plan where
  withdrawals := byFamily (sent.filter (fun p => decide (p ∉ target) || !n.enabled p))
  additions := byFamily (wanted.filter
    (fun p => n.enabled p && (decide (p ∈ replay) || decide (p ∉ advertised))))

/-- The batch loop: pop while the batch has room and the front is of the same family. -/
def popBatch (v6 : Bool) : ℕ → List IpNet → List IpNet × List IpNet
  | 0, queue => ([], queue)
  | _ + 1, [] => ([], [])
  | k + 1, p :: queue =>
    if p.isIpv6 == v6 then
      let (batch, rest) := popBatch v6 k queue
      (p :: batch, rest)
    else ([], p :: queue)

/-- Take a bounded batch of one address family, draining withdrawals before additions; the flag
is true for withdrawals. -/
def next (plan : Plan) : Option ((Bool × List IpNet) × Plan) :=
  match plan.withdrawals with
  | p :: queue =>
    let (batch, rest) := popBatch p.isIpv6 maxUpdatePrefixes (p :: queue)
    some ((true, batch), { plan with withdrawals := rest })
  | [] =>
    match plan.additions with
    | p :: queue =>
      let (batch, rest) := popBatch p.isIpv6 maxUpdatePrefixes (p :: queue)
      some ((false, batch), { plan with additions := rest })
    | [] => none

theorem popBatch_append (v6 : Bool) (k : ℕ) (queue : List IpNet) :
    (popBatch v6 k queue).1 ++ (popBatch v6 k queue).2 = queue := by
  induction k generalizing queue with
  | zero => rfl
  | succ k ih =>
    cases queue with
    | nil => rfl
    | cons p queue =>
      simp only [popBatch]
      split
      · simpa using ih queue
      · rfl

theorem popBatch_family {v6 : Bool} {k : ℕ} {queue : List IpNet} :
    ∀ p ∈ (popBatch v6 k queue).1, p.isIpv6 = v6 := by
  induction k generalizing queue with
  | zero => simp [popBatch]
  | succ k ih =>
    cases queue with
    | nil => simp [popBatch]
    | cons q queue =>
      simp only [popBatch]
      split
      · rename_i hq
        intro p hp
        rcases List.mem_cons.mp hp with rfl | hp
        · exact beq_iff_eq.mp hq
        · exact ih p hp
      · simp

theorem popBatch_length (v6 : Bool) (k : ℕ) (queue : List IpNet) :
    (popBatch v6 k queue).1.length ≤ k := by
  induction k generalizing queue with
  | zero => simp [popBatch]
  | succ k ih =>
    cases queue with
    | nil => simp [popBatch]
    | cons q queue =>
      simp only [popBatch]
      split
      · simpa using ih queue
      · simp

/-- A batch as `update` expects it: nonempty, bounded and of one family. -/
structure Batch (v6 : Bool) (batch : List IpNet) : Prop where
  ne_nil : batch ≠ []
  bounded : batch.length ≤ maxUpdatePrefixes
  family : ∀ p ∈ batch, p.isIpv6 = v6

theorem popBatch_batch (p : IpNet) (queue : List IpNet) :
    Batch p.isIpv6 (popBatch p.isIpv6 maxUpdatePrefixes (p :: queue)).1 := by
  refine ⟨?_, popBatch_length _ _ _, popBatch_family⟩
  simp [maxUpdatePrefixes, popBatch]

theorem next_batch {plan plan' : Plan} {withdraw : Bool} {batch : List IpNet}
    (h : plan.next = some ((withdraw, batch), plan')) : ∃ v6, Batch v6 batch := by
  unfold next at h
  split at h
  · rename_i p queue hw
    cases h
    exact ⟨_, popBatch_batch p queue⟩
  · split at h
    · rename_i p queue ha
      cases h
      exact ⟨_, popBatch_batch p queue⟩
    · cases h

/-- What a batch is taken from, and what is left. -/
theorem next_cases {plan plan' : Plan} {withdraw : Bool} {batch : List IpNet}
    (h : plan.next = some ((withdraw, batch), plan')) :
    (withdraw = true ∧ plan.withdrawals = batch ++ plan'.withdrawals ∧
      plan'.additions = plan.additions) ∨
    (withdraw = false ∧ plan.withdrawals = [] ∧ plan'.withdrawals = [] ∧
      plan.additions = batch ++ plan'.additions) := by
  unfold next at h
  split at h
  · rename_i p queue hw
    simp only [Option.some.injEq, Prod.mk.injEq] at h
    obtain ⟨⟨rfl, rfl⟩, rfl⟩ := h
    exact Or.inl ⟨rfl, by rw [popBatch_append, hw], rfl⟩
  · rename_i hw
    split at h
    · rename_i p queue ha
      simp only [Option.some.injEq, Prod.mk.injEq] at h
      obtain ⟨⟨rfl, rfl⟩, rfl⟩ := h
      exact Or.inr ⟨rfl, hw, hw, by rw [popBatch_append, ha]⟩
    · cases h

theorem next_eq_none {plan : Plan} (h : plan.next = none) :
    plan.withdrawals = [] ∧ plan.additions = [] := by
  unfold next at h
  split at h
  · cases h
  · rename_i hw
    split at h
    · cases h
    · rename_i ha
      exact ⟨hw, ha⟩

/-- The plan is the exact, duplicate-free diff of the three sets. -/
structure Matches (plan : Plan) (held wanted replay : Prefixes) : Prop where
  withdrawals : Enumerates plan.withdrawals (Reconcile.drops held wanted)
  additions : Enumerates plan.additions (Reconcile.adds held wanted replay)

end Plan

/-- The target as far as the session's families allow it. -/
def Negotiated.gate (n : Negotiated) (target : Prefixes) : Prefixes :=
  target.filter (fun p => n.enabled p = true)

@[simp] theorem Negotiated.mem_gate {n : Negotiated} {target : Prefixes} {p : IpNet} :
    p ∈ n.gate target ↔ p ∈ target ∧ n.enabled p = true := by
  simp [Negotiated.gate]

namespace Plan
variable {plan plan' : Plan} {held wanted replay : Prefixes} {withdraw : Bool}
  {batch : List IpNet}

theorem mem_byFamily {l : List IpNet} {p : IpNet} : p ∈ byFamily l ↔ p ∈ l := by
  cases p <;> simp [byFamily, IpNet.isIpv4, IpNet.isIpv6]

theorem nodup_byFamily {l : List IpNet} (h : l.Nodup) : (byFamily l).Nodup := by
  refine List.nodup_append.mpr ⟨h.filter _, h.filter _, ?_⟩
  intro a ha b hb hab
  subst hab
  cases a <;> simp_all [IpNet.isIpv4, IpNet.isIpv6]

/-- A fresh plan is the diff. -/
theorem new_matches {advertised target replay : Prefixes} {n : Negotiated}
    {sent targeted : List IpNet} (hs : Enumerates sent advertised)
    (hw : Enumerates targeted target) :
    (new advertised target n replay sent targeted).Matches advertised (n.gate target) replay := by
  refine ⟨⟨nodup_byFamily (hs.nodup.filter _), ?_⟩, ⟨nodup_byFamily (hw.nodup.filter _), ?_⟩⟩
  · intro p
    simp only [new, mem_byFamily, List.mem_filter, hs.mem, Reconcile.mem_drops,
      Negotiated.mem_gate, Bool.or_eq_true, decide_eq_true_eq, Bool.not_eq_true', not_and,
      Bool.not_eq_true]
    tauto
  · intro p
    simp only [new, mem_byFamily, List.mem_filter, hw.mem, Reconcile.mem_adds,
      Negotiated.mem_gate, Bool.and_eq_true, Bool.or_eq_true, decide_eq_true_eq]
    tauto

theorem enumerates_append {l r : List IpNet} {s : Prefixes} (h : Enumerates (l ++ r) s) :
    Enumerates r (s \ l.toFinset) := by
  have hd := List.nodup_append.mp h.nodup
  refine ⟨hd.2.1, ?_⟩
  intro p
  rw [Finset.mem_sdiff, ← h.mem, List.mem_append, List.mem_toFinset]
  constructor
  · intro hp
    exact ⟨Or.inr hp, fun hl => hd.2.2 p hl p hp rfl⟩
  · rintro ⟨hl | hr, hn⟩
    · exact absurd hl hn
    · exact hr

theorem subset_of_enumerates_append {l r : List IpNet} {s : Prefixes}
    (h : Enumerates (l ++ r) s) : l.toFinset ⊆ s := by
  intro p hp
  exact (h.mem p).mp (List.mem_append_left _ (List.mem_toFinset.mp hp))

/-- A withdrawn batch is held and unwanted; an announced one is wanted, and then nothing held is
unwanted any more. -/
theorem Matches.batch_mem (h : plan.Matches held wanted replay)
    (hn : plan.next = some ((withdraw, batch), plan')) :
    (withdraw = true ∧ batch.toFinset ⊆ Reconcile.drops held wanted) ∨
    (withdraw = false ∧ batch.toFinset ⊆ Reconcile.adds held wanted replay ∧
      Reconcile.drops held wanted = ∅) := by
  obtain ⟨rfl, hw, -⟩ | ⟨rfl, hw, -, ha⟩ := next_cases hn
  · exact Or.inl ⟨rfl, subset_of_enumerates_append (hw ▸ h.withdrawals)⟩
  · refine Or.inr ⟨rfl, subset_of_enumerates_append (ha ▸ h.additions), ?_⟩
    ext p
    rw [← h.withdrawals.mem, hw]
    simp

/-- After a batch was written the rest of the plan is the diff of the updated sets. -/
theorem Matches.next (h : plan.Matches held wanted replay)
    (hn : plan.next = some ((withdraw, batch), plan')) :
    plan'.Matches (if withdraw then held \ batch.toFinset else held ∪ batch.toFinset) wanted
      (replay \ batch.toFinset) := by
  have hb := h.batch_mem hn
  obtain ⟨rfl, hw, ha⟩ | ⟨rfl, hw, hw', ha⟩ := next_cases hn
  · obtain ⟨-, hsub⟩ := hb.resolve_right (by simp)
    rw [if_pos rfl]
    refine ⟨?_, ?_⟩
    · rw [Reconcile.drops_sdiff]
      exact enumerates_append (hw ▸ h.withdrawals)
    · rw [Reconcile.adds_sdiff hsub, ha]
      exact h.additions
  · obtain ⟨-, hsub, -⟩ := hb.resolve_left (by simp)
    rw [if_neg (by simp)]
    refine ⟨?_, ?_⟩
    · rw [Reconcile.drops_union hsub, hw', ← hw]
      exact h.withdrawals
    · rw [Reconcile.adds_union]
      exact enumerates_append (ha ▸ h.additions)

/-- A drained plan leaves nothing to exchange. -/
theorem Matches.settled (h : plan.Matches held wanted replay) (hn : plan.next = none) :
    Reconcile.drops held wanted = ∅ ∧ Reconcile.adds held wanted replay = ∅ := by
  obtain ⟨hw, ha⟩ := next_eq_none hn
  constructor
  · ext p
    rw [← h.withdrawals.mem, hw]
    simp
  · ext p
    rw [← h.additions.mem, ha]
    simp

end Plan

/-- A session without timers that exports both families. -/
def dualSession : Negotiated := ⟨0xc0000202#32, 0, true, false, true, true⟩

end Ubgp
