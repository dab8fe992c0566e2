import Mathlib.Algebra.Order.Floor.Div
import Ubgp.Bgp.Plan

/-! The batches of a plan, from its first call of `next` to the one that returns `None`. -/
namespace Ubgp
namespace Plan

variable {v6 withdraw : Bool} {l r : List IpNet} {k : ℕ}

/-- The batches of at most `k` calls of `next`, and the plan they leave. -/
def takeBatches : ℕ → Plan → List (Bool × List IpNet) × Plan
  | 0, plan => ([], plan)
  | k + 1, plan =>
    match plan.next with
    | none => ([], plan)
    | some (batch, plan') => (batch :: (takeBatches k plan').1, (takeBatches k plan').2)

/-- The fullest batches of one queue: a batch never mixes families. -/
def batchCount (s : Prefixes) : ℕ :=
  (s.filter (fun p => p.isIpv4 = true)).card ⌈/⌉ maxUpdatePrefixes +
    (s.filter (fun p => p.isIpv6 = true)).card ⌈/⌉ maxUpdatePrefixes

/-- A queue does not start with this family. -/
def Turns (v6 : Bool) (queue : List IpNet) : Prop := ∀ p ∈ queue.head?, p.isIpv6 ≠ v6

/-- A batch takes what it can of the family at the front. -/
theorem popBatch_run (hl : ∀ p ∈ l, p.isIpv6 = v6) (hr : Turns v6 r) :
    popBatch v6 k (l ++ r) = (l.take k, l.drop k ++ r) := by
  induction k generalizing l with
  | zero => rfl
  | succ k ih =>
    cases l with
    | nil =>
      cases r with
      | nil => rfl
      | cons p r =>
        have hp := hr p rfl
        simp [popBatch, hp]
    | cons p l =>
      have hp : p.isIpv6 = v6 := hl p (by simp)
      have hrest := ih (fun q hq => hl q (List.mem_cons_of_mem _ hq))
      simp [popBatch, hp, hrest]

/-- The queue a batch is taken from starts with the family of its front. -/
theorem next_withdrawals {a : List IpNet} (hne : l ≠ []) (hl : ∀ p ∈ l, p.isIpv6 = v6)
    (hr : Turns v6 r) :
    next ⟨l ++ r, a⟩ =
      some ((true, l.take maxUpdatePrefixes), ⟨l.drop maxUpdatePrefixes ++ r, a⟩) := by
  obtain ⟨p, l, rfl⟩ := List.exists_cons_of_ne_nil hne
  have hp : p.isIpv6 = v6 := hl p (by simp)
  have hpop := popBatch_run (k := maxUpdatePrefixes) hl hr
  rw [List.cons_append] at hpop ⊢
  simp only [next, hp, hpop]

theorem next_additions (hne : l ≠ []) (hl : ∀ p ∈ l, p.isIpv6 = v6) (hr : Turns v6 r) :
    next ⟨[], l ++ r⟩ =
      some ((false, l.take maxUpdatePrefixes), ⟨[], l.drop maxUpdatePrefixes ++ r⟩) := by
  obtain ⟨p, l, rfl⟩ := List.exists_cons_of_ne_nil hne
  have hp : p.isIpv6 = v6 := hl p (by simp)
  have hpop := popBatch_run (k := maxUpdatePrefixes) hl hr
  rw [List.cons_append] at hpop ⊢
  simp only [next, hp, hpop]

/-- A list cut into as few batches of one family as possible, in order. -/
structure Cut (v6 : Bool) (l : List IpNet) (bs : List (List IpNet)) : Prop where
  flatten : bs.flatten = l
  length : bs.length = l.length ⌈/⌉ maxUpdatePrefixes
  batch : ∀ b ∈ bs, Batch v6 b

theorem Cut.nil : Cut v6 [] [] := ⟨rfl, rfl, by simp⟩

theorem Cut.cons {bs : List (List IpNet)} (hne : l ≠ []) (hl : ∀ p ∈ l, p.isIpv6 = v6)
    (h : Cut v6 (l.drop maxUpdatePrefixes) bs) : Cut v6 l (l.take maxUpdatePrefixes :: bs) := by
  have hpos := List.length_pos_iff.mpr hne
  refine ⟨?_, ?_, ?_⟩
  · rw [List.flatten_cons, h.flatten, List.take_append_drop]
  · rw [List.length_cons, h.length, List.length_drop]
    simp only [Nat.ceilDiv_eq_add_pred_div, maxUpdatePrefixes]
    omega
  · intro b hb
    rcases List.mem_cons.mp hb with rfl | hb
    · refine ⟨?_, List.length_take_le _ _, fun p hp => hl p (List.mem_of_mem_take hp)⟩
      intro hnil
      rcases List.take_eq_nil_iff.mp hnil with h₀ | h₀
      · simp [maxUpdatePrefixes] at h₀
      · exact hne h₀
    · exact h.batch b hb

/-- Calls that serve one family at the front of a queue cut it, then go on with the rest. -/
theorem takeBatches_run {f : List IpNet → Plan}
    (hnext : ∀ l, l ≠ [] → (∀ p ∈ l, p.isIpv6 = v6) → (f l).next =
      some ((withdraw, l.take maxUpdatePrefixes), f (l.drop maxUpdatePrefixes)))
    (hl : ∀ p ∈ l, p.isIpv6 = v6) :
    ∃ bs, Cut v6 l bs ∧ ∀ k, takeBatches (bs.length + k) (f l) =
      (bs.map (withdraw, ·) ++ (takeBatches k (f [])).1, (takeBatches k (f [])).2) := by
  induction hk : l.length using Nat.strongRecOn generalizing l with
  | _ m ih =>
    subst hk
    by_cases hne : l = []
    · subst hne
      refine ⟨[], .nil, ?_⟩
      intro k
      simp
    · have hdrop : (l.drop maxUpdatePrefixes).length < l.length := by
        have hpos := List.length_pos_iff.mpr hne
        rw [List.length_drop, maxUpdatePrefixes]
        omega
      obtain ⟨bs, hcut, hrun⟩ := ih _ hdrop (fun p hp => hl p (List.mem_of_mem_drop hp)) rfl
      refine ⟨_, hcut.cons hne hl, ?_⟩
      intro k
      rw [List.length_cons, Nat.add_right_comm]
      simp only [takeBatches, hnext l hne hl, hrun k, List.map_cons, List.cons_append]

theorem isIpv6_of_isIpv4 {p : IpNet} (h : p.isIpv4 = true) : p.isIpv6 = false := by
  cases p <;> simp_all [IpNet.isIpv4, IpNet.isIpv6]

/-- One queue of a new plan: the IPv4 batches, then the IPv6 batches, then what is left. -/
theorem takeBatches_byFamily {f : List IpNet → Plan} {s : Prefixes} (h : Enumerates l s)
    (hnext : ∀ v6 l r, l ≠ [] → (∀ p ∈ l, p.isIpv6 = v6) → Turns v6 r → (f (l ++ r)).next =
      some ((withdraw, l.take maxUpdatePrefixes), f (l.drop maxUpdatePrefixes ++ r))) :
    ∃ bs : List (List IpNet), bs.flatten = byFamily l ∧ bs.length = batchCount s ∧
      (∀ b ∈ bs, ∃ v6, Batch v6 b) ∧
      ∀ k, takeBatches (bs.length + k) (f (byFamily l)) =
        (bs.map (withdraw, ·) ++ (takeBatches k (f [])).1, (takeBatches k (f [])).2) := by
  have h4 : ∀ p ∈ l.filter (·.isIpv4), p.isIpv6 = false :=
    fun p hp => isIpv6_of_isIpv4 (List.mem_filter.mp hp).2
  have h6 : ∀ p ∈ l.filter (·.isIpv6), p.isIpv6 = true := fun p hp => (List.mem_filter.mp hp).2
  have hturn : Turns false (l.filter (·.isIpv6)) := by
    intro p hp
    simp [h6 p (List.mem_of_mem_head? hp)]
  obtain ⟨bs₄, hcut₄, hrun₄⟩ := takeBatches_run (f := fun m => f (m ++ l.filter (·.isIpv6)))
    (fun m hm hv => hnext false m _ hm hv hturn) h4
  obtain ⟨bs₆, hcut₆, hrun₆⟩ := takeBatches_run (f := f) (fun m hm hv => by
    simpa using hnext true m [] hm hv (fun p hp => by simp at hp)) h6
  refine ⟨bs₄ ++ bs₆, ?_, ?_, ?_, ?_⟩
  · rw [List.flatten_append, hcut₄.flatten, hcut₆.flatten, byFamily]
  · have hcard : ∀ f : IpNet → Bool,
        (l.filter f).length = (s.filter (fun p => f p = true)).card := by
      intro f
      rw [← List.toFinset_card_of_nodup (h.nodup.filter _)]
      congr 1
      ext p
      simp [h.mem]
    rw [List.length_append, hcut₄.length, hcut₆.length, batchCount, hcard, hcard]
  · intro b hb
    rcases List.mem_append.mp hb with hb | hb
    · exact ⟨_, hcut₄.batch b hb⟩
    · exact ⟨_, hcut₆.batch b hb⟩
  · intro k
    rw [List.length_append, Nat.add_assoc, byFamily, hrun₄, List.nil_append, hrun₆]
    simp

theorem enumerates_byFamily {s : Prefixes} (h : Enumerates l s) : Enumerates (byFamily l) s :=
  ⟨nodup_byFamily h.nodup, fun p => mem_byFamily.trans (h.mem p)⟩

/-- The members of `advertised` that are not both desired and enabled. -/
def withdrawn (advertised target : Prefixes) (n : Negotiated) : Prefixes :=
  advertised.filter (fun p => ¬ (p ∈ target ∧ n.enabled p = true))

/-- The desired and enabled prefixes that are to be replayed or were not advertised. -/
def added (advertised target : Prefixes) (n : Negotiated) (replay : Prefixes) : Prefixes :=
  target.filter (fun p => n.enabled p = true ∧ (p ∈ replay ∨ p ∉ advertised))

/-- Whatever the iteration orders, the calls of `next` on a new plan return every withdrawal once,
then every addition once, in the least number of batches, and then `None`. -/
theorem batches_of_new {advertised target : Prefixes} {sent targeted : List IpNet}
    (hs : Enumerates sent advertised) (ht : Enumerates targeted target) (n : Negotiated)
    (replay : Prefixes) :
    ∃ (ws as : List (List IpNet)) (rest : Plan),
      takeBatches (batchCount (withdrawn advertised target n) +
          batchCount (added advertised target n replay))
        (new advertised target n replay sent targeted) =
          (ws.map (true, ·) ++ as.map (false, ·), rest) ∧
      rest.next = none ∧
      ws.length = batchCount (withdrawn advertised target n) ∧
      as.length = batchCount (added advertised target n replay) ∧
      (∀ b ∈ ws ++ as, ∃ v6, Batch v6 b) ∧
      Enumerates ws.flatten (withdrawn advertised target n) ∧
      Enumerates as.flatten (added advertised target n replay) := by
  have hw : Enumerates (sent.filter (fun p => decide (p ∉ target) || !n.enabled p))
      (withdrawn advertised target n) := by
    refine ⟨hs.nodup.filter _, ?_⟩
    intro p
    simp [withdrawn, hs.mem, imp_iff_not_or]
  have ha : Enumerates (targeted.filter (fun p =>
      n.enabled p && (decide (p ∈ replay) || decide (p ∉ advertised))))
      (added advertised target n replay) := by
    refine ⟨ht.nodup.filter _, ?_⟩
    intro p
    simp [added, ht.mem]
  obtain ⟨ws, hwf, hwl, hwb, hwr⟩ := takeBatches_byFamily
    (f := fun m => ⟨m, (new advertised target n replay sent targeted).additions⟩) hw
    (fun _ _ _ hne hl hr => next_withdrawals hne hl hr)
  obtain ⟨as, haf, hal, hab, har⟩ := takeBatches_byFamily (f := fun m => ⟨[], m⟩) ha
    (fun _ _ _ hne hl hr => next_additions hne hl hr)
  refine ⟨ws, as, ⟨[], []⟩, ?_, rfl, hwl, hal, ?_, ?_, ?_⟩
  · have hrest := har 0
    rw [Nat.add_zero, takeBatches, List.append_nil] at hrest
    have hall := hwr as.length
    rw [← hwl, ← hal]
    refine hall.trans ?_
    change (_ ++ (takeBatches as.length ⟨[], byFamily _⟩).1,
      (takeBatches as.length ⟨[], byFamily _⟩).2) = _
    rw [hrest]
  · intro b hb
    rcases List.mem_append.mp hb with hb | hb
    · exact hwb b hb
    · exact hab b hb
  · rw [hwf]
    exact enumerates_byFamily hw
  · rw [haf]
    exact enumerates_byFamily ha

/-- One prefix leaves and one of the other family comes: a batch each, withdrawal first. -/
theorem example_batches : ∃ (ws as : List (List IpNet)) (rest : Plan),
    takeBatches 2
        (new {examplePrefix} {examplePrefix6} dualSession ∅ [examplePrefix] [examplePrefix6]) =
      (ws.map (true, ·) ++ as.map (false, ·), rest) ∧ rest.next = none ∧
    ws.length = 1 ∧ as.length = 1 ∧
    Enumerates ws.flatten {examplePrefix} ∧ Enumerates as.flatten {examplePrefix6} := by
  obtain ⟨ws, as, rest, hrun, hrest, hws, has, -, hw, ha⟩ :=
    batches_of_new (show Enumerates [examplePrefix] {examplePrefix} by decide)
      (show Enumerates [examplePrefix6] {examplePrefix6} by decide) dualSession ∅
  have hwithdrawn : withdrawn {examplePrefix} {examplePrefix6} dualSession = {examplePrefix} := by
    decide
  have hadded : added {examplePrefix} {examplePrefix6} dualSession ∅ = {examplePrefix6} := by
    decide
  rw [hwithdrawn] at hrun hws hw
  rw [hadded] at hrun has ha
  exact ⟨ws, as, rest, hrun, hrest, hws, has, hw, ha⟩

end Plan
end Ubgp
