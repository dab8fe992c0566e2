import Mathlib.Data.Finset.Basic

/-! Reconciling a replica with a wanted set by batches of removals and additions.

`held` is what the replica holds, `wanted` what it should hold, and `replay` the members to be
added once more although they are held. -/
namespace Reconcile

variable {α : Type*} [DecidableEq α] {held wanted replay b : Finset α}

/-- What the replica must give up. -/
def drops (held wanted : Finset α) : Finset α := held \ wanted

/-- What the replica must be given. -/
def adds (held wanted replay : Finset α) : Finset α :=
  wanted.filter (fun p => p ∈ replay ∨ p ∉ held)

@[simp] theorem mem_drops {p : α} : p ∈ drops held wanted ↔ p ∈ held ∧ p ∉ wanted := by
  simp [drops]

@[simp] theorem mem_adds {p : α} :
    p ∈ adds held wanted replay ↔ p ∈ wanted ∧ (p ∈ replay ∨ p ∉ held) := by
  simp [adds]

/-- With nothing left to exchange the replica holds exactly the wanted set. -/
theorem eq_of_settled (hd : drops held wanted = ∅) (ha : adds held wanted replay = ∅) :
    held = wanted := by
  ext p
  constructor
  · intro hp
    by_contra hn
    have hmem : p ∈ drops held wanted := mem_drops.mpr ⟨hp, hn⟩
    simp [hd] at hmem
  · intro hp
    by_contra hn
    have hmem : p ∈ adds held wanted replay := mem_adds.mpr ⟨hp, Or.inr hn⟩
    simp [ha] at hmem

/-- Nothing left to add means nothing left to replay. -/
theorem disjoint_replay_of_settled (ha : adds held wanted replay = ∅) {p : α} (hp : p ∈ wanted) :
    p ∉ replay := by
  intro hr
  have hmem : p ∈ adds held wanted replay := mem_adds.mpr ⟨hp, Or.inl hr⟩
  simp [ha] at hmem

/-! A batch of removals. -/

theorem drops_sdiff : drops (held \ b) wanted = drops held wanted \ b := by
  ext p
  simp only [mem_drops, Finset.mem_sdiff]
  tauto

theorem adds_sdiff (h : b ⊆ drops held wanted) :
    adds (held \ b) wanted (replay \ b) = adds held wanted replay := by
  ext p
  have hb : p ∈ b → p ∉ wanted := fun hp => (mem_drops.mp (h hp)).2
  simp only [mem_adds, Finset.mem_sdiff]
  tauto

/-! A batch of additions. -/

theorem drops_union (h : b ⊆ adds held wanted replay) :
    drops (held ∪ b) wanted = drops held wanted := by
  ext p
  have hb : p ∈ b → p ∈ wanted := fun hp => (mem_adds.mp (h hp)).1
  simp only [mem_drops, Finset.mem_union]
  tauto

theorem adds_union : adds (held ∪ b) wanted (replay \ b) = adds held wanted replay \ b := by
  ext p
  simp only [mem_adds, Finset.mem_sdiff, Finset.mem_union]
  tauto

end Reconcile
