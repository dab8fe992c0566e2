import Mathlib.Data.Finset.Max
import Mathlib.Data.Set.Basic

/-! Longest match: the entry to choose among those that cover an element, for entries whose sets are
nested wherever they meet. -/
namespace Longest

variable {ι α : Type*} {S T : Set ι} {table : Finset ι} {cover : ι → Set α} {rank : ι → ℕ}
  {i j : ι} {a : α}

/-- Where two entries meet the one of greater rank is inside the other, and entries of the same rank
are one. -/
structure Laminar (S : Set ι) (cover : ι → Set α) (rank : ι → ℕ) : Prop where
  nested : ∀ {i j a}, i ∈ S → j ∈ S → a ∈ cover i → a ∈ cover j → rank i ≤ rank j →
    cover j ⊆ cover i
  apart : ∀ {i j a}, i ∈ S → j ∈ S → a ∈ cover i → a ∈ cover j → rank i = rank j → i = j

/-- The entry of greatest rank that covers an element. -/
structure Best (S : Set ι) (cover : ι → Set α) (rank : ι → ℕ) (a : α) (i : ι) : Prop where
  mem : i ∈ S
  covers : a ∈ cover i
  max : ∀ j ∈ S, a ∈ cover j → rank j ≤ rank i

theorem Laminar.mono (h : Laminar S cover rank) (hT : T ⊆ S) : Laminar T cover rank where
  nested := fun hi hj => h.nested (hT hi) (hT hj)
  apart := fun hi hj => h.apart (hT hi) (hT hj)

theorem Best.unique (h : Laminar S cover rank) (hi : Best S cover rank a i)
    (hj : Best S cover rank a j) : i = j :=
  h.apart hi.mem hj.mem hi.covers hj.covers
    (Nat.le_antisymm (hj.max i hi.mem hi.covers) (hi.max j hj.mem hj.covers))

/-- The longest match is the most specific one. -/
theorem Best.subset (h : Laminar S cover rank) (hi : Best S cover rank a i) (hj : j ∈ S)
    (ha : a ∈ cover j) : cover i ⊆ cover j :=
  h.nested hj hi.mem ha hi.covers (hi.max j hj ha)

/-- In a finite table an element that is covered has a longest match. -/
theorem exists_best (h : ∃ i ∈ table, a ∈ cover i) : ∃ i, Best (table : Set ι) cover rank a i := by
  classical
  obtain ⟨i, hi, ha⟩ := h
  have hne : (table.filter (fun j => a ∈ cover j)).Nonempty :=
    ⟨i, Finset.mem_filter.mpr ⟨hi, ha⟩⟩
  obtain ⟨j, hj, hmax⟩ := Finset.exists_max_image _ rank hne
  obtain ⟨hmem, hcovers⟩ := Finset.mem_filter.mp hj
  exact ⟨j, hmem, hcovers, fun k hk hak => hmax k (Finset.mem_filter.mpr ⟨hk, hak⟩)⟩

end Longest
