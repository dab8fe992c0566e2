import Mathlib.Data.List.Basic

/-! Exact reads from a stream that arrives in fragments. -/
namespace Chunked

variable {α : Type*} {n : ℕ} {chunks rest : List (List α)} {b : List α}

/-- Fill a buffer of `n` elements: every read returns at most what is missing from the next
fragment, and a read that returns nothing is the end of the stream. -/
def fill (n : ℕ) : List (List α) → Option (List α) × List (List α)
  | [] => (if n = 0 then some [] else none, [])
  | x :: xs =>
    if n = 0 then (some [], x :: xs)
    else if x.length = 0 then (none, xs)
    else if n < x.length then (some (x.take n), x.drop n :: xs)
    else ((fill (n - x.length) xs).1.map (x ++ ·), (fill (n - x.length) xs).2)

/-- A stream without empty fragments. -/
def Proper (chunks : List (List α)) : Prop := ∀ x ∈ chunks, x ≠ []

theorem Proper.tail {x : List α} (h : Proper (x :: chunks)) : Proper chunks :=
  fun y hy => h y (List.mem_cons_of_mem _ hy)

/-- What is left after a read has no empty fragments either. -/
theorem proper_fill (h : Proper chunks) (n : ℕ) : Proper (fill n chunks).2 := by
  induction chunks generalizing n with
  | nil => exact h
  | cons x xs ih =>
    unfold fill
    split
    · exact h
    · split
      · exact h.tail
      · split
        · rename_i hlt
          intro y hy
          rcases List.mem_cons.mp hy with rfl | hy
          · intro hnil
            have hle := List.drop_eq_nil_iff.mp hnil
            omega
          · exact h.tail y hy
        · exact ih h.tail (n - x.length)

/-- A read succeeds iff the stream is long enough, whatever its fragments, and then splits it. -/
theorem fill_eq (h : Proper chunks) (n : ℕ) :
    (n ≤ chunks.flatten.length ∧ (fill n chunks).1 = some (chunks.flatten.take n) ∧
        (fill n chunks).2.flatten = chunks.flatten.drop n) ∨
      (chunks.flatten.length < n ∧ (fill n chunks).1 = none) := by
  induction chunks generalizing n with
  | nil =>
    by_cases hn : n = 0
    · subst hn
      exact Or.inl ⟨by simp, by simp [fill], by simp [fill]⟩
    · exact Or.inr ⟨Nat.pos_of_ne_zero hn, by simp [fill, hn]⟩
  | cons x xs ih =>
    have hx : x.length ≠ 0 := by
      have hne := h x (by simp)
      rw [Ne, List.length_eq_zero_iff]
      exact hne
    rw [List.flatten_cons]
    unfold fill
    by_cases hn : n = 0
    · subst hn
      exact Or.inl ⟨by simp, by simp, by simp⟩
    · simp only [hn, hx, if_false]
      by_cases hlt : n < x.length
      · refine Or.inl ⟨by rw [List.length_append]; omega, ?_, ?_⟩
        · rw [if_pos hlt, List.take_append_of_le_length (by omega)]
        · rw [if_pos hlt, List.flatten_cons, List.drop_append_of_le_length (by omega)]
      · simp only [hlt, if_false]
        have htake : (x ++ xs.flatten).take n = x ++ xs.flatten.take (n - x.length) := by
          rw [List.take_append, List.take_of_length_le (by omega)]
        have hdrop : (x ++ xs.flatten).drop n = xs.flatten.drop (n - x.length) := by
          rw [List.drop_append, List.drop_eq_nil_of_le (by omega), List.nil_append]
        rcases ih h.tail (n - x.length) with ⟨hle, hsome, hrest⟩ | ⟨hlt', hnone⟩
        · refine Or.inl ⟨by rw [List.length_append]; omega, ?_, ?_⟩
          · rw [hsome, htake, Option.map_some]
          · rw [hrest, hdrop]
        · refine Or.inr ⟨by rw [List.length_append]; omega, ?_⟩
          rw [hnone, Option.map_none]

end Chunked
