import Ubgp.Lib.SliceLoop

/-! Lists packed from entries that are padded to a boundary, where the last one may come without
its padding, and loops that walk over them. -/

/-- `Enc x e` says that `e` is an entry `x` without its padding. -/
inductive Aligned {α β : Type*} (align : ℕ → ℕ) (Enc : β → List α → Prop) :
    List α → List β → Prop
  | nil : Aligned align Enc [] []
  | last {x : β} {e : List α} (h : Enc x e) : Aligned align Enc e [x]
  | cons {x : β} {e pad rest : List α} {xs : List β} (h : Enc x e)
      (hp : e.length + pad.length = align e.length) (hr : Aligned align Enc rest xs) :
      Aligned align Enc (e ++ pad ++ rest) (x :: xs)

namespace Aligned
open SliceLoop

variable {α β σ ε : Type*} {align : ℕ → ℕ} {Enc : β → List α → Prop} {b : List α} {xs : List β}

/-- An entry of this length is at the front. -/
def Front (Enc : β → List α → Prop) (b : List α) (x : β) (len : ℕ) : Prop :=
  ∃ e rest, b = e ++ rest ∧ Enc x e ∧ len = e.length

/-- Behind an entry: leave at the end of the list, else go on behind the padding. -/
def after (align : ℕ → ℕ) (short : σ → ε) (b : List α) (len : ℕ) (s : σ) :
    Except ε (Control α σ) :=
  if len = b.length then .ok (.leave s)
  else if align len ≤ b.length then .ok (.next s (b.drop (align len)))
  else .error (short s)

/-- A loop body that handles the entry at the front and fails where there is none. -/
structure Walks (align : ℕ → ℕ) (Enc : β → List α → Prop)
    (body : List α → σ → Except ε (Control α σ)) (f : σ → β → Except ε σ) (short : σ → ε) :
    Prop where
  le_align : ∀ n, n ≤ align n
  ne_nil : ∀ x e, Enc x e → e ≠ []
  front : ∀ b s x len, Front Enc b x len → body b s =
    match f s x with
    | .error err => .error err
    | .ok s' => after align short b len s'
  stuck : ∀ b s, b ≠ [] → (¬ ∃ x len, Front Enc b x len) → ∃ e, body b s = .error e

theorem eq_nil (hne : ∀ x e, Enc x e → e ≠ []) (h : Aligned align Enc [] xs) : xs = [] := by
  generalize hb : ([] : List α) = b at h
  cases h with
  | nil => rfl
  | last h => exact absurd hb.symm (hne _ _ h)
  | cons h =>
    rw [eq_comm, List.append_eq_nil_iff, List.append_eq_nil_iff] at hb
    exact absurd hb.1.1 (hne _ _ h)

variable {body : List α → σ → Except ε (Control α σ)} {f : σ → β → Except ε σ} {short : σ → ε}
  {s r : σ}

theorem Walks.progress (h : Walks align Enc body f short) : Progress body := by
  intro b s s' rest hb hbody
  by_cases hfront : ∃ x len, Front Enc b x len
  · obtain ⟨x, len, hx⟩ := hfront
    rw [h.front b s x len hx] at hbody
    obtain ⟨e, tail, rfl, he, rfl⟩ := hx
    split at hbody
    · cases hbody
    · unfold after at hbody
      split at hbody
      · cases hbody
      · split at hbody
        · cases hbody
          have hpos := List.length_pos_iff.mpr (h.ne_nil x e he)
          have hle := h.le_align e.length
          rw [List.length_drop, List.length_append]
          omega
        · cases hbody
  · obtain ⟨err, herr⟩ := h.stuck b s hb hfront
    rw [herr] at hbody
    cases hbody

/-- An entry, its padding, and what is behind it. -/
theorem cons_drop {e rest : List α} {x : β} (he : Enc x e) (hge : e.length ≤ align e.length)
    (hle : align e.length ≤ (e ++ rest).length)
    (hr : Aligned align Enc ((e ++ rest).drop (align e.length)) xs) :
    Aligned align Enc (e ++ rest) (x :: xs) := by
  obtain ⟨k, hk⟩ := Nat.exists_eq_add_of_le hge
  have hpad : (rest.take k).length = k := by
    rw [List.length_take]
    rw [List.length_append] at hle
    omega
  have hsplit : e ++ rest = e ++ rest.take k ++ rest.drop k := by
    rw [List.append_assoc, List.take_append_drop]
  rw [hsplit]
  refine .cons he (by rw [hpad, hk]) ?_
  rwa [hk, List.drop_length_add_append] at hr

theorem foldlM_cons_eq_ok {x : β} :
    (x :: xs).foldlM f s = .ok r ↔ ∃ s', f s x = .ok s' ∧ xs.foldlM f s' = .ok r := by
  rw [List.foldlM_cons]
  cases f s x <;> simp [bind, Except.bind]

/-- One round over the entry at the front. -/
theorem Walks.loop_front (h : Walks align Enc body f short) {e rest : List α} {x : β}
    (he : Enc x e) : loop body (e ++ rest) s = .ok r ↔ ∃ s', f s x = .ok s' ∧
      ((rest = [] ∧ s' = r) ∨ (rest ≠ [] ∧ align e.length ≤ (e ++ rest).length ∧
        loop body ((e ++ rest).drop (align e.length)) s' = .ok r)) := by
  have hb : e ++ rest ≠ [] := by
    intro hnil
    exact h.ne_nil x e he (List.append_eq_nil_iff.mp hnil).1
  have hend : e.length = (e ++ rest).length ↔ rest = [] := by
    rw [List.length_append, ← List.length_eq_zero_iff]
    omega
  rw [loop_eq h.progress hb, h.front _ s x e.length ⟨e, rest, rfl, he, rfl⟩]
  cases hf : f s x with
  | error err => simp
  | ok s' =>
    simp only [after, hend, Except.ok.injEq, exists_eq_left']
    by_cases hr : rest = []
    · simp [hr]
    · by_cases hle : align e.length ≤ (e ++ rest).length
      · simp only [hr, hle, if_false, if_true, false_and, false_or, ne_eq, not_false_eq_true,
          true_and]
      · simp only [hr, hle, if_false, false_and, false_or, ne_eq, not_false_eq_true, and_false,
          reduceCtorEq]

/-- The loop succeeds exactly on padded lists, and folds over their entries. -/
theorem Walks.loop_eq_ok (h : Walks align Enc body f short) :
    loop body b s = .ok r ↔ ∃ xs, Aligned align Enc b xs ∧ xs.foldlM f s = .ok r := by
  constructor
  · intro hloop
    induction hk : b.length using Nat.strongRecOn generalizing b s with
    | _ k ih =>
      subst hk
      by_cases hb : b = []
      · subst hb
        exact ⟨[], .nil, hloop⟩
      · by_cases hfront : ∃ x len, Front Enc b x len
        · obtain ⟨x, len, e, rest, rfl, he, -⟩ := hfront
          obtain ⟨s', hf, ⟨rfl, rfl⟩ | ⟨-, hle, hrest⟩⟩ := (h.loop_front he).mp hloop
          · refine ⟨[x], ?_, foldlM_cons_eq_ok.mpr ⟨s', hf, rfl⟩⟩
            rw [List.append_nil]
            exact .last he
          · have hge := h.le_align e.length
            have hpos := List.length_pos_iff.mpr (h.ne_nil x e he)
            have hlt : ((e ++ rest).drop (align e.length)).length < (e ++ rest).length := by
              rw [List.length_drop]
              omega
            obtain ⟨xs, hal, hfold⟩ := ih _ hlt hrest rfl
            exact ⟨x :: xs, cons_drop he hge hle hal, foldlM_cons_eq_ok.mpr ⟨s', hf, hfold⟩⟩
        · obtain ⟨err, herr⟩ := h.stuck b s hb hfront
          rw [loop_error h.progress hb herr] at hloop
          cases hloop
  · rintro ⟨xs, hal, hfold⟩
    induction hal generalizing s with
    | nil => exact hfold
    | @last x e he =>
      obtain ⟨s', hf, hfold⟩ := foldlM_cons_eq_ok.mp hfold
      cases hfold
      rw [← List.append_nil e]
      exact (h.loop_front he).mpr ⟨r, hf, Or.inl ⟨rfl, rfl⟩⟩
    | @cons x e pad rest xs he hp hr ih =>
      obtain ⟨s', hf, hfold⟩ := foldlM_cons_eq_ok.mp hfold
      rw [List.append_assoc, h.loop_front he]
      refine ⟨s', hf, ?_⟩
      by_cases hend : pad ++ rest = []
      · obtain ⟨rfl, rfl⟩ := List.append_eq_nil_iff.mp hend
        rw [eq_nil h.ne_nil hr] at hfold
        cases hfold
        exact Or.inl ⟨rfl, rfl⟩
      · refine Or.inr ⟨hend, ?_, ?_⟩
        · rw [List.length_append, List.length_append, ← hp]
          omega
        · rw [← hp, ← List.append_assoc, ← List.length_append, List.drop_left]
          exact ih hfold

end Aligned
