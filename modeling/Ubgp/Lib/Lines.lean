import Mathlib.Data.List.DropRight

/-! Places in a text that separators divide into lines, by line and column counted from one. -/
namespace Lines

variable {α : Type*} {sep : α → Bool} {text before after : List α}

/-- The last element that is picked, by its position from the front. -/
def rposition (pick : α → Bool) (l : List α) : Option ℕ :=
  (l.reverse.findIdx? pick).map (fun i => l.length - 1 - i)

/-- The part of the last line. -/
def lastLine (sep : α → Bool) (before : List α) : List α := before.rtakeWhile (fun x => !sep x)

/-- The line and the column behind a beginning of a text. -/
def place (sep : α → Bool) (before : List α) : ℕ × ℕ :=
  (before.countP sep + 1, (lastLine sep before).length + 1)

theorem lastLine_concat (before : List α) (x : α) :
    lastLine sep (before ++ [x]) = if sep x then [] else lastLine sep before ++ [x] := by
  unfold lastLine
  rw [List.rtakeWhile_concat]
  cases sep x <;> rfl

/-- The distance from the last separator is the column. -/
theorem rposition_column (before : List α) :
    (match rposition sep before with
      | none => before.length + 1
      | some n => before.length - n) = (lastLine sep before).length + 1 := by
  induction before using List.reverseRecOn with
  | nil => rfl
  | append_singleton before x ih =>
    rw [lastLine_concat]
    cases hx : sep x with
    | true => simp [rposition, hx, List.findIdx?_cons]
    | false =>
      unfold rposition at ih ⊢
      simp only [List.reverse_append, List.reverse_singleton, List.singleton_append,
        List.findIdx?_cons, hx, List.length_append, List.length_singleton]
      cases hfind : before.reverse.findIdx? sep with
      | none =>
        rw [hfind] at ih
        simpa using ih
      | some i =>
        rw [hfind] at ih
        have hcolumn : before.length - (before.length - 1 - i) = (lastLine sep before).length + 1 :=
          ih
        have hlt : i < before.length := by
          obtain ⟨h, -⟩ := List.findIdx?_eq_some_iff_getElem.mp hfind
          simpa using h
        change before.length + 1 - (before.length + 1 - 1 - (i + 1)) =
          (lastLine sep before ++ [x]).length + 1
        rw [List.length_append, List.length_singleton]
        omega

/-- Behind more text of the same line the column is further on by its length. -/
theorem lastLine_append (h : ∀ x ∈ after, sep x = false) :
    lastLine sep (before ++ after) = lastLine sep before ++ after := by
  induction after using List.reverseRecOn with
  | nil => simp
  | append_singleton after x ih =>
    rw [← List.append_assoc, lastLine_concat, h x (by simp),
      ih (fun y hy => h y (List.mem_append_left _ hy))]
    simp

/-- Two beginnings of one text that end at the same line and column are the same. -/
theorem place_injective {before' : List α} (hb : before <+: text) (hb' : before' <+: text)
    (h : place sep before = place sep before') : before = before' := by
  have key : ∀ {b b' : List α}, b <+: b' → place sep b = place sep b' → b = b' := by
    rintro b - ⟨after, rfl⟩ h
    obtain ⟨hline, hcolumn⟩ := Prod.ext_iff.mp h
    simp only [place, List.countP_append] at hline hcolumn
    have hnone : ∀ x ∈ after, sep x = false := by
      have hcount : after.countP sep = 0 := by omega
      simpa using List.countP_eq_zero.mp hcount
    rw [lastLine_append hnone, List.length_append] at hcolumn
    have hnil : after = [] := List.length_eq_zero_iff.mp (by omega)
    rw [hnil, List.append_nil]
  rcases List.prefix_or_prefix_of_prefix hb hb' with hp | hp
  · exact key hp h
  · exact (key hp h.symm).symm

/-- Where the separators are decides about lines and columns. -/
theorem place_map (sep : α → Bool) (before : List α) :
    place sep before = place id (before.map sep) := by
  have hlast : (lastLine sep before).length = (lastLine id (before.map sep)).length := by
    induction before using List.reverseRecOn with
    | nil => rfl
    | append_singleton before x ih =>
      rw [List.map_append, List.map_singleton, lastLine_concat, lastLine_concat]
      cases hx : sep x with
      | true => simp
      | false => simp [ih]
  have hcount : before.countP sep = (before.map sep).countP id := by
    rw [List.countP_map]
    rfl
  rw [place, place, hlast, hcount]

end Lines
