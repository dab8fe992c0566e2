import Ubgp.Lib.SliceLoop

/-! Lists packed from self-delimiting entries, and loops that walk over them. -/

/-- A code whose entries can be split off the front of a list. -/
structure Delimited (α β : Type*) where
  encode : β → List α
  Valid : β → Prop
  head : List α → Option (β × List α)
  encode_ne_nil : ∀ x, encode x ≠ []
  head_eq_some : ∀ b x rest, head b = some (x, rest) ↔ Valid x ∧ b = encode x ++ rest

namespace Delimited
variable {α β : Type*} (c : Delimited α β) {b rest : List α} {x : β} {xs : List β}

def walkN : ℕ → List α → List β × List α
  | 0, b => ([], b)
  | k + 1, b =>
    match c.head b with
    | none => ([], b)
    | some (x, rest) => (x :: (walkN k rest).1, (walkN k rest).2)

/-- The entries at the front of a list, and the rest where no entry can be split off. -/
def walk (b : List α) : List β × List α := c.walkN b.length b

variable {c}

theorem length_lt_of_head (h : c.head b = some (x, rest)) : rest.length < b.length := by
  obtain ⟨-, rfl⟩ := (c.head_eq_some _ _ _).mp h
  have hpos := List.length_pos_iff.mpr (c.encode_ne_nil x)
  simp
  omega

theorem head_nil : c.head [] = none := by
  cases h : c.head [] with
  | none => rfl
  | some r => exact absurd (length_lt_of_head h) (by simp)

theorem walkN_eq {k m : ℕ} (hk : b.length ≤ k) (hm : b.length ≤ m) :
    c.walkN k b = c.walkN m b := by
  induction k generalizing m b with
  | zero =>
    obtain rfl : b = [] := List.length_eq_zero_iff.mp (by omega)
    cases m with
    | zero => rfl
    | succ m => simp only [walkN, head_nil]
  | succ k ih =>
    cases m with
    | zero =>
      obtain rfl : b = [] := List.length_eq_zero_iff.mp (by omega)
      simp only [walkN, head_nil]
    | succ m =>
      simp only [walkN]
      split
      · rfl
      · rename_i x rest h
        have hlt := length_lt_of_head h
        rw [ih (by omega) (m := m) (by omega)]

theorem walk_of_none (h : c.head b = none) : c.walk b = ([], b) := by
  cases b with
  | nil => rfl
  | cons a l => simp only [walk, List.length_cons, walkN, h]

theorem walk_of_some (h : c.head b = some (x, rest)) :
    c.walk b = (x :: (c.walk rest).1, (c.walk rest).2) := by
  have hlt := length_lt_of_head h
  have hstep : c.walkN (b.length - 1 + 1) b = (x :: (c.walk rest).1, (c.walk rest).2) := by
    simp only [walkN, h, walk]
    rw [walkN_eq (k := b.length - 1) (m := rest.length) (by omega) (Nat.le_refl _)]
  rw [walk, ← hstep, Nat.sub_add_cancel (by omega)]

/-- Induction along the entries of a list. -/
theorem walk_induction {P : List α → Prop} (hnone : ∀ b, c.head b = none → P b)
    (hsome : ∀ b x rest, c.head b = some (x, rest) → P rest → P b) (b : List α) : P b := by
  induction hk : b.length using Nat.strongRecOn generalizing b with
  | _ k ih =>
    subst hk
    cases h : c.head b with
    | none => exact hnone b h
    | some r => exact hsome b r.1 r.2 h (ih _ (length_lt_of_head h) r.2 rfl)

/-- No entry can be split off a proper initial part of an entry. -/
theorem head_cut {cut tail : List α} (hv : c.Valid x) (hx : c.encode x = cut ++ tail)
    (ht : tail ≠ []) : c.head cut = none := by
  cases h : c.head cut with
  | none => rfl
  | some r =>
    obtain ⟨y, rest⟩ := r
    obtain ⟨hy, rfl⟩ := (c.head_eq_some _ _ _).mp h
    have hwhole : c.head (c.encode x) = some (x, []) :=
      (c.head_eq_some _ _ _).mpr ⟨hv, (List.append_nil _).symm⟩
    have hpart : c.head (c.encode x) = some (y, rest ++ tail) :=
      (c.head_eq_some _ _ _).mpr ⟨hy, by rw [hx, List.append_assoc]⟩
    rw [hwhole, Option.some.injEq, Prod.mk.injEq] at hpart
    have htail := hpart.2.symm
    rw [List.append_eq_nil_iff] at htail
    exact absurd htail.2 ht

/-- A list is the encoding of its entries, followed by the rest. -/
theorem walk_sound (b : List α) : b = (c.walk b).1.flatMap c.encode ++ (c.walk b).2 ∧
    (∀ x ∈ (c.walk b).1, c.Valid x) ∧ c.head (c.walk b).2 = none := by
  induction b using walk_induction (c := c) with
  | hnone b h => simp [walk_of_none h, h]
  | hsome b x rest h ih =>
    obtain ⟨hv, hb⟩ := (c.head_eq_some _ _ _).mp h
    rw [walk_of_some h]
    refine ⟨?_, ?_, ih.2.2⟩
    · rw [List.flatMap_cons, List.append_assoc, ← ih.1, hb]
    · simpa using ⟨hv, ih.2.1⟩

/-- Walking over encoded entries finds exactly these. -/
theorem walk_encode (hv : ∀ x ∈ xs, c.Valid x) (hr : c.head rest = none) :
    c.walk (xs.flatMap c.encode ++ rest) = (xs, rest) := by
  induction xs with
  | nil => exact walk_of_none hr
  | cons x xs ih =>
    have hhead : c.head ((x :: xs).flatMap c.encode ++ rest) =
        some (x, xs.flatMap c.encode ++ rest) :=
      (c.head_eq_some _ _ _).mpr ⟨hv x (by simp), by simp⟩
    rw [walk_of_some hhead, ih (fun y hy => hv y (List.mem_cons_of_mem _ hy))]

theorem walk_flatMap (hv : ∀ x ∈ xs, c.Valid x) : c.walk (xs.flatMap c.encode) = (xs, []) := by
  have hwalk : c.walk (xs.flatMap c.encode ++ []) = (xs, []) := walk_encode hv head_nil
  rwa [List.append_nil] at hwalk

/-- Valid entries can be read back from their concatenation. -/
theorem flatMap_encode_injective {ys : List β} (hx : ∀ x ∈ xs, c.Valid x)
    (hy : ∀ y ∈ ys, c.Valid y) (h : xs.flatMap c.encode = ys.flatMap c.encode) : xs = ys := by
  have hxs := walk_flatMap hx
  have hys := walk_flatMap hy
  rw [h, hys, Prod.mk.injEq] at hxs
  exact hxs.1.symm

/-- The list is a concatenation of valid entries. -/
def Packed (c : Delimited α β) (b : List α) : Prop :=
  ∃ xs : List β, (∀ x ∈ xs, c.Valid x) ∧ b = xs.flatMap c.encode

theorem packed_iff : c.Packed b ↔ (c.walk b).2 = [] := by
  constructor
  · rintro ⟨xs, hv, rfl⟩
    rw [walk_flatMap hv]
  · intro h
    obtain ⟨hb, hv, -⟩ := c.walk_sound b
    rw [h, List.append_nil] at hb
    exact ⟨_, hv, hb⟩

theorem walk_eq_nil (h : c.Packed b) : (c.walk b).1 = [] ↔ b = [] := by
  have hrest := packed_iff.mp h
  obtain ⟨hb, -, -⟩ := c.walk_sound b
  rw [hrest, List.append_nil] at hb
  constructor
  · intro hnil
    rw [hb, hnil]
    rfl
  · rintro rfl
    rw [walk_of_none head_nil]

section Loop
open SliceLoop

variable {σ ε : Type*} {body : List α → σ → Except ε (Control α σ)} {f : σ → β → Except ε σ}
  {stop : List α → σ → Except ε σ} {s : σ}

/-- A body that takes an entry off the front makes progress. -/
theorem progress_of_head (stop : List α → σ → Except ε σ)
    (hnext : ∀ b s x rest, c.head b = some (x, rest) →
      body b s = (f s x).map (fun s' => Control.next s' rest))
    (hstop : ∀ b s, b ≠ [] → c.head b = none → body b s = (stop b s).map Control.leave) :
    Progress body := by
  intro b s s' rest hb h
  cases hh : c.head b with
  | none =>
    rw [hstop b s hb hh] at h
    cases hs : stop b s <;> simp [hs, Except.map] at h
  | some r =>
    rw [hnext b s r.1 r.2 hh] at h
    cases hs : f s r.1 with
    | error e => simp [hs, Except.map] at h
    | ok s₁ =>
      simp only [hs, Except.map, Except.ok.injEq, Control.next.injEq] at h
      rw [← h.2]
      exact length_lt_of_head hh

/-- A loop that handles the entry at the front and stops where there is none is a fold over the
walked entries. -/
theorem loop_walk (stop : List α → σ → Except ε σ)
    (hnext : ∀ b s x rest, c.head b = some (x, rest) →
      body b s = (f s x).map (fun s' => Control.next s' rest))
    (hstop : ∀ b s, b ≠ [] → c.head b = none → body b s = (stop b s).map Control.leave) :
    loop body b s = (c.walk b).1.foldlM f s >>= fun s' =>
      if (c.walk b).2 = [] then .ok s' else stop (c.walk b).2 s' := by
  have hp := progress_of_head stop hnext hstop
  induction b using walk_induction (c := c) generalizing s with
  | hnone b h =>
    rw [walk_of_none h]
    by_cases hb : b = []
    · subst hb
      rfl
    · rw [loop_eq hp hb, hstop b s hb h]
      cases hs : stop b s <;> simp [hb, hs, Except.map, bind, Except.bind, pure, Except.pure]
  | hsome b x rest h ih =>
    have hb : b ≠ [] := by
      rintro rfl
      rw [head_nil] at h
      cases h
    rw [loop_eq hp hb, hnext b s x rest h, walk_of_some h]
    cases hs : f s x with
    | error e => simp [hs, Except.map, bind, Except.bind]
    | ok s₁ => simpa [hs, Except.map, bind, Except.bind] using ih

/-- A loop that fails where no entry starts succeeds on packed lists only. -/
theorem loop_eq_ok (failure : List α → ε) {r : σ}
    (hnext : ∀ b s x rest, c.head b = some (x, rest) →
      body b s = (f s x).map (fun s' => Control.next s' rest))
    (hstop : ∀ b s, b ≠ [] → c.head b = none → body b s = .error (failure b)) :
    loop body b s = .ok r ↔
      ∃ xs : List β, (∀ x ∈ xs, c.Valid x) ∧ b = xs.flatMap c.encode ∧ xs.foldlM f s = .ok r := by
  have hwalk := loop_walk (b := b) (s := s) (fun b _ => .error (failure b)) hnext hstop
  rw [hwalk]
  constructor
  · intro h
    obtain ⟨hb, hv, -⟩ := c.walk_sound b
    cases hfold : (c.walk b).1.foldlM f s with
    | error e => simp [hfold, bind, Except.bind] at h
    | ok s' =>
      simp only [hfold, bind, Except.bind] at h
      split at h
      · rename_i hrest
        rw [hrest, List.append_nil] at hb
        exact ⟨_, hv, hb, hfold.trans h⟩
      · cases h
  · rintro ⟨xs, hv, rfl, hfold⟩
    have hxs := walk_flatMap hv
    simp [hxs, hfold, bind, Except.bind]

end Loop
end Delimited
