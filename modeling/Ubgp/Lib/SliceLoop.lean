import Mathlib.Data.List.Basic

/-! Loops that consume a slice from the front: `while !b.is_empty() { …; b = &b[k..]; }`. -/
namespace SliceLoop

variable {α σ ε : Type*}

/-- How one round of the loop body ends: leave the loop, or go on with the rest of the slice. -/
inductive Control (α σ : Type*)
  | leave (s : σ)
  | next (s : σ) (rest : List α)

/-- The loop with a bound on its rounds. -/
def loopN (body : List α → σ → Except ε (Control α σ)) : ℕ → List α → σ → Except ε σ
  | _, [], s => .ok s
  | 0, _ :: _, s => .ok s
  | k + 1, a :: l, s =>
    match body (a :: l) s with
    | .error e => .error e
    | .ok (.leave s') => .ok s'
    | .ok (.next s' rest) => loopN body k rest s'

/-- The loop itself: a body that makes progress takes at most one round an element. -/
def loop (body : List α → σ → Except ε (Control α σ)) (b : List α) (s : σ) : Except ε σ :=
  loopN body b.length b s

/-- Every round that goes on consumes at least one element. -/
def Progress (body : List α → σ → Except ε (Control α σ)) : Prop :=
  ∀ b s s' rest, b ≠ [] → body b s = .ok (.next s' rest) → rest.length < b.length

variable {body : List α → σ → Except ε (Control α σ)} {b : List α} {s : σ}

/-- With progress the bound is never what ends the loop. -/
theorem loopN_eq (hp : Progress body) {k m : ℕ} (hk : b.length ≤ k) (hm : b.length ≤ m) :
    loopN body k b s = loopN body m b s := by
  induction k generalizing m b s with
  | zero =>
    obtain rfl : b = [] := List.length_eq_zero_iff.mp (by omega)
    cases m <;> rfl
  | succ k ih =>
    cases b with
    | nil => cases m <;> rfl
    | cons a l =>
      cases m with
      | zero => simp at hm
      | succ m =>
        simp only [loopN]
        cases hb : body (a :: l) s with
        | error e => rfl
        | ok c =>
          cases c with
          | leave s' => rfl
          | next s' rest =>
            have hlt := hp (a :: l) s s' rest (by simp) hb
            exact ih (by omega) (by omega)

@[simp] theorem loop_nil : loop body [] s = .ok s := rfl

/-- The loop unfolds one round at a time. -/
theorem loop_eq (hp : Progress body) (hb : b ≠ []) :
    loop body b s =
      match body b s with
      | .error e => .error e
      | .ok (.leave s') => .ok s'
      | .ok (.next s' rest) => loop body rest s' := by
  cases b with
  | nil => exact absurd rfl hb
  | cons a l =>
    cases hr : body (a :: l) s with
    | error e => simp only [loop, List.length_cons, loopN, hr]
    | ok c =>
      cases c with
      | leave s' => simp only [loop, List.length_cons, loopN, hr]
      | next s' rest =>
        have hlt := hp (a :: l) s s' rest hb hr
        simp only [loop, List.length_cons, loopN, hr]
        exact loopN_eq hp (by simp at hlt; omega) (Nat.le_refl _)

theorem loop_error (hp : Progress body) (hb : b ≠ []) {e : ε} (h : body b s = .error e) :
    loop body b s = .error e := by
  rw [loop_eq hp hb, h]

/-- An error no round ends with is not the loop's either. -/
theorem loop_ne_error (hp : Progress body) {e : ε} (h : ∀ b s, b ≠ [] → body b s ≠ .error e) :
    loop body b s ≠ .error e := by
  induction hk : b.length using Nat.strongRecOn generalizing b s with
  | _ k ih =>
    subst hk
    by_cases hb : b = []
    · subst hb
      simp
    · rw [loop_eq hp hb]
      have hbody := h b s hb
      split
      · rename_i e' he
        intro heq
        cases heq
        exact hbody he
      · simp
      · rename_i s' rest hr
        exact ih _ (hp b s s' rest hb hr) rfl

/-- An invariant of the rest of the slice and the state carries over to the loop's result. -/
theorem loop_invariant (hp : Progress body) {I : List α → σ → Prop} {Q : σ → Prop} {r : σ}
    (h : loop body b s = .ok r) (h₀ : I b s) (hnil : ∀ s, I [] s → Q s)
    (hleave : ∀ b s s', I b s → body b s = .ok (.leave s') → Q s')
    (hnext : ∀ b s s' rest, I b s → body b s = .ok (.next s' rest) → I rest s') : Q r := by
  induction hk : b.length using Nat.strongRecOn generalizing b s with
  | _ k ih =>
    subst hk
    by_cases hb : b = []
    · subst hb
      cases h
      exact hnil _ h₀
    · rw [loop_eq hp hb] at h
      split at h
      · cases h
      · rename_i s' hr
        cases h
        exact hleave b s r h₀ hr
      · rename_i s' rest hr
        exact ih _ (hp b s s' rest hb hr) h (hnext b s s' rest h₀ hr) rfl

end SliceLoop
