import Mathlib.Order.Basic
import Mathlib.Order.Lattice
import Ubgp.Lib.Trace

/-! Rationed events: how often something can happen that waits for a deadline, which it moves on, or
for a credit. -/
namespace Lts

variable {σ α : Type*} {step : σ → α → σ → Prop} {clock ready : σ → ℕ} {event credit : α → Bool}
  {gap : ℕ} {Inv : σ → Prop} {s t u v : σ} {a b : α} {xs : List α}

/-- Under an invariant the clock never goes back, and an event happens only when it is ready and
makes the next one wait for the gap. A credit may make it ready at once; any other step makes it
ready no earlier, or after the gap. -/
structure Rationed (step : σ → α → σ → Prop) (clock ready : σ → ℕ) (event credit : α → Bool)
    (gap : ℕ) (Inv : σ → Prop) : Prop where
  keeps : ∀ {s a t}, Inv s → step s a t → Inv t
  clock_le : ∀ {s a t}, Inv s → step s a t → clock s ≤ clock t
  due : ∀ {s a t}, Inv s → step s a t → event a = true → ready s ≤ clock s
  waits : ∀ {s a t}, Inv s → step s a t → event a = true → clock s + gap ≤ ready t
  credits : ∀ {s a t}, Inv s → step s a t → credit a = true → clock s ≤ ready t
  others : ∀ {s a t}, Inv s → step s a t → event a = false → credit a = false →
    ready s ≤ ready t ∨ clock s + gap ≤ ready t

/-- What the events of a stretch have cost, from the base `b` on, is covered by the clock and one
gap, and by the clock or the time when the next one is ready; each credit covers another gap. -/
structure Covered (clock ready : σ → ℕ) (event credit : α → Bool) (gap b : ℕ) (xs : List α)
    (t : σ) : Prop where
  paid : b + gap * xs.countP event ≤ clock t + gap + gap * xs.countP credit
  next : b + gap * xs.countP event ≤ max (ready t) (clock t) + gap * xs.countP credit

theorem Rationed.invariant (hr : Rationed step clock ready event credit gap Inv)
    (h : Trace step s xs t) (h₀ : Inv s) : Inv t :=
  h.invariant h₀ (fun _ _ _ hs ha => hr.keeps hs ha)

theorem Rationed.clock_mono (hr : Rationed step clock ready event credit gap Inv)
    (h : Trace step s xs t) (h₀ : Inv s) : clock s ≤ clock t := by
  induction h with
  | refl => exact Nat.le_refl _
  | snoc h ha ih => exact ih.trans (hr.clock_le (hr.invariant h h₀) ha)

theorem Rationed.covered_step {c : ℕ} (hr : Rationed step clock ready event credit gap Inv)
    (hi : Inv t) (ha : step t a u) (h : Covered clock ready event credit gap c xs t) :
    Covered clock ready event credit gap c (xs ++ [a]) u := by
  have hclock := h.paid
  have hready := h.next
  have hmono := hr.clock_le hi ha
  have hcount : ∀ f : α → Bool, gap * (xs ++ [a]).countP f =
      gap * xs.countP f + if f a = true then gap else 0 := by
    intro f
    rw [List.countP_append, List.countP_singleton, Nat.mul_add]
    split <;> simp
  cases he : event a with
  | true =>
    have hdue := hr.due hi ha he
    have hnext := hr.waits hi ha he
    constructor <;> rw [hcount, hcount, if_pos he] <;> omega
  | false =>
    cases hc : credit a with
    | true =>
      have hnext := hr.credits hi ha hc
      constructor <;> rw [hcount, hcount, if_neg (by simp [he]), if_pos hc] <;> omega
    | false =>
      have hnext := hr.others hi ha he hc
      constructor <;>
        rw [hcount, hcount, if_neg (by simp [he]), if_neg (by simp [hc])] <;> omega

theorem Rationed.covered {c : ℕ} (hr : Rationed step clock ready event credit gap Inv)
    (h : Trace step s xs t) (h₀ : Inv s) (hc : c ≤ clock s + gap)
    (hs : c ≤ max (ready s) (clock s)) : Covered clock ready event credit gap c xs t := by
  induction h with
  | refl => exact ⟨by simpa using hc, by simpa using hs⟩
  | snoc h ha ih => exact hr.covered_step (hr.invariant h h₀) ha ih

/-- How many gaps were paid for, where the gap is not nothing. -/
theorem count_le_div {k c b e gap : ℕ} (hgap : 0 < gap) (hb : b ≤ e)
    (h : b + gap * k ≤ e + gap * c) : k ≤ (e - b) / gap + c := by
  rcases Nat.lt_or_ge c k with hlt | hle
  · obtain ⟨m, rfl⟩ : ∃ m, k = m + c := ⟨k - c, by omega⟩
    rw [Nat.mul_add] at h
    have hm : m ≤ (e - b) / gap := (Nat.le_div_iff_mul_le hgap).mpr (by rw [Nat.mul_comm]; omega)
    exact Nat.add_le_add_right hm c
  · exact hle.trans (Nat.le_add_left _ _)

/-- A stretch of a run has one event, another one for each gap that passes in it, and one for each
of its credits. -/
theorem Rationed.count_le (hr : Rationed step clock ready event credit gap Inv)
    (h : Trace step s xs t) (h₀ : Inv s) (hgap : 0 < gap) :
    xs.countP event ≤ (clock t - clock s) / gap + 1 + xs.countP credit := by
  have hpaid := (hr.covered h h₀ (Nat.le_add_right _ _) (Nat.le_max_right _ _)).paid
  have hcount : clock s + gap * xs.countP event ≤ clock t + gap * (1 + xs.countP credit) := by
    rw [Nat.mul_add, Nat.mul_one, ← Nat.add_assoc]
    exact hpaid
  rw [Nat.add_assoc]
  exact count_le_div hgap (hr.clock_mono h h₀) hcount

/-- The same without the first one, where the next event is a gap away. -/
theorem Rationed.count_le_of_ready (hr : Rationed step clock ready event credit gap Inv)
    (h : Trace step s xs t) (h₀ : Inv s) (hgap : 0 < gap) (hs : clock s + gap ≤ ready s) :
    xs.countP event ≤ (clock t - clock s) / gap + xs.countP credit := by
  have hpaid := (hr.covered h h₀ (Nat.le_refl _) (hs.trans (Nat.le_max_left _ _))).paid
  exact count_le_div hgap (hr.clock_mono h h₀) (by omega)

/-- Two events are a gap apart, where no credit lies between them. -/
theorem Rationed.apart (hr : Rationed step clock ready event credit gap Inv) (h₀ : Inv s)
    (ha : step s a t) (hea : event a = true) (h : Trace step t xs u) (hb : step u b v)
    (heb : event b = true) (hc : xs.countP credit = 0) : clock s + gap ≤ clock u := by
  have hnext := hr.waits h₀ ha hea
  have hclock := hr.clock_le h₀ ha
  have hcovered := hr.covered h (hr.keeps h₀ ha) (Nat.add_le_add_right hclock gap)
    (hnext.trans (Nat.le_max_left _ _))
  have hdue := hr.due (hr.invariant h (hr.keeps h₀ ha)) hb heb
  have hready := hcovered.next
  rw [hc, Nat.mul_zero, Nat.add_zero, max_eq_right hdue] at hready
  exact (Nat.le_add_right _ _).trans hready

end Lts
