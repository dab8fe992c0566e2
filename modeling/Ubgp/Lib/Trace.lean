import Mathlib.Data.List.Basic

/-! Finite labelled traces of a step relation, with the rules that lift a step lemma to a run. -/
namespace Lts

variable {σ α : Type*} {step : σ → α → σ → Prop} {s t u : σ} {a : α} {xs ys : List α}

/-- Finite runs, extended at the end: the label list is the complete history so far. -/
inductive Trace (step : σ → α → σ → Prop) : σ → List α → σ → Prop
  | refl {s : σ} : Trace step s [] s
  | snoc {s t u : σ} {xs : List α} {a : α} :
      Trace step s xs t → step t a u → Trace step s (xs ++ [a]) u

/-- An event of an extended history is the last one, or was there before. -/
theorem snoc_eq_append_cons {b : α} {zs : List α} (h : xs ++ [a] = ys ++ b :: zs) :
    (zs = [] ∧ a = b ∧ xs = ys) ∨ ∃ zs', zs = zs' ++ [a] ∧ xs = ys ++ b :: zs' := by
  rcases zs.eq_nil_or_concat with rfl | ⟨zs', c, rfl⟩
  · obtain ⟨hxs, hab⟩ := List.append_inj' h rfl
    exact Or.inl ⟨rfl, List.singleton_inj.mp hab, hxs⟩
  · rw [List.concat_eq_append, ← List.cons_append, ← List.append_assoc] at h
    obtain ⟨hxs, hac⟩ := List.append_inj' h rfl
    rw [List.singleton_inj.mp hac, List.concat_eq_append]
    exact Or.inr ⟨zs', rfl, hxs⟩

namespace Trace

/-- A property of the history and the state that every step extends holds of every run. -/
theorem history {P : List α → σ → Prop} (h : Trace step s xs t) (h₀ : P [] s)
    (hs : ∀ xs t a u, P xs t → step t a u → P (xs ++ [a]) u) : P xs t := by
  induction h with
  | refl => exact h₀
  | snoc _ ha ih => exact hs _ _ _ _ ih ha

/-- A state property that every step preserves holds at the end of every run. -/
theorem invariant {P : σ → Prop} (h : Trace step s xs t) (h₀ : P s)
    (hs : ∀ t a u, P t → step t a u → P u) : P t :=
  h.history (P := fun _ => P) h₀ (fun _ t a u hp ha => hs t a u hp ha)

/-- Runs compose. -/
theorem append (h : Trace step s xs t) (h' : Trace step t ys u) : Trace step s (xs ++ ys) u := by
  induction h' with
  | refl => rwa [List.append_nil]
  | snoc _ ha ih =>
    rw [← List.append_assoc]
    exact .snoc ih ha

/-- A run can be cut at any of its events. -/
theorem cut (h : Trace step s (xs ++ a :: ys) u) :
    ∃ t t', Trace step s xs t ∧ step t a t' ∧ Trace step t' ys u := by
  generalize hzs : xs ++ a :: ys = zs at h
  induction h generalizing ys with
  | refl => simp at hzs
  | @snoc v w zs b h hb ih =>
    rcases snoc_eq_append_cons hzs.symm with ⟨rfl, rfl, rfl⟩ | ⟨ys', rfl, rfl⟩
    · exact ⟨v, w, h, hb, .refl⟩
    · obtain ⟨t, t', ht, ha, htail⟩ := ih rfl
      exact ⟨t, t', ht, ha, .snoc htail hb⟩

end Trace

/-- The first step of a run. -/
theorem Trace.head (h : Trace step s (a :: xs) u) : ∃ t, step s a t ∧ Trace step t xs u := by
  obtain ⟨s', t, hs, ha, hrest⟩ := Trace.cut (show Trace step s ([] ++ a :: xs) u from h)
  generalize hnil : ([] : List α) = ys at hs
  cases hs with
  | refl => exact ⟨t, ha, hrest⟩
  | snoc => simp at hnil

/-- A step labelled with the state it reaches as well: the history is then the whole run. -/
def Recorded (step : σ → α → σ → Prop) (s : σ) (x : α × σ) (t : σ) : Prop :=
  step s x.1 t ∧ x.2 = t

namespace Trace

/-- Every run can be written down with its states. -/
theorem recorded (h : Trace step s xs t) :
    ∃ ys : List (α × σ), Trace (Recorded step) s ys t ∧ ys.map Prod.fst = xs := by
  induction h with
  | refl => exact ⟨[], .refl, rfl⟩
  | @snoc _ u xs a _ ha ih =>
    obtain ⟨ys, hys, rfl⟩ := ih
    have hstep : Recorded step _ (a, u) u := ⟨ha, rfl⟩
    exact ⟨ys ++ [(a, u)], .snoc hys hstep, by simp⟩

theorem forget {ys : List (α × σ)} (h : Trace (Recorded step) s ys t) :
    Trace step s (ys.map Prod.fst) t := by
  induction h with
  | refl => exact .refl
  | snoc _ ha ih =>
    rw [List.map_append]
    exact .snoc ih ha.1

end Trace

/-- Runs all of whose steps meet a condition on the history and the state before them. -/
inductive GuardedTrace (step : σ → α → σ → Prop) (g : List α → σ → α → Prop) :
    σ → List α → σ → Prop
  | refl {s : σ} : GuardedTrace step g s [] s
  | snoc {s t u : σ} {xs : List α} {a : α} :
      GuardedTrace step g s xs t → g xs t a → step t a u → GuardedTrace step g s (xs ++ [a]) u

namespace GuardedTrace
variable {g : List α → σ → α → Prop}

theorem trace (h : GuardedTrace step g s xs t) : Trace step s xs t := by
  induction h with
  | refl => exact .refl
  | snoc _ _ ha ih => exact .snoc ih ha

/-- Runs under a condition are runs under a weaker one. -/
theorem mono {g' : List α → σ → α → Prop} (h : GuardedTrace step g s xs t)
    (hg : ∀ xs s a, g xs s a → g' xs s a) : GuardedTrace step g' s xs t := by
  induction h with
  | refl => exact .refl
  | snoc _ hc ha ih => exact .snoc ih (hg _ _ _ hc) ha

/-- The rule for histories, with the condition at hand in every step. -/
theorem history {P : List α → σ → Prop} (h : GuardedTrace step g s xs t) (h₀ : P [] s)
    (hs : ∀ xs t a u, P xs t → g xs t a → step t a u → P (xs ++ [a]) u) : P xs t := by
  induction h with
  | refl => exact h₀
  | snoc _ hg ha ih => exact hs _ _ _ _ ih hg ha

end GuardedTrace

/-! Schedules of moves for a step function. -/

variable {μ : Type*} {f : σ → μ → Option (α × σ)} {g : List α → σ → α → Bool} {ms : List μ}

/-- Run a schedule from a history and a state, checking the condition before every step. -/
def execGuarded (f : σ → μ → Option (α × σ)) (g : List α → σ → α → Bool) :
    List μ → List α → σ → Option (List α × σ)
  | [], xs, s => some (xs, s)
  | m :: ms, xs, s => do
    let (a, t) ← f s m
    if g xs s a then execGuarded f g ms (xs ++ [a]) t else none

def exec (f : σ → μ → Option (α × σ)) (ms : List μ) (s : σ) : Option (List α × σ) :=
  execGuarded f (fun _ _ _ => true) ms [] s

theorem execGuarded_trace {s₀ : σ}
    (h₀ : GuardedTrace (fun s a t => ∃ m, f s m = some (a, t)) (fun xs s a => g xs s a) s₀ xs s)
    (h : execGuarded f g ms xs s = some (ys, t)) :
    GuardedTrace (fun s a t => ∃ m, f s m = some (a, t)) (fun xs s a => g xs s a) s₀ ys t := by
  induction ms generalizing xs s with
  | nil =>
    cases h
    exact h₀
  | cons m ms ih =>
    simp only [execGuarded, Option.bind_eq_bind, Option.bind_eq_some_iff, Prod.exists,
      Option.ite_none_right_eq_some] at h
    obtain ⟨a, u, ha, hg, h⟩ := h
    exact ih (.snoc h₀ hg ⟨m, ha⟩) h

/-- A successful schedule is a run of the relation the step function induces. -/
theorem exec_trace (h : exec f ms s = some (ys, t)) :
    Trace (fun s a t => ∃ m, f s m = some (a, t)) s ys t :=
  (execGuarded_trace .refl h).trace

/-- The step function whose labels hold the states as well. -/
def recording (f : σ → μ → Option (α × σ)) (s : σ) (m : μ) : Option ((α × σ) × σ) :=
  (f s m).map (fun r => (r, r.2))

theorem exec_recorded {zs : List (α × σ)} (h : exec (recording f) ms s = some (zs, t)) :
    Trace (Recorded (fun s a t => ∃ m, f s m = some (a, t))) s zs t := by
  refine (exec_trace h).history .refl ?_
  rintro zs u x v hu ⟨m, hm⟩
  obtain ⟨r, hr, hx⟩ := Option.map_eq_some_iff.mp hm
  cases hx
  exact .snoc hu ⟨⟨m, hr⟩, rfl⟩

end Lts
