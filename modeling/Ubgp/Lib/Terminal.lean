import Mathlib.Data.List.Basic

/-! Text a terminal can be sent: printable ASCII in lines, and how such texts are put together. -/
namespace Terminal

def isAscii (c : Char) : Bool := decide (c.toNat < 128)
def isAsciiControl (c : Char) : Bool := decide (c.toNat < 32) || decide (c.toNat = 127)

def printable (c : Char) : Bool := isAscii c && !isAsciiControl c

def carriageReturn : Char := Char.ofNat 13
def lineFeed : Char := Char.ofNat 10

/-- Printable ASCII in lines that end in CR LF; the last line may be unfinished. -/
inductive Clean : List Char → Prop
  | nil : Clean []
  | char {c : Char} {cs : List Char} (hc : printable c = true) (h : Clean cs) : Clean (c :: cs)
  | newline {cs : List Char} (h : Clean cs) : Clean (carriageReturn :: lineFeed :: cs)

def isClean : List Char → Bool
  | [] => true
  | [c] => printable c
  | c :: d :: cs =>
    (c == carriageReturn && d == lineFeed && isClean cs) || (printable c && isClean (d :: cs))

theorem clean_of_isClean : ∀ {cs : List Char}, isClean cs = true → Clean cs
  | [], _ => .nil
  | [_], h => .char h .nil
  | c :: d :: cs, h => by
    simp only [isClean, Bool.or_eq_true, Bool.and_eq_true, beq_iff_eq] at h
    rcases h with ⟨⟨rfl, rfl⟩, h⟩ | ⟨hc, h⟩
    · exact .newline (clean_of_isClean h)
    · exact .char hc (clean_of_isClean h)

namespace Clean
variable {cs ds : List Char} {s t : String}

theorem append (h : Clean cs) (h' : Clean ds) : Clean (cs ++ ds) := by
  induction h with
  | nil => exact h'
  | char hc _ ih => exact .char hc ih
  | newline _ ih => exact .newline ih

theorem of_printable (h : ∀ c ∈ cs, printable c = true) : Clean cs := by
  induction cs with
  | nil => exact .nil
  | cons c cs ih =>
    rw [List.forall_mem_cons] at h
    exact .char h.1 (ih h.2)

theorem concat (h : Clean s.toList) (h' : Clean t.toList) : Clean (s ++ t).toList := by
  rw [String.toList_append]
  exact h.append h'

theorem join {l : List String} (h : ∀ t ∈ l, Clean t.toList) : Clean (String.join l).toList := by
  rw [String.toList_join]
  induction l with
  | nil => exact .nil
  | cons t l ih =>
    rw [List.forall_mem_cons] at h
    rw [List.flatMap_cons]
    exact h.1.append (ih h.2)

theorem intersperse {l : List String} (hs : Clean s.toList) (hl : ∀ t ∈ l, Clean t.toList) :
    Clean (s.intercalate l).toList := by
  rw [String.toList_intercalate]
  induction l with
  | nil => exact .nil
  | cons t l ih =>
    rw [List.forall_mem_cons] at hl
    cases l with
    | nil => simpa [List.intercalate] using hl.1
    | cons u l =>
      have htail := ih hl.2
      simp only [List.intercalate, List.map_cons, List.intersperse, List.flatten_cons] at htail ⊢
      exact hl.1.append (hs.append htail)

end Clean

theorem printable_digitChar (n : ℕ) : printable n.digitChar = true := by
  match n with
  | 0 | 1 | 2 | 3 | 4 | 5 | 6 | 7 | 8 | 9 | 10 | 11 | 12 | 13 | 14 | 15 => rfl
  | n + 16 =>
    rw [Nat.digitChar_eq_star.mpr (by omega)]
    rfl

theorem printable_toDigitsCore {b fuel n : ℕ} {cs : List Char}
    (h : ∀ c ∈ cs, printable c = true) :
    ∀ c ∈ Nat.toDigitsCore b fuel n cs, printable c = true := by
  induction fuel generalizing n cs with
  | zero => exact h
  | succ fuel ih =>
    have hcons : ∀ c ∈ (n % b).digitChar :: cs, printable c = true :=
      List.forall_mem_cons.mpr ⟨printable_digitChar _, h⟩
    unfold Nat.toDigitsCore
    dsimp only
    split
    · exact hcons
    · exact ih hcons

theorem clean_digits (b n : ℕ) : Clean (Nat.toDigits b n) :=
  .of_printable (printable_toDigitsCore (by simp))

theorem clean_nat (n : ℕ) : Clean (toString n).toList := by
  have h : (toString n).toList = Nat.toDigits 10 n := by
    rw [Nat.toString_eq_repr, Nat.toList_repr]
  rw [h]
  exact clean_digits 10 n

end Terminal
