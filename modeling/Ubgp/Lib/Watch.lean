import Mathlib.Data.Nat.Notation

/-! A watch channel as one of its receivers sees it: only the latest value is kept. -/

/-- `seen` is the version the receiver last marked. -/
structure Watch (α : Type*) where
  value : α
  version : ℕ
  seen : ℕ

namespace Watch
variable {α : Type*}

/-- A receiver that has seen the initial value. -/
def start (v : α) : Watch α := ⟨v, 0, 0⟩

def sendReplace (w : Watch α) (v : α) : Watch α := { w with value := v, version := w.version + 1 }

def hasChanged (w : Watch α) : Bool := decide (w.seen < w.version)

/-- `borrow_and_update`: read the value and mark it seen. -/
def mark (w : Watch α) : Watch α := { w with seen := w.version }

theorem hasChanged_sendReplace (w : Watch α) (v : α) (h : w.seen ≤ w.version) :
    (w.sendReplace v).hasChanged = true := by
  exact decide_eq_true (Nat.lt_succ_of_le h)

end Watch
