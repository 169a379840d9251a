import Mathlib.Computability.Language
/-!
# Words over a kind of letters

Two languages that formats are put together from: texts of one or more letters of a kind, and texts of
exactly `n` of them.
-/

namespace Grammar

variable {α : Type} {p : α → Bool} {a : α} {w : List α} {n : Nat}

/-- One or more letters of the kind. -/
def word (p : α → Bool) : Language α := {w | w ≠ [] ∧ ∀ a ∈ w, p a = true}

/-- Exactly `n` letters of the kind. -/
def letters (p : α → Bool) (n : Nat) : Language α := {w | w.length = n ∧ ∀ a ∈ w, p a = true}

theorem mem_letters : w ∈ letters p n ↔ w.length = n ∧ ∀ a ∈ w, p a = true := Iff.rfl

theorem notMem_of_word (hw : w ∈ word p) (ha : p a = false) : a ∉ w := by
  intro hmem
  have h := hw.2 a hmem
  rw [ha] at h
  cases h

theorem notMem_of_letters (hw : w ∈ letters p n) (ha : p a = false) : a ∉ w := by
  intro hmem
  have h := hw.2 a hmem
  rw [ha] at h
  cases h

end Grammar
