import Mathlib.Init
/-!
# Chains of checks

A chain of steps that may each end the whole in an error succeeds exactly when every step does.
-/

namespace Except

variable {ε ε' α β : Type}

theorem bind_ok_iff {x : Except ε α} {f : α → Except ε β} {b : β} : (x >>= f) = .ok b ↔
    ∃ a, x = .ok a ∧ f a = .ok b := by
  cases x with
  | error e => exact ⟨nofun, fun ⟨_, h, _⟩ => nomatch h⟩
  | ok a => exact ⟨fun h => ⟨a, rfl, h⟩, fun ⟨_, h, h'⟩ => by cases h; exact h'⟩

/-- Renaming the error changes nothing about success. -/
theorem mapError_ok_iff {x : Except ε α} {f : ε → ε'} {a : α} : x.mapError f = .ok a ↔ x = .ok a := by
  cases x with
  | error e => exact ⟨nofun, nofun⟩
  | ok b => exact ⟨fun h => by cases h; rfl, fun h => by cases h; rfl⟩

/-- A step that fails when its condition does not hold. -/
theorem throw_unless_ok_iff {p : Prop} [Decidable p] {e : ε} {f : β → Except ε α} {x : Except ε α} {a : α} :
    (if ¬ p then (throw e : Except ε β) >>= f else x) = .ok a ↔ p ∧ x = .ok a := by
  by_cases hp : p
  · rw [if_neg (not_not_intro hp)]
    exact ⟨fun h => ⟨hp, h⟩, And.right⟩
  · rw [if_pos hp]
    exact ⟨nofun, fun h => absurd h.1 hp⟩

end Except
