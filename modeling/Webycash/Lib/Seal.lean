import Mathlib.Data.List.Nodup
/-!
# Registries of single-use seals

A registry maps a name to nothing (never made), `some false` (open) or `some true` (closed).
`Accepts` is the contract of an exchange: it closes distinct open seals and makes distinct new
ones; `Exchanged` is its effect. `Final` says that no closed seal was reopened, and composes, so
it passes from steps to runs. `MarksOnly` is about registries that keep a label beside each
seal: which of them a step may close, and that closing keeps the label.
-/

/-- A registry of single-use seals. -/
abbrev Seals (κ : Type) := κ → Option Bool

namespace Seals

variable {κ : Type} {s s' t u : Seals κ} {ins outs : List κ}

/-- Every listed seal is open. -/
def Open (s : Seals κ) (ins : List κ) : Prop := ∀ k ∈ ins, s k = some false

/-- The listed names are new, each listed once. -/
def Fresh (s : Seals κ) (outs : List κ) : Prop := outs.Nodup ∧ ∀ k ∈ outs, s k = none

def Accepts (s : Seals κ) (ins outs : List κ) : Prop := ins.Nodup ∧ s.Open ins ∧ s.Fresh outs

instance decidableOpen (s : Seals κ) (ins : List κ) : Decidable (s.Open ins) :=
  inferInstanceAs (Decidable (∀ k ∈ ins, s k = some false))

instance decidableFresh [DecidableEq κ] (s : Seals κ) (outs : List κ) : Decidable (s.Fresh outs) :=
  inferInstanceAs (Decidable (outs.Nodup ∧ ∀ k ∈ outs, s k = none))

instance decidableAccepts [DecidableEq κ] (s : Seals κ) (ins outs : List κ) : Decidable (s.Accepts ins outs) :=
  inferInstanceAs (Decidable (_ ∧ _ ∧ _))

/-- Open seals and new ones do not meet. -/
theorem Open.notMem (hi : s.Open ins) (ho : s.Fresh outs) {k : κ} (h : k ∈ ins) : k ∉ outs := fun h' => by
  have := ho.2 k h'
  rw [hi k h] at this
  cases this

/-- Closed seals stay closed. -/
def Final (s s' : Seals κ) : Prop := ∀ k, s k = some true → s' k = some true

theorem Final.refl (s : Seals κ) : s.Final s := fun _ h => h

theorem Final.trans (h₁ : s.Final t) (h₂ : t.Final u) : s.Final u := fun k h => h₂ k (h₁ k h)

/-- The listed seals are open before a step and closed after it. -/
def Closes (s s' : Seals κ) (ins : List κ) : Prop := ∀ k ∈ ins, s k = some false ∧ s' k = some true

/-- What an exchange does to the names it lists; others stay. -/
structure Exchanged (s s' : Seals κ) (ins outs : List κ) : Prop where
  closed : ∀ k ∈ ins, s' k = some true
  made : ∀ k ∈ outs, s' k ≠ none
  frame : ∀ k, k ∉ ins → k ∉ outs → s' k = s k

end Seals

/-! ## Labelled seals -/

/-- A seal that is closed afterwards was closed before under the same label, or is one of `ks`,
was open before, and kept its label. -/
def MarksOnly {κ τ : Type} (v v' : κ → Option (Bool × τ)) (ks : List κ) : Prop :=
  ∀ k l, v' k = some (true, l) → v k = some (true, l) ∨ (k ∈ ks ∧ v k = some (false, l))

theorem MarksOnly.refl {κ τ : Type} (v : κ → Option (Bool × τ)) (ks : List κ) :
    MarksOnly v v ks := fun _ _ h => Or.inl h
