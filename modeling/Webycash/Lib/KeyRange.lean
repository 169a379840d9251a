import Mathlib.Data.List.Lex
import Webycash.Lib.SortedMap
/-!
# Ordered stores of string keys

A store kept in the order of its keys, which are strings over an ordered alphabet. The keys from
`start` up to `start` followed by the letter `stop` are those that go on after `start` with a letter
below `stop`, or not at all (`mem_subspace_iff`).
-/

namespace KeyRange

section

variable {α ν : Type} [LinearOrder α]

/-- The entries from `start` up to `stop`, without `stop`, in key order. -/
def range (start stop : List α) (m : List (List α × ν)) : List (List α × ν) :=
  m.filter fun p => start ≤ p.1 ∧ p.1 < stop

theorem cons_lt_cons_iff {a b : α} {k l : List α} : a :: k < b :: l ↔ a < b ∨ (a = b ∧ k < l) :=
  List.cons_lex_cons_iff

theorem nil_le (l : List α) : [] ≤ l := not_lt.1 fun h => nomatch h

theorem cons_le_cons_iff {a b : α} {k l : List α} : a :: k ≤ b :: l ↔ a < b ∨ (a = b ∧ k ≤ l) := by
  rw [← not_lt, cons_lt_cons_iff, ← not_lt (a := l)]
  constructor
  · intro h
    rcases lt_trichotomy a b with hab | hab | hab
    · exact .inl hab
    · exact .inr ⟨hab, fun hlt => h (.inr ⟨hab.symm, hlt⟩)⟩
    · exact absurd (.inl hab) h
  · rintro (hab | ⟨hab, hkl⟩) (hba | ⟨hba, hlk⟩)
    · exact lt_asymm hab hba
    · exact lt_irrefl _ (hba ▸ hab)
    · exact lt_irrefl _ (hab ▸ hba)
    · exact hkl hlk

/-- **A prefix and its successor.** -/
theorem mem_subspace_iff {stop : α} : ∀ {start key : List α},
    start ≤ key ∧ key < start ++ [stop] ↔ ∃ rest, key = start ++ rest ∧ ∀ b ∈ rest.head?, b < stop
  | [], [] => ⟨fun _ => ⟨[], rfl, nofun⟩, fun _ => ⟨nil_le _, .nil⟩⟩
  | [], b :: key => by
    constructor
    · rintro ⟨-, h⟩
      refine ⟨b :: key, rfl, fun c hc => ?_⟩
      cases hc
      rcases cons_lt_cons_iff.1 h with h | ⟨-, h⟩
      · exact h
      · cases h
    · rintro ⟨rest, rfl, h⟩
      exact ⟨nil_le _, cons_lt_cons_iff.2 (.inl (h b rfl))⟩
  | a :: start, [] => by
    constructor
    · rintro ⟨h, -⟩
      exact absurd (nil_le (a :: start)) (not_le.2 (lt_of_le_of_ne h (List.cons_ne_nil _ _)))
    · rintro ⟨rest, h, -⟩
      cases h
  | a :: start, b :: key => by
    have ih : start ≤ key ∧ key < start ++ [stop] ↔ _ := mem_subspace_iff
    rw [List.cons_append, cons_le_cons_iff, cons_lt_cons_iff]
    constructor
    · rintro ⟨h | ⟨rfl, h⟩, h' | ⟨heq, h'⟩⟩
      · exact absurd h (lt_asymm h')
      · exact absurd h (heq ▸ lt_irrefl _)
      · exact absurd h' (lt_irrefl _)
      · obtain ⟨rest, rfl, hrest⟩ := ih.1 ⟨h, h'⟩
        exact ⟨rest, rfl, hrest⟩
    · rintro ⟨rest, hkey, hrest⟩
      obtain ⟨rfl, rfl⟩ := List.cons.inj hkey
      obtain ⟨h, h'⟩ := ih.2 ⟨rest, rfl, hrest⟩
      exact ⟨.inr ⟨rfl, h⟩, .inr ⟨rfl, h'⟩⟩

end

/-- Two ways to cut a string at a separator. -/
theorem cut_cases {α : Type} {x : α} {a b s t : List α} (h : a ++ x :: s = b ++ x :: t) :
    (a = b ∧ s = t) ∨ (∃ c, b = a ++ x :: c ∧ s = c ++ x :: t) ∨ ∃ c, a = b ++ x :: c ∧
      t = c ++ x :: s := by
  rcases List.append_eq_append_iff.1 h with ⟨c, rfl, hc⟩ | ⟨c, rfl, hc⟩
  · cases c with
    | nil => exact .inl ⟨(List.append_nil a).symm, (List.cons.inj hc).2⟩
    | cons y c =>
      obtain ⟨rfl, rfl⟩ := List.cons.inj hc
      exact .inr (.inl ⟨c, rfl, rfl⟩)
  · cases c with
    | nil => exact .inl ⟨List.append_nil b, ((List.cons.inj hc).2).symm⟩
    | cons y c =>
      obtain ⟨rfl, rfl⟩ := List.cons.inj hc
      exact .inr (.inr ⟨c, rfl, rfl⟩)

end KeyRange
