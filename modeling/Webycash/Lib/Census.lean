import Mathlib.Data.List.Perm.Subperm
import Webycash.Lib.Seal
/-!
# Counting open seals

`Within P s gone supply`: whichever distinct open seals of `P` one lists, with those that are gone
they are no more than were supplied. A step that closes some seals of `P` and opens others keeps
the bound when it is paid for, seal by seal, by what it closes and what is supplied.
-/

namespace Seals

variable {κ : Type} {P : κ → Prop} {s s' : Seals κ} {gone gone' supply supply' : Nat}

/-- The open seals of `P`, with `gone` more, are at most `supply` many. -/
def Within (P : κ → Prop) (s : Seals κ) (gone supply : Nat) : Prop :=
  ∀ ks : List κ, ks.Nodup → (∀ k ∈ ks, P k) → s.Open ks → ks.length + gone ≤ supply

theorem Within.empty (h : ∀ k, s k = none) : Within P s 0 0 := by
  intro ks _ _ hopen
  cases ks with
  | nil => simp
  | cons k ks =>
    have hk := hopen k (by simp)
    rw [h] at hk
    cases hk

/-- **One step.** Each seal of `P` that is open afterwards was open before or is one of `news`, and
for these there are enough seals of `ins` that are open no more. -/
theorem Within.step (ins news : List κ) (h : Within P s gone supply) (hnd : ins.Nodup) (hin : ∀ k ∈ ins, P k)
    (hopen : s.Open ins) (hshut : ∀ k ∈ ins, s' k ≠ some false)
    (hnew : ∀ k, P k → s' k = some false → s k = some false ∨ k ∈ news)
    (hpaid : news.length + gone' + supply ≤ ins.length + gone + supply') : Within P s' gone' supply' := by
  classical
  intro ks hks hP hopen'
  -- what was open before, counting the seals that paid
  have hold : (ins ++ ks.filter (· ∉ news)).length + gone ≤ supply := by
    refine h _ (List.nodup_append.2 ⟨hnd, hks.filter _, ?_⟩) ?_ ?_
    · rintro k hk _ hk' rfl
      exact hshut k hk (hopen' k (List.mem_of_mem_filter hk'))
    · intro k hk
      rcases List.mem_append.1 hk with hk | hk
      · exact hin k hk
      · exact hP k (List.mem_of_mem_filter hk)
    · intro k hk
      rcases List.mem_append.1 hk with hk | hk
      · exact hopen k hk
      · obtain ⟨hmem, hnot⟩ := List.mem_filter.1 hk
        exact (hnew k (hP k hmem) (hopen' k hmem)).resolve_right (by simpa using hnot)
  have hfew : (ks.filter (· ∈ news)).length ≤ news.length :=
    (List.subperm_of_subset (hks.filter _) fun k hk => by simpa using (List.mem_filter.1 hk).2).length_le
  have hsplit : (ks.filter (· ∈ news)).length + (ks.filter (· ∉ news)).length = ks.length := by
    have := List.length_eq_length_filter_add (l := ks) (· ∈ news)
    simpa using this.symm
  rw [List.length_append] at hold
  omega

/-- A step that opens nothing of `P` keeps the bound. -/
theorem Within.mono (h : Within P s gone supply) (hnew : ∀ k, P k → s' k = some false → s k = some false) :
    Within P s' gone supply := by
  intro ks hks hP hopen
  exact h ks hks hP fun k hk => hnew k (hP k hk) (hopen k hk)

/-- More may be supplied. -/
theorem Within.weaken (h : Within P s gone supply) (hle : supply ≤ supply') : Within P s gone supply' := by
  intro ks hks hP hopen
  exact Nat.le_trans (h ks hks hP hopen) hle

end Seals
