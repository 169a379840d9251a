import Webycash.Lib.Run
import Webycash.Lib.Seal
/-!
# Registries that keep a trail

A registry of single-use seals writes a row for every exchange; a row uses the seals the exchange
closed and makes the ones it opened. `Account` says that the trail accounts for the registry:
the closed seals are the used ones, no seal is used or made twice, and what was made is there. An
exchange entered under a new name keeps it, and so does a step that opens seals without a row.
-/

/-- In the run from `s` along `as` to `t`, the label `a` leads from `u` to `v`. -/
def Run.At {σ α : Type} (step : σ → α → σ → Prop) (s : σ) (as : List α) (t : σ) (a : α)
    (u v : σ) : Prop :=
  ∃ before after, as = before ++ a :: after ∧ Run step s before u ∧ step u a v ∧ Run step v after t

namespace Seals

variable {κ ι τ : Type} {s s' : Seals κ} {t t' : ι → Option τ} {i j : ι} {row row' : τ}
  {ins outs : List κ} {k : κ} {uses makes : ι → τ → κ → Prop}

/-- An exchange, and its row. -/
structure Entered [DecidableEq ι] (s s' : Seals κ) (t t' : ι → Option τ) (i : ι) (row : τ)
    (ins outs : List κ) : Prop where
  opened : s.Open ins
  fresh : s.Fresh outs
  exchanged : Exchanged s s' ins outs
  closed : ∀ k, s' k = some true → s k = some true ∨ k ∈ ins
  rows : ∀ j, t' j = if j = i then some row else t j

/-- No row, and no seal changed that was there: at most new ones were opened. -/
structure Opened (s s' : Seals κ) (t t' : ι → Option τ) : Prop where
  there : ∀ k, s k ≠ none → s' k = s k
  closed : ∀ k, s' k = some true → s k = some true
  rows : ∀ j, t' j = t j

theorem Opened.refl (s : Seals κ) (t : ι → Option τ) : Opened s s t t :=
  ⟨fun _ _ => rfl, fun _ h => h, fun _ => rfl⟩

/-- **The trail accounts for the registry.** -/
structure Account (uses makes : ι → τ → κ → Prop) (s : Seals κ) (t : ι → Option τ) : Prop where
  used : ∀ {i row k}, t i = some row → uses i row k → s k = some true
  closed : ∀ {k}, s k = some true → ∃ i row, t i = some row ∧ uses i row k
  usedOnce : ∀ {i row j row' k}, t i = some row → t j = some row' → uses i row k → uses j row' k → i = j
  made : ∀ {i row k}, t i = some row → makes i row k → s k ≠ none
  madeOnce : ∀ {i row j row' k}, t i = some row → t j = some row' → makes i row k → makes j row' k → i = j

theorem Account.empty (hs : ∀ k, s k = none) (ht : ∀ i, t i = none) : Account uses makes s t where
  used h := by simp [ht] at h
  closed h := by simp [hs] at h
  usedOnce h := by simp [ht] at h
  made h := by simp [ht] at h
  madeOnce h := by simp [ht] at h

section

variable [DecidableEq ι]

/-- A seal that is there stays there. -/
theorem Entered.there (h : Entered s s' t t' i row ins outs) (hk : s k ≠ none) : s' k ≠ none := by
  by_cases hin : k ∈ ins
  · simp [h.exchanged.closed k hin]
  · rwa [h.exchanged.frame k hin fun hout => hk (h.fresh.2 k hout)]

/-- A closed seal stays closed. -/
theorem Entered.final (h : Entered s s' t t' i row ins outs) (hk : s k = some true) : s' k = some true := by
  have hin : k ∉ ins := fun hin => by simp [h.opened k hin] at hk
  have hout : k ∉ outs := fun hout => by simp [h.fresh.2 k hout] at hk
  rw [h.exchanged.frame k hin hout, hk]

/-- What is new was made. -/
theorem Entered.of_new (h : Entered s s' t t' i row ins outs) (hk : s k = none) (hk' : s' k ≠ none) : k ∈ outs := by
  by_contra hout
  have hin : k ∉ ins := fun hin => by simp [h.opened k hin] at hk
  exact hk' (by rw [h.exchanged.frame k hin hout, hk])

/-- Rows under other names stay. -/
theorem Entered.kept (h : Entered s s' t t' i row ins outs) (hi : t i = none) (hj : t j = some row') :
    t' j = some row' := by
  have hne : j ≠ i := by rintro rfl; simp [hi] at hj
  rw [h.rows, if_neg hne, hj]

theorem Entered.entered (h : Entered s s' t t' i row ins outs) : t' i = some row := by rw [h.rows, if_pos rfl]

/-- A row after the step is the new one or an old one. -/
theorem Entered.row_cases (h : Entered s s' t t' i row ins outs) (hj : t' j = some row') :
    (j = i ∧ row' = row) ∨ (j ≠ i ∧ t j = some row') := by
  rw [h.rows] at hj
  split at hj
  · rename_i he
    exact Or.inl ⟨he, (Option.some.inj hj).symm⟩
  · rename_i hne
    exact Or.inr ⟨hne, hj⟩

/-- **An exchange under a new name is accounted for.** -/
theorem Account.enter (hacc : Account uses makes s t) (h : Entered s s' t t' i row ins outs) (hi : t i = none)
    (hu : ∀ k, uses i row k ↔ k ∈ ins) (hm : ∀ k, makes i row k ↔ k ∈ outs) : Account uses makes s' t' where
  used := by
    intro j row' k hj huse
    rcases h.row_cases hj with ⟨rfl, rfl⟩ | ⟨-, hold⟩
    · exact h.exchanged.closed k ((hu k).1 huse)
    · exact h.final (hacc.used hold huse)
  closed := by
    intro k hk
    rcases h.closed k hk with hold | hin
    · obtain ⟨j, row', hj, huse⟩ := hacc.closed hold
      exact ⟨j, row', h.kept hi hj, huse⟩
    · exact ⟨i, row, h.entered, (hu k).2 hin⟩
  usedOnce := by
    -- what an older row uses was closed before, what the new one uses was open
    have hnot : ∀ {j row' k}, t j = some row' → uses j row' k → ¬ uses i row k := fun hj huse hnew => by
      have hopen := h.opened _ ((hu _).1 hnew)
      rw [hacc.used hj huse] at hopen
      cases hopen
    intro j row' j' row'' k hj hj' huse huse'
    rcases h.row_cases hj with ⟨rfl, rfl⟩ | ⟨-, hold⟩
    · rcases h.row_cases hj' with ⟨rfl, -⟩ | ⟨-, hold'⟩
      · rfl
      · exact absurd huse (hnot hold' huse')
    · rcases h.row_cases hj' with ⟨rfl, rfl⟩ | ⟨-, hold'⟩
      · exact absurd huse' (hnot hold huse)
      · exact hacc.usedOnce hold hold' huse huse'
  made := by
    intro j row' k hj hmake
    rcases h.row_cases hj with ⟨rfl, rfl⟩ | ⟨-, hold⟩
    · exact h.exchanged.made k ((hm k).1 hmake)
    · exact h.there (hacc.made hold hmake)
  madeOnce := by
    have hnot : ∀ {j row' k}, t j = some row' → makes j row' k → ¬ makes i row k := fun hj hmake hnew =>
      hacc.made hj hmake (h.fresh.2 _ ((hm _).1 hnew))
    intro j row' j' row'' k hj hj' hmake hmake'
    rcases h.row_cases hj with ⟨rfl, rfl⟩ | ⟨-, hold⟩
    · rcases h.row_cases hj' with ⟨rfl, -⟩ | ⟨-, hold'⟩
      · rfl
      · exact absurd hmake (hnot hold' hmake')
    · rcases h.row_cases hj' with ⟨rfl, rfl⟩ | ⟨-, hold'⟩
      · exact absurd hmake' (hnot hold hmake)
      · exact hacc.madeOnce hold hold' hmake hmake'

end

/-- **Opening seals without a row** leaves the account right. -/
theorem Account.open (hacc : Account uses makes s t) (h : Opened s s' t t') : Account uses makes s' t' where
  used := by
    intro i row k hi huse
    have hclosed := hacc.used (h.rows i ▸ hi) huse
    rw [h.there k (by simp [hclosed]), hclosed]
  closed := by
    intro k hk
    obtain ⟨i, row, hi, huse⟩ := hacc.closed (h.closed k hk)
    exact ⟨i, row, by rw [h.rows, hi], huse⟩
  usedOnce hi hj := hacc.usedOnce (h.rows _ ▸ hi) (h.rows _ ▸ hj)
  made := by
    intro i row k hi hmake
    have hthere := hacc.made (h.rows i ▸ hi) hmake
    rwa [h.there k hthere]
  madeOnce hi hj := hacc.madeOnce (h.rows _ ▸ hi) (h.rows _ ▸ hj)

end Seals
