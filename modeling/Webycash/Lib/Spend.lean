import Webycash.Lib.Run
import Webycash.Lib.Seal
/-!
# Histories of spends

A spend tries to close a list of seals: when it succeeds they were open and exactly they are
closed now, when it fails nothing is closed. `Spends.history` is the accounting of a whole run:
every seal is closed by at most one successful spend, and it is closed at the end exactly when it
was at the start or such a spend happened.
-/

namespace Seals

variable {κ σ α : Type}

/-- One attempt to close `ins`. -/
structure Spends (s s' : Seals κ) (ins : List κ) (ok : Bool) : Prop where
  opened : ok = true → s.Open ins
  closed : ∀ k, s' k = some true ↔ s k = some true ∨ (ok = true ∧ k ∈ ins)

theorem Spends.failed {s s' : Seals κ} {ins : List κ} (h : ∀ k, s' k = some true ↔ s k = some true) :
    Spends s s' ins false :=
  ⟨nofun, fun k => by simp [h k]⟩

/-- An exchange whose new seals are not closed. -/
theorem Spends.of_exchanged {s s' : Seals κ} {ins outs : List κ} (h : Exchanged s s' ins outs) (hopen : s.Open ins)
    (hfresh : s.Fresh outs) (hnew : ∀ k ∈ outs, s' k ≠ some true) : Spends s s' ins true := by
  refine ⟨fun _ => hopen, fun k => ?_⟩
  by_cases hin : k ∈ ins
  · simp [hin, h.closed k hin]
  · by_cases hout : k ∈ outs
    · simp [hin, hnew k hout, hfresh.2 k hout]
    · simp [hin, h.frame k hin hout]

/-- The successful spends of a history that list `k`. -/
def spenders [DecidableEq κ] (ins : α → List κ) (ok : α → Bool) (as : List α) (k : κ) : List α :=
  as.filter fun a => ok a && decide (k ∈ ins a)

/-- **Every seal is closed once, by a spend that succeeded.** -/
theorem Spends.history [DecidableEq κ] {step : σ → α → σ → Prop} {seals : σ → Seals κ}
    {ins : α → List κ} {ok : α → Bool}
    (hstep : ∀ s a t, step s a t → Spends (seals s) (seals t) (ins a) (ok a)) {s t : σ} {as : List α}
    (h : Run step s as t)
    (k : κ) : (seals s k = some true → spenders ins ok as k = []) ∧ (spenders ins ok as k).length ≤ 1 ∧
      (seals t k = some true ↔ seals s k = some true ∨ (spenders ins ok as k).length = 1) := by
  refine Run.history (I := fun as t => (seals s k = some true → spenders ins ok as k = []) ∧
    (spenders ins ok as k).length ≤ 1 ∧
      (seals t k = some true ↔ seals s k = some true ∨ (spenders ins ok as k).length = 1))
    (by simp [spenders]) ?_ h
  rintro as t a u - ⟨hfirst, hle, hiff⟩ hs
  have hspend := hstep t a u hs
  have happ : spenders ins ok (as ++ [a]) k = spenders ins ok as k ++ spenders ins ok [a] k := List.filter_append ..
  by_cases hhit : ok a = true ∧ k ∈ ins a
  · -- the seal was open until now, so nobody has closed it before
    have hopen : seals t k = some false := hspend.opened hhit.1 k hhit.2
    have hnot : ¬ (seals s k = some true ∨ (spenders ins ok as k).length = 1) := fun hc => by
      rw [← hiff, hopen] at hc
      cases hc
    obtain ⟨hs0, hcount⟩ := not_or.1 hnot
    have hzero : spenders ins ok as k = [] := List.length_eq_zero_iff.1 (by omega)
    have hone : spenders ins ok [a] k = [a] := by simp [spenders, hhit.1, hhit.2]
    rw [happ, hzero, hone]
    refine ⟨fun hc => absurd hc hs0, by simp, ?_⟩
    rw [hspend.closed]
    simp [hhit.1, hhit.2]
  · have hnone : spenders ins ok [a] k = [] := by
      simp only [spenders, List.filter_cons, List.filter_nil, Bool.and_eq_true, decide_eq_true_eq, hhit, if_false]
    rw [happ, hnone, List.append_nil]
    refine ⟨hfirst, hle, ?_⟩
    rw [hspend.closed, hiff]
    simp only [hhit, or_false]

end Seals
