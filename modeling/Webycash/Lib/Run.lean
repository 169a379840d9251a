import Mathlib.Logic.Relation
/-!
# Runs of a labelled step relation

`Run step s as t`: from `s` the labels `as`, in order, lead to `t`. The rules below are what every
whole-run result uses: an invariant of the steps holds at the end of a run, a quantity the steps
keep is the same at both ends, what each further step passes on holds of the whole history, and
what holds only at the end came to hold at some step.
-/

inductive Run {σ α : Type} (step : σ → α → σ → Prop) : σ → List α → σ → Prop
  | nil (s : σ) : Run step s [] s
  | cons {s t u : σ} {a : α} {as : List α} : step s a t → Run step t as u → Run step s (a :: as) u

namespace Run

variable {σ α : Type} {step : σ → α → σ → Prop} {s t u : σ} {a : α} {as bs : List α}

theorem append (h₁ : Run step s as t) (h₂ : Run step t bs u) : Run step s (as ++ bs) u := by
  induction h₁ with
  | nil => exact h₂
  | cons hs _ ih => exact .cons hs (ih h₂)

/-- **Invariant rule.** -/
theorem invariant {I : σ → Prop} (hstep : ∀ s a t, step s a t → I s → I t) (h : Run step s as t)
    (h0 : I s) : I t := by
  induction h with
  | nil => exact h0
  | cons hs _ ih => exact ih (hstep _ _ _ hs h0)

/-- A quantity no step changes is unchanged by a run. -/
theorem const {β : Type} {f : σ → β} (hstep : ∀ s a t, step s a t → f t = f s)
    (h : Run step s as t) : f t = f s :=
  invariant (I := fun t => f t = f s) (fun _ _ _ hs h => (hstep _ _ _ hs).trans h) h rfl

/-- **History rule.** What holds of the empty history and is passed on by each further step holds
of every run with the labels that led there. -/
theorem history {I : List α → σ → Prop} (h0 : I [] s)
    (hstep : ∀ as t a u, Run step s as t → I as t → step t a u → I (as ++ [a]) u)
    (h : Run step s as t) : I as t := by
  suffices hgen : ∀ bs r, Run step s bs r → I bs r → Run step r as t → I (bs ++ as) t by
    simpa using hgen [] s (.nil s) h0 h
  intro bs r hbs hI hrest
  clear h
  induction hrest generalizing bs with
  | nil => simpa using hI
  | @cons r u t a as hs _ ih =>
    simpa using ih (bs ++ [a]) (hbs.append (.cons hs (.nil _))) (hstep bs r a u hbs hI hs)

/-- **Turning point.** What does not hold at the start of a run and holds at its end came to hold
at one of its steps. -/
theorem exists_turn {P : σ → Prop} (h : Run step s as t) (h0 : ¬ P s) (ht : P t) : ∃ before a after s₁ s₂,
    as = before ++ a :: after ∧ Run step s before s₁ ∧ step s₁ a s₂ ∧ Run step s₂ after t ∧
      ¬ P s₁ ∧ P s₂ := by
  induction h with
  | nil => exact absurd ht h0
  | @cons s u t a as hs hrest ih =>
    by_cases hu : P u
    · exact ⟨[], a, as, s, u, rfl, .nil s, hs, hrest, h0, hu⟩
    · obtain ⟨before, a', after, s₁, s₂, rfl, hbefore, hstep, hafter, h₁, h₂⟩ := ih hu ht
      exact ⟨a :: before, a', after, s₁, s₂, rfl, .cons hs hbefore, hstep, hafter, h₁, h₂⟩

/-- A run of a larger relation. -/
theorem mono {step' : σ → α → σ → Prop} (hle : ∀ s a t, step s a t → step' s a t) (h : Run step s as t) :
    Run step' s as t := by
  induction h with
  | nil => exact .nil _
  | cons hs _ ih => exact .cons (hle _ _ _ hs) ih

/-! ## Executing a partial step function -/

/-- Run a list of labels, `none` when one is refused. -/
def exec (f : σ → α → Option σ) : σ → List α → Option σ
  | s, [] => some s
  | s, a :: as => (f s a).bind fun t => exec f t as

/-- What the executor computes is a run. -/
theorem of_exec {f : σ → α → Option σ} (hf : ∀ s a t, f s a = some t → step s a t) :
    ∀ {as : List α} {s t : σ},
    exec f s as = some t → Run step s as t
  | [], _, _, h => by cases h; exact .nil _
  | _ :: _, _, _, h => by
    obtain ⟨u, hu, h'⟩ := Option.bind_eq_some_iff.1 h
    exact .cons (hf _ _ _ hu) (of_exec hf h')

/-- The same, where every step must also pass a guard. -/
theorem of_exec_guarded {f : σ → α → Option σ} {G : σ → α → Prop} [∀ s a, Decidable (G s a)]
    (h : exec (fun s a => if G s a then f s a else none) s as = some t) :
    Run (fun s a t => f s a = some t ∧ G s a) s as t := by
  refine of_exec (fun s a t hs => ?_) h
  by_cases hG : G s a
  · rw [if_pos hG] at hs
    exact ⟨hs, hG⟩
  · rw [if_neg hG] at hs
    cases hs

end Run
