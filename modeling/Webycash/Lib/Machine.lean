import Mathlib.Init
/-!
# Machines and what they answer

A machine answers an input and moves to its next state. Two machines answer alike along a list of
inputs when some relation of their states is kept by every input that meets a condition at the
state it finds.
-/

namespace Machine

variable {α β σ τ : Type}

/-- The answers to a list of inputs. -/
def trace (f : α → σ → β × σ) : List α → σ → List β
  | [], _ => []
  | a :: as, s => (f a s).1 :: trace f as (f a s).2

/-- Every input meets `P` at the state it finds. -/
def Meets (f : α → σ → β × σ) (P : α → σ → Prop) : List α → σ → Prop
  | [], _ => True
  | a :: as, s => P a s ∧ Meets f P as (f a s).2

variable {f : α → σ → β × σ} {g : α → τ → β × τ} {P : α → σ → Prop} {R : σ → τ → Prop}

/-- **Simulation rule.** -/
theorem trace_eq (hstep : ∀ a s t, R s t → P a s → (f a s).1 = (g a t).1 ∧ R (f a s).2 (g a t).2) :
    ∀ {as : List α} {s : σ} {t : τ}, R s t → Meets f P as s → trace f as s = trace g as t
  | [], _, _, _, _ => rfl
  | a :: _, s, t, hR, hP => by
    obtain ⟨hanswer, hnext⟩ := hstep a s t hR hP.1
    rw [trace, trace, hanswer, trace_eq hstep hnext hP.2]

end Machine
