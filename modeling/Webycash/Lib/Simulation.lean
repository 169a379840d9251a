import Webycash.Lib.Effect
/-!
# One way to serve calls in place of another

Two worlds serve the calls of the same programs. Where every call that a protocol allows is answered alike and
leaves the worlds related (`Protocol.Simulates`), the programs cannot tell which one they talk to: every step of
a pool over the one is a step of a pool over the other that moves the same thread to the same place
(`Pool.Conforms.simulates`), so every run is (`Pool.Conforms.simulates_run`), and what holds after all runs over
the second holds, through the relation, after all runs over the first.
-/

namespace Prog

variable {C : Type} {R : C → Type} {α γ A V W τ : Type}

/-- Served by `impl`, an allowed call answers as it does served by `spec`, and the worlds stay related. -/
def Protocol.Simulates (P : Protocol R γ) (impl : (c : C) → A → V → R c × V)
    (spec : (c : C) → A → W → R c × W) (S : V → W → Prop) : Prop :=
  ∀ {v w g c a}, S v w → P.allows g c → (impl c a v).1 = (spec c a w).1 ∧ S (impl c a v).2 (spec c a w).2

variable {P : τ → Protocol R γ} {start : τ → γ} {impl : (c : C) → A → V → R c × V}
  {spec : (c : C) → A → W → R c × W}
  {S : V → W → Prop} {program : τ → Prog R α} {I : W → Prop} {Q : τ → γ → α → Prop}
  {p : Pool R α A W τ} {v : V} {act : Act A τ} {acts : List (Act A τ)} {q : Pool R α A V τ}

/-- **One step over the one is a step over the other**, of the same thread and with the same answer. -/
theorem Pool.Conforms.simulates (hsim : ∀ tag, (P tag).Simulates impl spec S) (hp : p.Conforms P start I Q)
    (hS : S v p.world)
    (h : Pool.Step impl program ⟨v, p.threads⟩ act q) : ∃ w, p.Step spec program act ⟨w, q.threads⟩ ∧
    S q.world w := by
  rcases Pool.step_cases h with ⟨tag, rfl, rfl⟩ | ⟨i, a, tag, made, c, k, rfl, ht, rfl⟩
  · exact ⟨p.world, rfl, hS⟩
  · have ht : p.threads[i]? = some ⟨tag, made, call c k⟩ := ht
    obtain ⟨hanswer, hrelated⟩ := hsim tag (a := a) hS (hp.allows ht)
    refine ⟨(spec c a p.world).2, ?_, hrelated⟩
    rw [Pool.Step, Pool.next, ht]
    dsimp only
    rw [hanswer]

/-- **A run over the one is a run over the other.** -/
theorem Pool.Conforms.simulates_run (hsim : ∀ tag, (P tag).Simulates impl spec S) (hK : ∀ tag, (P tag).Kept spec I)
    (hprog : ∀ tag, Sat (P tag) (start tag) (program tag) (Q tag)) (hp : p.Conforms P start I Q) (hS : S v p.world)
    (h : Run (Pool.Step impl program) ⟨v, p.threads⟩ acts q) :
    ∃ w, Run (Pool.Step spec program) p acts ⟨w, q.threads⟩ ∧ S q.world w := by
  induction acts generalizing p v with
  | nil =>
    cases h
    exact ⟨p.world, .nil p, hS⟩
  | cons act acts ih =>
    cases h with
    | cons hstep hrest =>
      obtain ⟨w, hspec, hS'⟩ := hp.simulates hsim hS hstep
      obtain ⟨w', hrun, hend⟩ := ih (hp.step hK hprog hspec) hS' hrest
      exact ⟨w', .cons hspec hrun, hend⟩

end Prog
