import Webycash.Lib.Effect
/-!
# What a pool of programs has been told

A program keeps the calls it has made with their answers, so whatever one of them was answered stays on record,
and the calls of a kind are counted up. Facts of this form are what invariants over all interleavings rest on: no
step of any program takes one of them back (`Pool.Record`).
-/

namespace Prog

variable {C : Type} {R : C → Type} {α A W τ : Type}

/-- A program started as `tag` has made the call and got the answer. -/
def Pool.Recorded (p : Pool R α A W τ) (tag : τ) (m : Made R A) : Prop :=
  ∃ t ∈ p.threads, t.tag = tag ∧ m ∈ t.made

/-- How many of the calls made so far are of a kind. -/
def Pool.count (p : Pool R α A W τ) (kind : Made R A → Bool) : Nat := (p.threads.flatMap Thread.made).countP kind

/-- Everything on record in `p` is on record in `p'`. -/
structure Pool.Record (p p' : Pool R α A W τ) : Prop where
  started : ∀ t ∈ p.threads, ∃ t' ∈ p'.threads, t'.tag = t.tag
  recorded : ∀ tag m, p.Recorded tag m → p'.Recorded tag m
  count : ∀ kind, p.count kind ≤ p'.count kind

variable {serve : (c : C) → A → W → R c × W} {program : τ → Prog R α} {p p' : Pool R α A W τ}
  {act : Act A τ}

/-- A turn adds its own call to the count. -/
theorem count_turn {i : Nat} {t t' : Thread R α A τ} {m : Made R A} {w : W} {ts : List (Thread R α A τ)}
    (ht : ts[i]? = some t) (hmade : t'.made = t.made ++ [m]) (kind : Made R A → Bool) :
    Pool.count (⟨w, ts.set i t'⟩ : Pool R α A W τ) kind =
      (ts.flatMap Thread.made).countP kind + if kind m then 1 else 0 := by
  obtain ⟨hi, rfl⟩ := List.getElem?_eq_some_iff.1 ht
  have hsplit : ts = ts.take i ++ ts[i] :: ts.drop (i + 1) := by rw [List.getElem_cons_drop, List.take_append_drop]
  rw [Pool.count, List.set_eq_take_append_cons_drop, if_pos hi]
  conv => rhs; rw [hsplit]
  simp only [List.flatMap_append, List.flatMap_cons, List.countP_append, hmade, List.countP_cons, List.countP_nil]
  omega

theorem mem_set_turn {i : Nat} {t t' x : Thread R α A τ} {ts : List (Thread R α A τ)} (ht : ts[i]? = some t)
    (hx : x ∈ ts) :
    x = t ∨ x ∈ ts.set i t' := by
  obtain ⟨j, hj⟩ := List.getElem?_of_mem hx
  by_cases hji : j = i
  · subst hji
    exact .inl (Option.some.inj (hj.symm.trans ht))
  · exact .inr (List.mem_of_getElem? ((List.getElem?_set_ne (Ne.symm hji)).trans hj))

/-- **A step keeps the record.** -/
theorem Pool.Record.step (h : p.Step serve program act p') : p.Record p' := by
  rcases Pool.step_cases h with ⟨tag, -, rfl⟩ | ⟨i, a, tag, made, c, k, -, ht, rfl⟩
  · refine ⟨fun t ht => ⟨t, List.mem_append_left _ ht, rfl⟩, fun tag m ⟨t, ht, hm⟩ =>
      ⟨t, List.mem_append_left _ ht, hm⟩, fun kind => ?_⟩
    simp only [Pool.count, List.flatMap_append, List.countP_append]
    omega
  · have hlen := (List.getElem?_eq_some_iff.1 ht).1
    have hnew := List.mem_set hlen (⟨tag, made ++ [⟨c, a, (serve c a p.world).1⟩],
      k (serve c a p.world).1⟩ : Thread R α A τ)
    refine ⟨fun t hmem => ?_, ?_, fun kind => ?_⟩
    · rcases mem_set_turn ht hmem with rfl | hmem
      · exact ⟨_, hnew, rfl⟩
      · exact ⟨t, hmem, rfl⟩
    · rintro tag' m ⟨t, hmem, htag, hm⟩
      rcases mem_set_turn ht hmem with rfl | hmem
      · exact ⟨_, hnew, htag, List.mem_append_left _ hm⟩
      · exact ⟨t, hmem, htag, hm⟩
    · rw [count_turn ht rfl kind]
      exact Nat.le_add_right _ _

end Prog
