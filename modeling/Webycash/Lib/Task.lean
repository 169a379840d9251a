import Webycash.Lib.Effect
/-!
# What a task ends in

A task run alone ends in a value or in an error. `Ensures` is about the values it may end in, whatever
the calls answer; `Succeeds` says that it does end in a value where every call is answered the same way.
Both are proved along the program, bind by bind.
-/

namespace Prog

variable {C A W E α β : Type} {T : C → Type} {serve : (c : C) → A → W → Except E (T c) × W} {a : A} {c : C}
  {x : Task E T α} {f : α → Task E T β} {S : α → Prop} {Q : β → Prop}

/-- Whatever the calls answer, a value the task ends in has the property. -/
def Ensures (serve : (c : C) → A → W → Except E (T c) × W) (x : Task E T α) (S : α → Prop) : Prop :=
  ∀ as w v, (x.run.run serve as w).value = .ok v → S v

/-- From `w`, with `a` for every answer, the task ends in a value with the property. -/
def SucceedsFrom (serve : (c : C) → A → W → Except E (T c) × W) (a : A) (x : Task E T α) (w : W)
    (S : α → Prop) : Prop :=
  ∃ v, (x.run.run serve (fun _ => a) w).value = .ok v ∧ S v

/-- With `a` for every answer, the task ends in a value with the property, whatever the world. -/
def Succeeds (serve : (c : C) → A → W → Except E (T c) × W) (a : A) (x : Task E T α) (S : α → Prop) : Prop :=
  ∀ w, SucceedsFrom serve a x w S

/-- The second part goes on where the first ended. -/
theorem run_task_bind (x : Task E T α) (f : α → Task E T β) (as : Nat → A) (w : W) :
    ((x >>= f).run.run serve as w).value = match (x.run.run serve as w).value with
      | .ok v =>
        ((f v).run.run serve (fun n => as (n + (x.run.run serve as w).trace.length)) (x.run.run serve as w).world).value
      | .error e => .error e := by
  have hrun : (x >>= f).run = x.run.bind (ExceptT.bindCont f) := rfl
  rw [hrun, run_bind]
  dsimp only
  cases (x.run.run serve as w).value with
  | ok v => rfl
  | error e => rfl

/-- One call, answered. -/
theorem run_perform_ok {as : Nat → A} {w w' : W} {v : T c} (h : serve c (as 0) w = (.ok v, w')) :
    (perform c : Task E T (T c)).run.run serve as w = ⟨.ok v, w', [⟨c, as 0, .ok v⟩]⟩ := by
  show (⟨(serve c (as 0) w).1, (serve c (as 0) w).2, [⟨c, as 0, (serve c (as 0) w).1⟩]⟩ :
    Outcome (fun c => Except E (T c)) (Except E (T c)) A W) = _
  rw [h]

/-- The second part goes on with the value of the first. -/
theorem run_task_bind_ok {as : Nat → A} {w w' : W} {v : α} {made : List (Made (fun c => Except E (T c)) A)}
    (hx : x.run.run serve as w = ⟨.ok v, w', made⟩) (f : α → Task E T β) :
    (x >>= f).run.run serve as w =
      let o := (f v).run.run serve (fun n => as (n + made.length)) w'
      ⟨o.value, o.world, made ++ o.trace⟩ := by
  have hrun : (x >>= f).run = x.run.bind (ExceptT.bindCont f) := rfl
  rw [hrun, run_bind, hx]
  rfl

theorem Ensures.of {P : Prop} (h : P) : Ensures serve x fun _ => P := fun _ _ _ _ => h

theorem Ensures.bind (hx : Ensures serve x S) (hf : ∀ v, S v → Ensures serve (f v) Q) :
    Ensures serve (x >>= f) Q := by
  intro as w v hv
  rw [run_task_bind] at hv
  cases hres : (x.run.run serve as w).value with
  | error e =>
    rw [hres] at hv
    cases hv
  | ok u =>
    rw [hres] at hv
    exact hf u (hx as w u hres) _ _ v hv

/-- Nothing is asked of the first part. -/
theorem Ensures.skip (hf : ∀ v, Ensures serve (f v) Q) : Ensures serve (x >>= f) Q :=
  Ensures.bind (S := fun _ => True) (fun _ _ _ _ => trivial) fun v _ => hf v

theorem ensures_perform {S : T c → Prop} (h : ∀ a w v, (serve c a w).1 = .ok v → S v) :
    Ensures serve (perform c) S :=
  fun as w v hv => h (as 0) w v hv

theorem ensures_computed {y : Except E α} : Ensures serve (computed y) fun v => y = .ok v := fun _ _ _ hv => hv

theorem Succeeds.bind (hx : Succeeds serve a x S) (hf : ∀ v, S v → Succeeds serve a (f v) Q) :
    Succeeds serve a (x >>= f) Q := by
  intro w
  obtain ⟨u, hu, hS⟩ := hx w
  obtain ⟨v, hv, hQ⟩ := hf u hS (x.run.run serve (fun _ => a) w).world
  refine ⟨v, ?_, hQ⟩
  rw [run_task_bind, hu]
  exact hv

theorem succeeds_pure {v : α} (h : S v) : Succeeds serve a (pure v) S := fun _ => ⟨v, rfl, h⟩

theorem succeeds_computed {y : Except E α} {v : α} (hy : y = .ok v) (h : S v) : Succeeds serve a (computed y) S :=
  fun _ => ⟨v, hy, h⟩

theorem succeeds_perform {S : T c → Prop} (h : ∀ w, ∃ v, (serve c a w).1 = .ok v ∧ S v) :
    Succeeds serve a (perform c) S := h

theorem succeeds_attempt {S : Except E (T c) → Prop} (h : ∀ w, S (serve c a w).1) :
    Succeeds serve a (attempt c) S :=
  fun w => ⟨_, rfl, h w⟩

/-- A call that succeeds in this world. -/
theorem SucceedsFrom.perform {f : T c → Task E T β} {w w' : W} {v : T c} (hc : serve c a w = (.ok v, w'))
    (hf : SucceedsFrom serve a (f v) w' Q) : SucceedsFrom serve a (perform c >>= f) w Q := by
  obtain ⟨u, hu, hQ⟩ := hf
  refine ⟨u, ?_, hQ⟩
  rw [← hu]
  show ((ExceptT.bindCont f (serve c a w).1).run serve (fun _ => a) (serve c a w).2).value = _
  rw [hc]
  rfl

end Prog
