import Mathlib.Init
import Webycash.Lib.Run
/-!
# Programs that call collaborators

A program is a tree: it returns, or it makes a call and goes on with the answer. Nothing is known
of a call but the type of its result, so one program is run alone (`run`), interleaved with others
(`Pool`), or judged against a protocol that says which calls it may make in which order (`Sat`).

| here | use |
| --- | --- |
| `Prog`, `Task` | programs; programs whose calls can fail, with `?` as `>>=` |
| `Sat`          | every call is allowed where it is made, and what holds at the return |
| `run`          | the value, the final world and the calls made, answers from a stream |
| `Along`        | every change of the world is as it may be, and what holds at the return, for a program run alone |
| `Pool`         | any number of programs, one call a step |
-/

/-- A program over calls `C` with results `R`. -/
inductive Prog {C : Type} (R : C → Type) (α : Type) : Type
  | ret (a : α) : Prog R α
  | call (c : C) (k : R c → Prog R α) : Prog R α

/-- A call that was made: what it was, what the environment chose, what came back. -/
structure Made {C : Type} (R : C → Type) (A : Type) where
  call : C
  answer : A
  result : R call

namespace Prog

variable {C : Type} {R : C → Type} {α β γ A W τ : Type}

def bind : Prog R α → (α → Prog R β) → Prog R β
  | ret a, f => f a
  | call c k, f => call c fun r => (k r).bind f

instance : Monad (Prog R) where
  pure := ret
  bind := bind

theorem bind_ret (p : Prog R α) : p.bind ret = p := by
  induction p with
  | ret a => rfl
  | call c k ih => exact congrArg (call c) (funext ih)

theorem bind_bind {δ : Type} (p : Prog R α) (f : α → Prog R β) (h : β → Prog R δ) :
    (p.bind f).bind h = p.bind fun a => (f a).bind h := by
  induction p with
  | ret a => rfl
  | call c k ih => exact congrArg (call c) (funext ih)

instance : LawfulMonad (Prog R) := LawfulMonad.mk' (Prog R) bind_ret (fun _ _ => rfl) bind_bind

/-! ## Protocols -/

/-- Which results a program relies on, which calls it may make in a state, and the state after. -/
structure Protocol (R : C → Type) (γ : Type) where
  admits : (c : C) → R c → Prop
  allows : γ → C → Prop
  next : γ → (c : C) → R c → γ

/-- A property of the world that makes every result one the programs rely on, and that every
allowed call keeps. -/
structure Protocol.Kept (P : Protocol R γ) (serve : (c : C) → A → W → R c × W) (I : W → Prop) : Prop where
  admits : ∀ {w c a}, I w → P.admits c (serve c a w).1
  kept : ∀ {w g c a}, I w → P.allows g c → I (serve c a w).2

/-- From `g` on every call of the program is allowed, and at a return `Q` holds. -/
def Sat (P : Protocol R γ) : γ → Prog R α → (γ → α → Prop) → Prop
  | g, ret a, Q => Q g a
  | g, call c k, Q => P.allows g c ∧ ∀ r, P.admits c r → Sat P (P.next g c r) (k r) Q

variable {P : Protocol R γ} {g : γ} {Q Q' : γ → α → Prop}

theorem Sat.mono {p : Prog R α} (h : Sat P g p Q) (hQ : ∀ g a, Q g a → Q' g a) : Sat P g p Q' := by
  induction p generalizing g with
  | ret a => exact hQ _ _ h
  | call c k ih => exact ⟨h.1, fun r hr => ih r (h.2 r hr)⟩

/-- **Sequencing.** -/
theorem Sat.bind {p : Prog R α} {f : α → Prog R β} {Q : γ → β → Prop}
    (h : Sat P g p fun g' a => Sat P g' (f a) Q) : Sat P g (p.bind f) Q := by
  induction p generalizing g with
  | ret a => exact h
  | call c k ih => exact ⟨h.1, fun r hr => ih r (h.2 r hr)⟩

/-! ## Running alone -/

/-- How a run ended. -/
structure Outcome (R : C → Type) (α A W : Type) where
  value : α
  world : W
  trace : List (Made R A)

section Run

variable (serve : (c : C) → A → W → R c × W)

/-- Run with the answers of the stream, one a call. -/
def run : Prog R α → (Nat → A) → W → Outcome R α A W
  | ret a, _, w => ⟨a, w, []⟩
  | call c k, as, w =>
    let o := run (k (serve c (as 0) w).1) (fun n => as (n + 1)) (serve c (as 0) w).2
    ⟨o.value, o.world, ⟨c, as 0, (serve c (as 0) w).1⟩ :: o.trace⟩

/-- One call of a run, with the state of the protocol beside the world. -/
def Turn (P : Protocol R γ) (s : γ × W) (m : Made R A) (s' : γ × W) : Prop :=
  P.allows s.1 m.call ∧ serve m.call m.answer s.2 = (m.result, s'.2) ∧ s'.1 = P.next s.1 m.call m.result

variable {serve} {I : W → Prop}

/-- **A run of a program that keeps to the protocol is a run of the protocol**, and ends where the
program returns. -/
theorem Sat.run {p : Prog R α} (h : Sat P g p Q) (hK : P.Kept serve I) (as : Nat → A) {w : W} (hw : I w) :
    ∃ g', Run (Turn serve P) (g, w) (p.run serve as w).trace (g', (p.run serve as w).world) ∧
      Q g' (p.run serve as w).value ∧ I (p.run serve as w).world := by
  induction p generalizing g as w with
  | ret a => exact ⟨g, .nil _, h, hw⟩
  | call c k ih =>
    obtain ⟨g', hrun, hQ, hI⟩ := ih _ (h.2 _ (hK.admits hw)) (fun n => as (n + 1)) (hK.kept (a := as 0) hw h.1)
    exact ⟨g', .cons ⟨h.1, rfl, rfl⟩ hrun, hQ, hI⟩

/-- **A run goes through the first program and then through the second**, with what is left of the stream. -/
theorem run_bind (p : Prog R α) (f : α → Prog R β) (as : Nat → A) (w : W) :
    (p.bind f).run serve as w =
      let o := p.run serve as w
      let o' := (f o.value).run serve (fun n => as (n + o.trace.length)) o.world
      ⟨o'.value, o'.world, o.trace ++ o'.trace⟩ := by
  induction p generalizing as w with
  | ret a => rfl
  | call c k ih =>
    simp only [Prog.run, Prog.bind, ih, List.length_cons, List.cons_append]
    rfl

/-- A value computed from the result makes no call. -/
theorem run_map (p : Prog R α) (f : α → β) (as : Nat → A) (w : W) :
    (p.bind fun a => ret (f a)).run serve as w =
      ⟨f (p.run serve as w).value, (p.run serve as w).world, (p.run serve as w).trace⟩ := by
  induction p generalizing as w with
  | ret a => rfl
  | call c k ih => simp only [Prog.run, Prog.bind, ih]

/-- The answers of a run are those of the stream. -/
theorem mem_trace_run {p : Prog R α} {as : Nat → A} {w : W} {m : Made R A} (h : m ∈ (p.run serve as w).trace) :
    ∃ n, m.answer = as n := by
  induction p generalizing as w with
  | ret a => cases h
  | call c k ih =>
    rcases List.mem_cons.1 h with rfl | h
    · exact ⟨0, rfl⟩
    · obtain ⟨n, hn⟩ := ih _ h
      exact ⟨n + 1, hn⟩

end Run

/-! ## Judging a program alone -/

section Along

variable (serve : (c : C) → A → W → R c × W) (good : Made R A → Prop) (E : W → W → Prop)

/-- Run alone from `w`, on good answers, every call changes the world as `E` allows, and at the
return `Q` holds. -/
def Along : Prog R α → W → (α → W → Prop) → Prop
  | ret a, w, Q => Q a w
  | call c k, w, Q => ∀ a, good ⟨c, a, (serve c a w).1⟩ →
      E w (serve c a w).2 ∧ Along (k (serve c a w).1) (serve c a w).2 Q

variable {serve good E}

theorem Along.mono {good' : Made R A → Prop} {p : Prog R α} {w : W} {Q Q' : α → W → Prop}
    (h : Along serve good E p w Q)
    (hgood : ∀ m, good' m → good m) (hQ : ∀ a w, Q a w → Q' a w) : Along serve good' E p w Q' := by
  induction p generalizing w with
  | ret a => exact hQ _ _ h
  | call c k ih => exact fun a ha => ⟨(h a (hgood _ ha)).1, ih _ (h a (hgood _ ha)).2⟩

theorem Along.bind {p : Prog R α} {f : α → Prog R β} {w : W} {Q : β → W → Prop}
    (h : Along serve good E p w fun a w' => Along serve good E (f a) w' Q) : Along serve good E (p.bind f) w Q := by
  induction p generalizing w with
  | ret a => exact h
  | call c k ih => exact fun a ha => ⟨(h a ha).1, ih _ (h a ha).2⟩

/-- What every change of the world keeps holds at the return. -/
theorem Along.keeps {I : W → Prop} {p : Prog R α} {w : W} {Q : α → W → Prop}
    (h : Along serve good E p w Q) (hw : I w)
    (hE : ∀ w w', E w w' → I w → I w') : Along serve good E p w fun a w' => Q a w' ∧ I w' := by
  induction p generalizing w with
  | ret a => exact ⟨h, hw⟩
  | call c k ih => exact fun a ha => ⟨(h a ha).1, ih _ (h a ha).2 (hE _ _ (h a ha).1 hw)⟩

/-- A run whose answers are good ends as the program is judged to. -/
theorem Along.run {p : Prog R α} {w : W} {Q : α → W → Prop} (h : Along serve good E p w Q) (as : Nat → A)
    (hgood : ∀ m ∈ (p.run serve as w).trace, good m) : Q (p.run serve as w).value (p.run serve as w).world := by
  induction p generalizing as w with
  | ret a => exact h
  | call c k ih =>
    have hfirst := h (as 0) (hgood _ List.mem_cons_self)
    exact ih _ hfirst.2 _ fun m hm => hgood m (List.mem_cons_of_mem _ hm)

/-- A program that keeps to a protocol, each of whose allowed calls changes the world as `E` allows. -/
theorem Sat.along {P : Protocol R γ} {g : γ} {Q : γ → α → Prop} {p : Prog R α} {w : W} (h : Sat P g p Q)
    (hadmits : ∀ c a w, P.admits c (serve c a w).1) (hE : ∀ g c a w, P.allows g c → E w (serve c a w).2) :
    Along serve good E p w fun _ _ => True := by
  induction p generalizing g w with
  | ret a => trivial
  | call c k ih => exact fun a _ => ⟨hE g c a w h.1, ih _ (h.2 _ (hadmits c a w))⟩

end Along

/-! ## Running among others -/

/-- A program under way: what it was started as, the calls it has made and what is left of it. -/
structure Thread (R : C → Type) (α A τ : Type) where
  tag : τ
  made : List (Made R A)
  rest : Prog R α

structure Pool (R : C → Type) (α A W τ : Type) where
  world : W
  threads : List (Thread R α A τ)

/-- A program is started, or the `i`-th makes its next call. -/
inductive Act (A τ : Type)
  | spawn (t : τ)
  | turn (i : Nat) (a : A)

section Pool

variable (serve : (c : C) → A → W → R c × W) (program : τ → Prog R α)

def Pool.next (p : Pool R α A W τ) : Act A τ → Option (Pool R α A W τ)
  | .spawn t => some ⟨p.world, p.threads ++ [⟨t, [], program t⟩]⟩
  | .turn i a =>
    match p.threads[i]? with
    | some ⟨tag, made, call c k⟩ => some ⟨(serve c a p.world).2,
        p.threads.set i ⟨tag, made ++ [⟨c, a, (serve c a p.world).1⟩], k (serve c a p.world).1⟩⟩
    | _ => none

/-- The call a step makes. -/
def Pool.calling? (p : Pool R α A W τ) : Act A τ → Option C
  | .turn i _ =>
    match p.threads[i]? with
    | some ⟨_, _, call c _⟩ => some c
    | _ => none
  | .spawn _ => none

/-- The programs that a step does not move. -/
def Pool.others (p : Pool R α A W τ) : Act A τ → List (Thread R α A τ)
  | .turn i _ => p.threads.eraseIdx i
  | .spawn _ => p.threads

instance {o : Option C} {G : C → Prop} [DecidablePred G] : Decidable (∀ c, o = some c → G c) :=
  match o with
  | none => isTrue nofun
  | some c => decidable_of_iff (G c) ⟨fun h _ hc => Option.some.inj hc ▸ h, fun h => h c rfl⟩

/-- The program has not returned. -/
def Thread.Active (t : Thread R α A τ) : Prop := ∀ a, t.rest ≠ ret a

instance (t : Thread R α A τ) : Decidable t.Active :=
  match h : t.rest with
  | ret a => isFalse fun hact => hact a h
  | call _ _ => isTrue fun _ ha => nomatch h.symm.trans ha

def Pool.Step (p : Pool R α A W τ) (act : Act A τ) (p' : Pool R α A W τ) : Prop :=
  p.next serve program act = some p'

variable {serve program} {p p' : Pool R α A W τ} {act : Act A τ} {acts : List (Act A τ)}

/-- **What a step of a pool does.** -/
theorem Pool.step_cases (h : p.Step serve program act p') :
    (∃ tag, act = .spawn tag ∧ p' = ⟨p.world, p.threads ++ [⟨tag, [], program tag⟩]⟩) ∨
    ∃ i a tag made c k, act = .turn i a ∧ p.threads[i]? = some ⟨tag, made, call c k⟩ ∧
      p' = ⟨(serve c a p.world).2,
      p.threads.set i ⟨tag, made ++ [⟨c, a, (serve c a p.world).1⟩], k (serve c a p.world).1⟩⟩ := by
  unfold Pool.Step at h
  cases act with
  | spawn tag =>
    cases h
    exact .inl ⟨tag, rfl, rfl⟩
  | turn i a =>
    unfold Pool.next at h
    dsimp only at h
    split at h
    · rename_i tag made c k ht
      cases h
      exact .inr ⟨i, a, tag, made, c, k, rfl, ht, rfl⟩
    · cases h

/-- After a turn: the thread that was moved, or another, which is what it was. -/
theorem getElem?_turn {ts : List (Thread R α A τ)} {i j : Nat} {t t' x : Thread R α A τ} (hi : ts[i]? = some t)
    (hj : (ts.set i t')[j]? = some x) : (j = i ∧ x = t') ∨ (j ≠ i ∧ ts[j]? = some x) := by
  by_cases hji : j = i
  · subst hji
    rw [List.getElem?_set_self (List.getElem?_eq_some_iff.1 hi).1] at hj
    exact .inl ⟨rfl, (Option.some.inj hj).symm⟩
  · rw [List.getElem?_set_ne (Ne.symm hji)] at hj
    exact .inr ⟨hji, hj⟩

/-- After a program was started: one of the threads before, or the new one. -/
theorem getElem?_spawn {ts : List (Thread R α A τ)} {j : Nat} {t x : Thread R α A τ}
    (hj : (ts ++ [t])[j]? = some x) :
    ts[j]? = some x ∨ (j = ts.length ∧ x = t) := by
  rcases Nat.lt_or_ge j ts.length with hlt | hge
  · rw [List.getElem?_append_left hlt] at hj
    exact .inl hj
  · obtain ⟨hlen, hget⟩ := List.getElem?_eq_some_iff.1 hj
    rw [List.length_append, List.length_singleton] at hlen
    obtain rfl : j = ts.length := by omega
    rw [List.getElem?_concat_length] at hj
    exact .inr ⟨rfl, (Option.some.inj hj).symm⟩

variable (P : τ → Protocol R γ) (start : τ → γ)

/-- Where a thread stands in its protocol. -/
def Thread.state (t : Thread R α A τ) : γ := t.made.foldl (fun g m => (P t.tag).next g m.call m.result) (start t.tag)

/-- The world has the property the programs rely on, and every thread keeps to its protocol for
the rest of its run. -/
structure Pool.Conforms (I : W → Prop) (Q : τ → γ → α → Prop) (p : Pool R α A W τ) : Prop where
  world : I p.world
  sat : ∀ t ∈ p.threads, Sat (P t.tag) (t.state P start) t.rest (Q t.tag)

variable {P start} {I : W → Prop} {Q : τ → γ → α → Prop}

theorem Thread.state_turn {tag : τ} {made : List (Made R A)} {rest : Prog R α} {m : Made R A} (rest' : Prog R α) :
    Thread.state P start ⟨tag, made ++ [m], rest⟩ =
      (P tag).next (Thread.state P start ⟨tag, made, rest'⟩) m.call m.result := by
  simp [Thread.state, List.foldl_append]

theorem Pool.Conforms.allows {i : Nat} {tag : τ} {made : List (Made R A)} {c : C} {k : R c → Prog R α}
    (hp : p.Conforms P start I Q) (ht : p.threads[i]? = some ⟨tag, made, call c k⟩) :
    (P tag).allows (Thread.state P start ⟨tag, made, call c k⟩) c :=
  (hp.sat _ (List.mem_of_getElem? ht)).1

/-- The call a step makes is one its program may make. -/
theorem Pool.Conforms.calling {c : C} (hp : p.Conforms P start I Q) (hc : p.calling? act = some c) :
    ∃ tag g, (P tag).allows g c := by
  cases act with
  | spawn => cases hc
  | turn i a =>
    cases ht : p.threads[i]? with
    | none => simp [Pool.calling?, ht] at hc
    | some t =>
      obtain ⟨tag, made, rest⟩ := t
      cases rest with
      | ret res => simp [Pool.calling?, ht] at hc
      | call c' k =>
        obtain rfl : c' = c := by simpa [Pool.calling?, ht] using hc
        exact ⟨tag, _, hp.allows ht⟩

/-- **A pool of programs that keep to their protocols conforms**, whatever the order of the steps. -/
theorem Pool.Conforms.step (hK : ∀ tag, (P tag).Kept serve I)
    (hprog : ∀ tag, Sat (P tag) (start tag) (program tag) (Q tag)) (h : p.Step serve program act p')
    (hp : p.Conforms P start I Q) : p'.Conforms P start I Q := by
  rcases step_cases h with ⟨tag, -, rfl⟩ | ⟨i, a, tag, made, c, k, -, ht, rfl⟩
  · refine ⟨hp.world, fun t ht => ?_⟩
    rcases List.mem_append.1 ht with ht | ht
    · exact hp.sat t ht
    · obtain rfl := List.mem_singleton.1 ht
      exact hprog tag
  · refine ⟨(hK tag).kept hp.world (hp.allows ht), fun t' ht' => ?_⟩
    rcases List.mem_or_eq_of_mem_set ht' with ht' | rfl
    · exact hp.sat t' ht'
    · have hsat := hp.sat _ (List.mem_of_getElem? ht)
      dsimp only
      rw [Thread.state_turn (call c k)]
      exact hsat.2 _ ((hK tag).admits hp.world)

end Pool

/-! ## One after the other -/

section Solo

variable (serve : (c : C) → A → W → R c × W) (program : τ → Prog R α)

/-- A step of a pool in which no program starts before the others have returned. -/
def Pool.SoloStep (p : Pool R α A W τ) (act : Act A τ) (p' : Pool R α A W τ) : Prop :=
  p.Step serve program act p' ∧ ∀ tag, act = .spawn tag → ∀ t ∈ p.threads, ¬ t.Active

/-- At most one program is under way, and it is judged to keep to its relation. -/
structure Pool.Solo (E : τ → W → W → Prop) (p : Pool R α A W τ) : Prop where
  one : ∀ (i j : Nat) (t t' : Thread R α A τ), p.threads[i]? = some t → p.threads[j]? = some t' →
    t.Active → t'.Active → i = j
  along : ∀ t ∈ p.threads, Along serve (fun _ => True) (E t.tag) t.rest p.world fun _ _ => True

variable {serve program} {E : τ → W → W → Prop} {p p' : Pool R α A W τ} {act : Act A τ}

/-- A program that has returned is judged alike in every world. -/
theorem Along.of_not_active {t : Thread R α A τ} {w : W} {E : W → W → Prop} (h : ¬ t.Active) :
    Along serve (fun _ => True) E t.rest w fun _ _ => True := by
  cases hrest : t.rest with
  | ret a => trivial
  | call c k => exact absurd (fun a ha => nomatch hrest.symm.trans ha) h

/-- **One step of programs that do not overlap**: it changes the world as the one under way may. -/
theorem Pool.Solo.step (h : p.SoloStep serve program act p') (hp : p.Solo serve E)
    (hspawn : ∀ tag, act = .spawn tag → Along serve (fun _ => True) (E tag) (program tag) p.world fun _ _ => True) :
    p'.Solo serve E ∧ (p'.world = p.world ∨ ∃ t ∈ p.threads, E t.tag p.world p'.world) := by
  obtain ⟨hstep, hidle⟩ := h
  rcases step_cases hstep with ⟨tag, rfl, rfl⟩ | ⟨i, a, tag, made, c, k, rfl, ht, rfl⟩
  · have hnone : ∀ i t, (p.threads ++ [⟨tag, [], program tag⟩])[i]? = some t → t.Active →
        i = p.threads.length := by
      intro i t hi hact
      rcases Nat.lt_or_ge i p.threads.length with hlt | hge
      · rw [List.getElem?_append_left hlt] at hi
        exact absurd hact (hidle tag rfl t (List.mem_of_getElem? hi))
      · obtain ⟨hlen, -⟩ := List.getElem?_eq_some_iff.1 hi
        rw [List.length_append, List.length_singleton] at hlen
        omega
    refine ⟨⟨fun i j t t' hi hj ha ha' => (hnone i t hi ha).trans (hnone j t' hj ha').symm, fun t ht => ?_⟩,
      .inl rfl⟩
    rcases List.mem_append.1 ht with ht | ht
    · exact .of_not_active (hidle tag rfl t ht)
    · obtain rfl := List.mem_singleton.1 ht
      exact hspawn tag rfl
  · obtain ⟨hE, hrest⟩ := hp.along _ (List.mem_of_getElem? ht) a trivial
    have hact : Thread.Active ⟨tag, made, call c k⟩ := fun _ h => nomatch h
    have hold : ∀ j t, j ≠ i → p.threads[j]? = some t → ¬ t.Active := fun j t hj ht' ha =>
      hj (hp.one j i t _ ht' ht ha hact)
    have hlen := (List.getElem?_eq_some_iff.1 ht).1
    have hnone : ∀ j t, (p.threads.set i ⟨tag, made ++ [⟨c, a, (serve c a p.world).1⟩],
      k (serve c a p.world).1⟩)[j]? = some t →
        t.Active → j = i := by
      intro j t hj ha
      refine Decidable.byContradiction fun hne => ?_
      rw [List.getElem?_set_ne (Ne.symm hne)] at hj
      exact hold j t hne hj ha
    refine ⟨⟨fun j j' t t' hj hj' ha ha' => (hnone j t hj ha).trans (hnone j' t' hj' ha').symm, fun t htm => ?_⟩,
      .inr ⟨_, List.mem_of_getElem? ht, hE⟩⟩
    obtain ⟨j, hj⟩ := List.getElem?_of_mem htm
    by_cases hji : j = i
    · subst hji
      rw [List.getElem?_set_self hlen] at hj
      cases hj
      exact hrest
    · rw [List.getElem?_set_ne (Ne.symm hji)] at hj
      exact .of_not_active (hold j t hji hj)

end Solo

/-! ## Calls that can fail -/

section Task

variable {E : Type} {T : C → Type} {c : C}

/-- A program each of whose calls answers a value or an error, and that itself ends in either. -/
abbrev Task (E : Type) (T : C → Type) (α : Type) := ExceptT E (Prog fun c => Except E (T c)) α

/-- Make a call; its error ends the program. -/
def perform (c : C) : Task E T (T c) := ExceptT.mk (call c ret)

/-- Make a call; its error is one more answer. -/
def attempt (c : C) : Task E T (Except E (T c)) := ExceptT.mk (call c fun r => ret (.ok r))

/-- Go on with a value computed without a call. -/
def computed (x : Except E α) : Task E T α := ExceptT.mk (ret x)

variable {P : Protocol (fun c => Except E (T c)) γ} {g : γ} {Q : γ → Except E β → Prop}

theorem sat_perform {f : T c → Task E T β} (hc : P.allows g c)
    (hok : ∀ r, P.admits c (.ok r) → Sat P (P.next g c (.ok r)) (f r).run Q)
    (herr : ∀ e, Q (P.next g c (.error e)) (.error e)) : Sat P g (perform c >>= f).run Q := by
  refine ⟨hc, fun r hr => ?_⟩
  cases r with
  | ok r => exact hok r hr
  | error e => exact herr e

theorem sat_attempt {f : Except E (T c) → Task E T β} (hc : P.allows g c)
    (h : ∀ r, P.admits c r → Sat P (P.next g c r) (f r).run Q) : Sat P g (attempt c >>= f).run Q := ⟨hc, h⟩

theorem sat_computed {x : Except E α} {f : α → Task E T β} (hok : ∀ a, x = .ok a → Sat P g (f a).run Q)
    (herr : ∀ e, x = .error e → Q g (.error e)) : Sat P g (computed x >>= f).run Q := by
  cases hx : x with
  | ok a => exact hok a hx
  | error e => exact herr e hx

/-- **Sequencing**, where the first part may end the whole. -/
theorem sat_task_bind {x : Task E T α} {f : α → Task E T β} {M : γ → Except E α → Prop}
    (hx : Sat P g x.run M)
    (hok : ∀ g' a, M g' (.ok a) → Sat P g' (f a).run Q) (herr : ∀ g' e, M g' (.error e) → Q g' (.error e)) :
    Sat P g (x >>= f).run Q := by
  refine Sat.bind (hx.mono fun g' r hr => ?_)
  cases r with
  | ok a => exact hok g' a hr
  | error e => exact herr g' e hr

/-- A task alone: an error ends the whole. -/
theorem along_task_bind {serve : (c : C) → A → W → Except E (T c) × W}
    {good : Made (fun c => Except E (T c)) A → Prop}
    {G : W → W → Prop} {x : Task E T α} {f : α → Task E T β} {w : W} {Q : Except E β → W → Prop}
    (h : Along serve good G x.run w fun r w' => match r with
      | .ok a => Along serve good G (f a).run w' Q
      | .error e => Q (.error e) w') : Along serve good G (x >>= f).run w Q := by
  refine Along.bind (h.mono (fun _ hm => hm) fun r w' hr => ?_)
  cases r <;> exact hr

/-- The caller's `return` makes no call. -/
theorem run_task_map {serve : (c : C) → A → W → Except E (T c) × W} (x : Task E T α) (h : α → β)
    (as : Nat → A) (w : W) :
    (x >>= fun a => pure (h a)).run.run serve as w =
      ⟨(x.run.run serve as w).value.map h, (x.run.run serve as w).world, (x.run.run serve as w).trace⟩ := by
  have hrun : (x >>= fun a => pure (h a)).run = x.run.bind fun r => ret (r.map h) := by
    refine congrArg (Prog.bind x.run) (funext fun r => ?_)
    cases r <;> rfl
  rw [hrun, run_map]

end Task

end Prog
