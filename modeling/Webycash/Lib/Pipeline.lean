import Webycash.Lib.Effect
/-!
# Jobs done one after another

`oneAtATime` does the jobs of a list in order, between whatever else happens to the state, and
collects what each gives. A program is `InOrder` for a list of jobs when each of its calls does the
next of them and it returns what they gave, in order. Such a program may be run among others call by
call: each call is one job of a one-at-a-time execution (`InOrder.step`), and run alone it is that
execution (`InOrder.run`).
-/

/-- What happened to the state: a job was done, or something else changed it. -/
inductive JobEvent (J ω : Type)
  | job (j : J)
  | other (w : ω)

namespace JobEvent

variable {J ω σ ρ : Type}

def job? : JobEvent J ω → Option J
  | job j => some j
  | other _ => none

def other? : JobEvent J ω → Option ω
  | job _ => none
  | other w => some w

/-- What each job gives, and the state that is left. -/
def oneAtATime (perform : J → σ → ρ × σ) (disturb : ω → σ → σ) : List (JobEvent J ω) →
    σ → List ρ × σ
  | [], s => ([], s)
  | job j :: es, s =>
    let (r, s₁) := perform j s
    let (rs, s₂) := oneAtATime perform disturb es s₁
    (r :: rs, s₂)
  | other w :: es, s => oneAtATime perform disturb es (disturb w s)

variable {perform : J → σ → ρ × σ} {disturb : ω → σ → σ}

theorem oneAtATime_append : ∀ (es es' : List (JobEvent J ω)) (s : σ),
    oneAtATime perform disturb (es ++ es') s =
      ((oneAtATime perform disturb es s).1 ++ (oneAtATime perform disturb es' (oneAtATime perform disturb es s).2).1,
        (oneAtATime perform disturb es' (oneAtATime perform disturb es s).2).2)
  | [], _, _ => rfl
  | job j :: es, es', s => by
    simp only [List.cons_append, oneAtATime, oneAtATime_append es es']
  | other w :: es, es', s => by
    simp only [List.cons_append, oneAtATime, oneAtATime_append es es']

/-- One result a job. -/
theorem length_oneAtATime (perform : J → σ → ρ × σ) (disturb : ω → σ → σ) :
    ∀ (es : List (JobEvent J ω)) (s : σ),
    (oneAtATime perform disturb es s).1.length = (es.filterMap job?).length
  | [], _ => rfl
  | job j :: es, s => by
    simp only [oneAtATime, List.length_cons, length_oneAtATime perform disturb es, List.filterMap_cons, job?]
  | other w :: es, s => by
    simp only [oneAtATime, length_oneAtATime perform disturb es, List.filterMap_cons, job?]

/-- Where nothing else happens, the events are the jobs. -/
theorem eq_jobs : ∀ {es : List (JobEvent J ω)}, es.filterMap other? = [] → es = (es.filterMap job?).map job
  | [], _ => rfl
  | job j :: es, h => by
    simp only [List.filterMap_cons, other?, job?, List.map_cons] at h ⊢
    rw [← eq_jobs h]
  | other w :: es, h => by
    simp only [List.filterMap_cons, other?] at h
    cases h

end JobEvent

namespace Prog

variable {C : Type} {R : C → Type} {J ω σ ρ : Type}

/-- Each call does the next job, and the results are returned in order behind `acc`. -/
def InOrder (serve : (c : C) → σ → R c × σ) (perform : J → σ → ρ × σ) : List ρ → List J →
    Prog R (List ρ) → Prop
  | acc, [], p => p = ret acc
  | acc, j :: js, p => ∃ c k, p = call c k ∧
      ∀ s, (serve c s).2 = (perform j s).2 ∧ InOrder serve perform (acc ++ [(perform j s).1]) js (k (serve c s).1)

variable {serve : (c : C) → σ → R c × σ} {perform : J → σ → ρ × σ} {acc : List ρ} {js : List J}
  {p : Prog R (List ρ)}

/-- **A call of such a program is the next job.** -/
theorem InOrder.step {c : C} {k : R c → Prog R (List ρ)} (h : InOrder serve perform acc js (call c k)) (s : σ) :
    ∃ j rest, js = j :: rest ∧ (serve c s).2 = (perform j s).2 ∧
      InOrder serve perform (acc ++ [(perform j s).1]) rest (k (serve c s).1) := by
  cases js with
  | nil => cases (h : call c k = ret acc)
  | cons j rest =>
    obtain ⟨c', k', heq, hk⟩ := h
    cases heq
    exact ⟨j, rest, rfl, hk s⟩

/-- It returns when all are done. -/
theorem InOrder.returned {rs : List ρ} (h : InOrder serve perform acc js (ret rs)) : js = [] ∧ rs = acc := by
  cases js with
  | nil =>
    cases (h : ret rs = ret acc)
    exact ⟨rfl, rfl⟩
  | cons j rest =>
    obtain ⟨c, k, heq, -⟩ := h
    cases heq

/-- **Run alone, it does its jobs one at a time.** -/
theorem InOrder.run (h : InOrder serve perform acc js p) (s : σ) :
    let o := p.run (fun c (_ : Unit) => serve c) (fun _ => ()) s
    let jobs := JobEvent.oneAtATime perform (fun w : Empty => w.elim) (js.map .job) s
    o.value = acc ++ jobs.1 ∧ o.world = jobs.2 := by
  induction p generalizing acc js s with
  | ret rs =>
    obtain ⟨rfl, rfl⟩ := h.returned
    exact ⟨(List.append_nil _).symm, rfl⟩
  | call c k ih =>
    obtain ⟨j, rest, rfl, hs, hk⟩ := h.step s
    obtain ⟨hvalue, hworld⟩ := ih _ hk (serve c s).2
    rw [hs] at hvalue hworld
    simp only [Prog.run, List.map_cons, JobEvent.oneAtATime, hs]
    exact ⟨by rw [hvalue, List.append_assoc, List.singleton_append], hworld⟩

/-- The calls of a list, and the answers in order. -/
def callEach {R : Type} : List C → Prog (fun _ : C => R) (List R)
  | [] => ret []
  | c :: cs => call c fun r => (callEach cs).bind fun rs => ret (r :: rs)

/-- **Calling each is in order**, where every answer that can come is read on its own. -/
theorem inOrder_callEach {R : Type} {serve : C → σ → R × σ} (perform : J → σ → ρ × σ) (command : J → C)
    {answer : List R → List ρ} {good : R → Prop} {read : R → ρ}
    (hanswer : ∀ rs, (∀ r ∈ rs, good r) → answer rs = rs.map read)
    (hserve : ∀ j s, good (serve (command j) s).1 ∧
      perform j s = (read (serve (command j) s).1, (serve (command j) s).2)) :
    ∀ (js : List J) (before : List R), (∀ r ∈ before, good r) →
      InOrder serve perform (before.map read) js
        ((callEach (js.map command)).bind fun rs => ret (answer (before ++ rs)))
  | [], before, hbefore => by
    show ret (answer (before ++ [])) = ret (before.map read)
    rw [List.append_nil, hanswer before hbefore]
  | j :: js, before, hbefore => by
    refine ⟨command j, _, rfl, fun s => ?_⟩
    obtain ⟨hgood, hperform⟩ := hserve j s
    refine ⟨by rw [hperform], ?_⟩
    have hall : ∀ r ∈ before ++ [(serve (command j) s).1], good r := by
      intro r hr
      rcases List.mem_append.1 hr with hr | hr
      · exact hbefore r hr
      · rw [List.mem_singleton.1 hr]
        exact hgood
    have hrest := inOrder_callEach perform command hanswer hserve js (before ++ [(serve (command j) s).1]) hall
    rw [List.map_append, List.map_singleton] at hrest
    rw [hperform, bind_bind]
    simpa only [Prog.bind, List.append_assoc, List.singleton_append] using hrest

end Prog
