import Mathlib.Init
/-!
# Transactions that are run again

A client library runs the body of a transaction and commits what it wrote; when the commit fails
it runs the body again. A commit may fail with an unknown result, and then the next run of the
body starts from a store that may or may not hold the writes of the run before. The body is told
so by a flag.

A guarded body refuses a store that holds its own writes. For such a body the answer of the loop
is the truth about the store exactly when no write went in under an unknown result, or the body
refuses the store as it stands (`faithful_iff`).
-/

namespace Retry

/-- How a commit ended that is tried again. -/
inductive CommitError
  | conflict
  | unknownResult (applied : Bool)
  deriving DecidableEq

namespace CommitError

/-- The flag the next run of the body is given. -/
def maybeCommitted : CommitError → Bool
  | conflict => false
  | unknownResult _ => true

variable {σ : Type}

/-- The store the next run starts from. -/
def leaves (c : CommitError) (before after : σ) : σ := if c = unknownResult true then after else before

@[simp] theorem leaves_applied (s t : σ) : (unknownResult true).leaves s t = t := rfl

theorem leaves_of_ne {c : CommitError} (h : c ≠ unknownResult true) (s t : σ) : c.leaves s t = s := if_neg h

end CommitError

/-- A transaction body: the flag, what each run brings of its own, the store. -/
abbrev Body (τ σ ε : Type) := Bool → τ → σ → Except ε σ

section

variable {τ σ ε : Type}

/-- The retry loop. `tries` are the runs whose commit failed, `last` is the run that commits. -/
def run (body : Body τ σ ε) (last : τ) : Bool → List (τ × CommitError) → σ → Except ε Unit × σ
  | flag, [], s =>
    match body flag last s with
    | .error e => (.error e, s)
    | .ok s' => (.ok (), s')
  | flag, (t, c) :: tries, s =>
    match body flag t s with
    | .error e => (.error e, s)
    | .ok s' => run body last c.maybeCommitted tries (c.leaves s s')

/-- `Err` only where nothing was written, `Ok` only where everything was. -/
def Faithful (written : σ → Prop) (before : σ) (out : Except ε Unit × σ) : Prop :=
  (out.1 ≠ .ok () → out.2 = before) ∧ (out.1 = .ok () → written out.2)

/-- A body that runs to its end exactly on the stores it accepts, and accepts no store that holds
its writes. -/
structure Guarded (body : Body τ σ ε) (accepts written : σ → Prop) : Prop where
  ok_iff : ∀ flag t s, (∃ s', body flag t s = .ok s') ↔ accepts s
  written : ∀ {flag t s s'}, body flag t s = .ok s' → written s'
  once : ∀ {flag t s s'}, body flag t s = .ok s' → ¬ accepts s'

variable {body : Body τ σ ε} {accepts written : σ → Prop} {last : τ} {flag : Bool}
  {tries : List (τ × CommitError)} {s : σ}

theorem Guarded.refuses (hG : Guarded body accepts written) (h : ¬ accepts s) (flag : Bool) (t : τ) :
    ∃ e, body flag t s = .error e := by
  cases hb : body flag t s with
  | error e => exact ⟨e, rfl⟩
  | ok s' => exact absurd ((hG.ok_iff flag t s).1 ⟨s', hb⟩) h

/-- A store the body refuses stays as it is, whatever is tried. -/
theorem run_of_refused (hG : Guarded body accepts written) (h : ¬ accepts s) (last : τ) (flag : Bool)
    (tries : List (τ × CommitError)) :
    ∃ e, run body last flag tries s = (.error e, s) := by
  cases tries with
  | nil =>
    obtain ⟨e, he⟩ := hG.refuses h flag last
    exact ⟨e, by simp [run, he]⟩
  | cons x tries =>
    obtain ⟨e, he⟩ := hG.refuses h flag x.1
    exact ⟨e, by simp [run, he]⟩

theorem faithful_of_refused (hG : Guarded body accepts written) (h : ¬ accepts s) :
    Faithful written s (run body last flag tries s) := by
  obtain ⟨e, he⟩ := run_of_refused hG h last flag tries
  simp [Faithful, he]

/-- **When a retried transaction tells the truth.** The induction is on the failed commits; up to
the first that went in, every run starts from the same store. -/
theorem faithful_iff (hG : Guarded body accepts written) : Faithful written s (run body last flag tries s) ↔
    ¬ accepts s ∨ ∀ x ∈ tries, x.2 ≠ .unknownResult true := by
  by_cases hs : accepts s
  case neg => exact ⟨fun _ => Or.inl hs, fun _ => faithful_of_refused hG hs⟩
  simp only [hs, not_true_eq_false, false_or]
  induction tries generalizing flag with
  | nil =>
    obtain ⟨s', hb⟩ := (hG.ok_iff flag last s).2 hs
    simp [run, hb, Faithful, hG.written hb]
  | cons x tries ih =>
    obtain ⟨t, c⟩ := x
    obtain ⟨s', hb⟩ := (hG.ok_iff flag t s).2 hs
    have hstep : run body last flag ((t, c) :: tries) s = run body last c.maybeCommitted tries (c.leaves s s') := by
      simp only [run, hb]
    rw [hstep, List.forall_mem_cons]
    by_cases hc : c = .unknownResult true
    · -- the writes are in: the next run finds them and refuses
      subst hc
      obtain ⟨e, he⟩ := run_of_refused hG (hG.once hb) last
        (CommitError.maybeCommitted (.unknownResult true)) tries
      have hne : s' ≠ s := fun h => hG.once hb (h ▸ hs)
      simp [he, Faithful, hne]
    · rw [CommitError.leaves_of_ne hc, ih]
      simp [hc]

/-- A body that accepts every store always ends in a commit. -/
theorem faithful_of_total (h : ∀ flag t s, ∃ s', body flag t s = .ok s' ∧ written s') :
    Faithful written s (run body last flag tries s) := by
  suffices hok : ∀ tries flag s₁, (run body last flag tries s₁).1 = .ok () ∧
    written (run body last flag tries s₁).2 from
    ⟨fun hne => absurd (hok tries flag s).1 hne, fun _ => (hok tries flag s).2⟩
  intro tries
  induction tries with
  | nil =>
    intro flag s₁
    obtain ⟨s', hb, hw⟩ := h flag last s₁
    simp [run, hb, hw]
  | cons x tries ih =>
    intro flag s₁
    obtain ⟨s', hb, -⟩ := h flag x.1 s₁
    simp only [run, hb]
    exact ih _ _

end

end Retry
