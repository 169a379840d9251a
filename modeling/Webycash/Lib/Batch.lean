import Webycash.Lib.Spend
import Mathlib.Data.List.Nodup
/-!
# Closing seals in batches

A `Closer` closes one seal at a time: an open one is closed, anything else is refused and leaves
the state alone. `closeEach` tries every item of a batch and reports the first refusal,
`closeUntil` stops there. Both report success for the same batches (`Whole`): distinct open
seals. They differ in when a refused batch leaves no trace: `closeEach` needs all its seals
not open, `closeUntil` only the first.
-/

/-- A store of seals that are closed one at a time. -/
structure Closer (α δ κ ε : Type) where
  seals : δ → Seals κ
  key : α → κ
  close : α → δ → Except ε Unit × δ
  spec : ∀ a d, (seals d (key a) ≠ some false ∧ ∃ e, close a d = (.error e, d)) ∨
    (seals d (key a) = some false ∧ (close a d).1 = .ok () ∧
      Seals.Exchanged (seals d) (seals (close a d).2) [key a] [])

namespace Closer

variable {α δ κ ε : Type} (C : Closer α δ κ ε) {a : α} {l : List α} {d : δ} {k : κ}

/-- Try every item; the first refusal is the answer. -/
def closeEach : List α → δ → Except ε Unit × δ
  | [], d => (.ok (), d)
  | a :: l, d =>
    match C.close a d with
    | (.ok (), d₁) => closeEach l d₁
    | (.error e, d₁) => (.error e, (closeEach l d₁).2)

/-- Stop at the first refusal. -/
def closeUntil : List α → δ → Except ε Unit × δ
  | [], d => (.ok (), d)
  | a :: l, d =>
    match C.close a d with
    | (.ok (), d₁) => closeUntil l d₁
    | (.error e, d₁) => (.error e, d₁)

/-- Distinct open seals. -/
def Whole (l : List α) (d : δ) : Prop := (l.map C.key).Nodup ∧ (C.seals d).Open (l.map C.key)

variable {C}

theorem open_ok (h : C.seals d (C.key a) = some false) : (C.close a d).1 = .ok () := by
  rcases C.spec a d with ⟨hnot, -⟩ | ⟨-, hok, -⟩
  · exact absurd h hnot
  · exact hok

theorem open_closed (h : C.seals d (C.key a) = some false) : C.seals (C.close a d).2 (C.key a) = some true := by
  rcases C.spec a d with ⟨hnot, -⟩ | ⟨-, -, hex⟩
  · exact absurd h hnot
  · exact hex.closed _ (List.mem_singleton_self _)

theorem refused (h : C.seals d (C.key a) ≠ some false) : ∃ e, C.close a d = (.error e, d) := by
  rcases C.spec a d with ⟨-, he⟩ | ⟨hopen, -⟩
  · exact he
  · exact absurd hopen h

theorem frame (hk : k ≠ C.key a) : C.seals (C.close a d).2 k = C.seals d k := by
  rcases C.spec a d with ⟨-, e, he⟩ | ⟨-, -, hex⟩
  · rw [he]
  · exact hex.frame k (by simpa using hk) (by simp)

theorem close_open (h : C.seals d (C.key a) = some false) : C.close a d = (.ok (), (C.close a d).2) :=
  Prod.ext (open_ok h) rfl

theorem closeEach_cons_open (h : C.seals d (C.key a) = some false) :
    C.closeEach (a :: l) d = C.closeEach l (C.close a d).2 := by
  rw [closeEach, close_open h]

theorem closeUntil_cons_open (h : C.seals d (C.key a) = some false) :
    C.closeUntil (a :: l) d = C.closeUntil l (C.close a d).2 := by
  rw [closeUntil, close_open h]

theorem closeEach_cons_refused (h : C.seals d (C.key a) ≠ some false) :
    (∃ e, (C.closeEach (a :: l) d).1 = .error e) ∧ (C.closeEach (a :: l) d).2 = (C.closeEach l d).2 := by
  obtain ⟨e, he⟩ := refused h
  rw [closeEach, he]
  exact ⟨⟨e, rfl⟩, rfl⟩

theorem closeUntil_cons_refused (h : C.seals d (C.key a) ≠ some false) :
    ∃ e, C.closeUntil (a :: l) d = (.error e, d) := by
  obtain ⟨e, he⟩ := refused h
  rw [closeUntil, he]
  exact ⟨e, rfl⟩

theorem closeEach_singleton : C.closeEach [a] d = C.close a d := by
  rw [closeEach]
  rcases C.close a d with ⟨e | u, d₁⟩ <;> rfl

theorem closeUntil_singleton : C.closeUntil [a] d = C.close a d := by
  rw [closeUntil]
  rcases C.close a d with ⟨e | u, d₁⟩ <;> rfl

/-- One close is a spend. -/
theorem spends (C : Closer α δ κ ε) [DecidableEq ε] (a : α) (d : δ) :
    Seals.Spends (C.seals d) (C.seals (C.close a d).2) [C.key a] (decide ((C.close a d).1 = .ok ())) := by
  rcases C.spec a d with ⟨-, e, he⟩ | ⟨hopen, hok, hex⟩
  · rw [he, decide_eq_false (by simp)]
    exact .failed fun _ => Iff.rfl
  · rw [decide_eq_true hok]
    exact .of_exchanged hex (by simpa [Seals.Open] using hopen) (by simp [Seals.Fresh]) (by simp)

/-- Closing the first seal leaves a whole rest exactly when the batch was whole. -/
theorem whole_cons (h : C.seals d (C.key a) = some false) : C.Whole (a :: l) d ↔ C.Whole l (C.close a d).2 := by
  simp only [Whole, Seals.Open, List.map_cons, List.nodup_cons, List.mem_cons, forall_eq_or_imp, h, true_and]
  constructor
  · rintro ⟨⟨hnot, hnd⟩, hopen⟩
    refine ⟨hnd, fun k hk => ?_⟩
    have hne : k ≠ C.key a := fun e => hnot (e ▸ hk)
    rw [frame hne, hopen k hk]
  · rintro ⟨hnd, hopen⟩
    have hnot : C.key a ∉ l.map C.key := fun hk => by
      have := hopen _ hk
      rw [open_closed h] at this
      cases this
    refine ⟨⟨hnot, hnd⟩, fun k hk => ?_⟩
    have hne : k ≠ C.key a := fun e => hnot (e ▸ hk)
    rw [← frame hne, hopen k hk]

theorem not_whole_cons (h : C.seals d (C.key a) ≠ some false) : ¬ C.Whole (a :: l) d :=
  fun hw => h (hw.2 _ (by simp))

theorem closeEach_ok_iff : (C.closeEach l d).1 = .ok () ↔ C.Whole l d := by
  induction l generalizing d with
  | nil => simp [closeEach, Whole, Seals.Open]
  | cons a l ih =>
    by_cases h : C.seals d (C.key a) = some false
    · rw [closeEach_cons_open h, ih, whole_cons h]
    · obtain ⟨⟨e, he⟩, -⟩ := closeEach_cons_refused (l := l) h
      simp [he, not_whole_cons h]

theorem closeUntil_ok_iff : (C.closeUntil l d).1 = .ok () ↔ C.Whole l d := by
  induction l generalizing d with
  | nil => simp [closeUntil, Whole, Seals.Open]
  | cons a l ih =>
    by_cases h : C.seals d (C.key a) = some false
    · rw [closeUntil_cons_open h, ih, whole_cons h]
    · obtain ⟨e, he⟩ := closeUntil_cons_refused (l := l) h
      simp [he, not_whole_cons h]

/-- No batch reopens a seal. -/
theorem closeEach_final : (C.seals d).Final (C.seals (C.closeEach l d).2) := by
  induction l generalizing d with
  | nil => exact .refl _
  | cons a l ih =>
    by_cases h : C.seals d (C.key a) = some false
    · rw [closeEach_cons_open h]
      refine Seals.Final.trans (fun k hk => ?_) ih
      have hne : k ≠ C.key a := by rintro rfl; rw [h] at hk; cases hk
      rw [frame hne, hk]
    · rw [(closeEach_cons_refused h).2]
      exact ih

theorem closeUntil_final : (C.seals d).Final (C.seals (C.closeUntil l d).2) := by
  induction l generalizing d with
  | nil => exact .refl _
  | cons a l ih =>
    by_cases h : C.seals d (C.key a) = some false
    · rw [closeUntil_cons_open h]
      refine Seals.Final.trans (fun k hk => ?_) ih
      have hne : k ≠ C.key a := by rintro rfl; rw [h] at hk; cases hk
      rw [frame hne, hk]
    · obtain ⟨e, he⟩ := closeUntil_cons_refused (l := l) h
      rw [he]
      exact .refl _

/-- **Whatever is open gets closed**, also in a batch that is refused. -/
theorem closeEach_closes (hk : k ∈ l.map C.key) (ho : C.seals d k = some false) :
    C.seals (C.closeEach l d).2 k = some true := by
  induction l generalizing d with
  | nil => simp at hk
  | cons a l ih =>
    rw [List.map_cons, List.mem_cons] at hk
    by_cases h : C.seals d (C.key a) = some false
    · rw [closeEach_cons_open h]
      by_cases he : k = C.key a
      · subst he
        exact closeEach_final _ (open_closed h)
      · exact ih (hk.resolve_left he) (by rw [frame he, ho])
    · rw [(closeEach_cons_refused h).2]
      have hne : k ≠ C.key a := by rintro rfl; exact h ho
      exact ih (hk.resolve_left hne) ho

theorem closeUntil_closes_head (h : C.seals d (C.key a) = some false) :
    C.seals (C.closeUntil (a :: l) d).2 (C.key a) = some true := by
  rw [closeUntil_cons_open h]
  exact closeUntil_final _ (open_closed h)

/-- A whole batch closes all its seals. -/
theorem closeUntil_closes (hw : C.Whole l d) (hk : k ∈ l.map C.key) : C.seals (C.closeUntil l d).2 k = some true := by
  induction l generalizing d with
  | nil => simp at hk
  | cons a l ih =>
    have h : C.seals d (C.key a) = some false := hw.2 _ (by simp)
    rw [List.map_cons, List.mem_cons] at hk
    rcases hk with rfl | hk
    · exact closeUntil_closes_head h
    · rw [closeUntil_cons_open h]
      exact ih ((whole_cons h).1 hw) hk

theorem closeEach_of_none_open (h : ∀ k ∈ l.map C.key, C.seals d k ≠ some false) : (C.closeEach l d).2 = d := by
  induction l with
  | nil => rfl
  | cons a l ih =>
    rw [List.map_cons] at h
    rw [(closeEach_cons_refused (h _ List.mem_cons_self)).2]
    exact ih fun k hk => h k (List.mem_cons_of_mem _ hk)

/-! ## All or nothing -/

variable {τ : Type} (log : δ → τ)

/-- A refused batch closed nothing and logged nothing; a batch that went through closed every
seal it lists, each once. -/
def AllOrNothing (C : Closer α δ κ ε) (log : δ → τ) (l : List α) (d : δ)
    (result : Except ε Unit × δ) : Prop :=
  (result.1 ≠ .ok () → (∀ k, C.seals result.2 k = some true → C.seals d k = some true) ∧
    log result.2 = log d) ∧
    (result.1 = .ok () → (l.map C.key).Nodup ∧ ∀ k ∈ l.map C.key, C.seals d k = some false ∧
      C.seals result.2 k = some true)

/-- **Trying every item is all or nothing** exactly for batches with distinct open seals and for
batches with no open seal. -/
theorem closeEach_allOrNothing_iff :
    C.AllOrNothing log l d (C.closeEach l d) ↔ C.Whole l d ∨ ∀ k ∈ l.map C.key, C.seals d k ≠ some false := by
  constructor
  · rintro ⟨herr, -⟩
    by_cases hw : C.Whole l d
    · exact Or.inl hw
    · refine Or.inr fun k hk ho => ?_
      have hsame := (herr fun hok => hw (closeEach_ok_iff.1 hok)).1 k (closeEach_closes hk ho)
      rw [ho] at hsame
      cases hsame
  · intro h
    refine ⟨fun herr => ?_, fun hok => ?_⟩
    · have hnone := h.resolve_left fun hw => herr (closeEach_ok_iff.2 hw)
      rw [closeEach_of_none_open hnone]
      exact ⟨fun _ hk => hk, rfl⟩
    · have hw := closeEach_ok_iff.1 hok
      exact ⟨hw.1, fun k hk => ⟨hw.2 k hk, closeEach_closes hk (hw.2 k hk)⟩⟩

/-- **Stopping at the first refusal is all or nothing** exactly for batches with distinct open
seals and for batches whose first seal is not open. -/
theorem closeUntil_allOrNothing_iff :
    C.AllOrNothing log l d (C.closeUntil l d) ↔ C.Whole l d ∨ ∀ a, l.head? = some a →
      C.seals d (C.key a) ≠ some false := by
  constructor
  · rintro ⟨herr, -⟩
    by_cases hw : C.Whole l d
    · exact Or.inl hw
    · refine Or.inr fun a ha ho => ?_
      obtain ⟨l, rfl⟩ := List.head?_eq_some_iff.1 ha
      have hsame := (herr fun hok => hw (closeUntil_ok_iff.1 hok)).1 _ (closeUntil_closes_head ho)
      rw [ho] at hsame
      cases hsame
  · intro h
    refine ⟨fun herr => ?_, fun hok => ?_⟩
    · have hfirst := h.resolve_left fun hw => herr (closeUntil_ok_iff.2 hw)
      cases l with
      | nil => exact absurd rfl herr
      | cons a l =>
        obtain ⟨e, he⟩ := closeUntil_cons_refused (l := l) (hfirst a rfl)
        rw [he]
        exact ⟨fun _ hk => hk, rfl⟩
    · have hw := closeUntil_ok_iff.1 hok
      exact ⟨hw.1, fun k hk => ⟨hw.2 k hk, closeUntil_closes hw hk⟩⟩

end Closer
