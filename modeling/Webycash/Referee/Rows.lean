import Webycash.Referee.Serial
/-!
# The rows of a swap

Calls that do not overlap, and what they do to the store. A call writes the row of its own swap
only, every row it writes is the projection of its state (`Transaction.Flat`), and it carries the
agreed terms of the row that was there on (`Transaction.Continues`). `along_start`, `along_advance`
and `along_cancel` say this of the entry points, write by write, whatever the collaborators answer;
they also say what an `advance_swap` that succeeds has done (`Transaction.AdvancesTo`).
-/

namespace Webycash.Referee

open Prog

/-! ## What a row shows -/

/-- The projection for the user is that of the state and the phase. -/
structure Transaction.Flat (tx : Transaction) : Prop where
  swapId : tx.swapId = tx.stateBlob.inner.id
  phase : tx.phase = tx.stateBlob.phase
  status : tx.status = .forPhase tx.stateBlob.phase
  terminal : tx.terminal = tx.stateBlob.phase.isTerminal
  bobPgpFp : tx.bobPgpFp = tx.stateBlob.inner.parties.bobPgpFp
  alicePgpFp : tx.alicePgpFp = tx.stateBlob.inner.parties.alicePgpFp
  webcashPublicHash : tx.webcashPublicHash = tx.stateBlob.inner.bob.hB
  vtxoOutpointHash : tx.vtxoOutpointHash = tx.stateBlob.inner.alice.vtxo
  txSettleHash : tx.txSettleHash = tx.stateBlob.inner.alice.txSettleHash
  txRefundHash : tx.txRefundHash = tx.stateBlob.inner.alice.txRefundHash
  insertPushAttempts : tx.insertPushAttempts = tx.stateBlob.inner.insertPushAttempts

/-- What was agreed when the swap began, and the contract once there is one. -/
structure Transaction.Continues (tx tx' : Transaction) : Prop where
  terms : tx.stateBlob.inner.SameTerms tx'.stateBlob.inner
  refereeSessions : tx'.stateBlob.inner.refereeSessions = tx.stateBlob.inner.refereeSessions
  createdAtUnix : tx'.createdAtUnix = tx.createdAtUnix
  htlcRefundContractId : ∀ cid, tx.htlcRefundContractId = some cid → tx'.htlcRefundContractId = some cid

theorem Transaction.Continues.refl (tx : Transaction) : tx.Continues tx := ⟨.refl _, rfl, rfl, fun _ h => h⟩

theorem Transaction.Continues.trans {a b c : Transaction} (h : a.Continues b) (h' : b.Continues c) : a.Continues c :=
  ⟨h.terms.trans h'.terms, h'.refereeSessions.trans h.refereeSessions, h'.createdAtUnix.trans h.createdAtUnix,
    fun cid hc => h'.htlcRefundContractId cid (h.htlcRefundContractId cid hc)⟩

/-- The first push and the retries the budget leaves. -/
def Orchestrator.pushBudget (o : Orchestrator) : Nat := max 1 o.insertPushRetry.toNat

/-- What holds of every row of the store. -/
structure Transaction.Sound (o : Orchestrator) (id : SwapId) (tx : Transaction) : Prop where
  filed : tx.swapId = id
  flat : tx.Flat
  attempts : tx.stateBlob.inner.insertPushAttempts.toNat ≤ o.pushBudget

def World.Sound (o : Orchestrator) (w : World) : Prop := ∀ id tx, w.rows.lookup id = some tx → tx.Sound o id

theorem World.sound_empty (o : Orchestrator) : World.empty.Sound o := by
  intro id tx h
  cases h

theorem Transaction.Sound.wellFormed {o : Orchestrator} {id : SwapId} {tx : Transaction} (h : tx.Sound o id) :
    tx.WellFormed id :=
  ⟨h.filed, h.flat.swapId.symm.trans h.filed, h.flat.phase ▸ h.flat.status, h.flat.phase ▸ h.flat.terminal⟩

/-- What a call on a swap may do to the store. -/
structure Edits (o : Orchestrator) (id : SwapId) (w w' : World) : Prop where
  others : ∀ i, i ≠ id → w'.rows.lookup i = w.rows.lookup i
  own : w'.rows.lookup id = w.rows.lookup id ∨ ∃ tx', w'.rows.lookup id = some tx' ∧ tx'.Sound o id ∧
    (w.rows.lookup id = none → tx'.phase = .init) ∧ ∀ tx, w.rows.lookup id = some tx → tx.Continues tx'

/-- A row after another, as `advance_swap` makes it when it succeeds. -/
def Transaction.AdvancesTo (o : Orchestrator) (tx tx' : Transaction) : Prop :=
  match tx.phase with
  | .insertPushed => tx'.phase = .settled ∨ tx'.phase = .aborted ∨ (tx'.phase = .insertPushed ∧
      tx.stateBlob.inner.insertPushAttempts < o.insertPushRetry ∧
      tx'.stateBlob.inner.insertPushAttempts = tx.stateBlob.inner.insertPushAttempts + 1)
  | .aborted => tx'.phase = .invalidated
  | .invalidated => tx'.phase = .refunded
  | _ => tx' = tx

variable {sv : Services} {o : Orchestrator} {id : SwapId} {w w' : World}

theorem Edits.of_rows (h : w'.rows = w.rows) : Edits o id w w' := ⟨fun _ _ => by rw [h], .inl (by rw [h])⟩

theorem World.Sound.edits (hw : w.Sound o) (h : Edits o id w w') : w'.Sound o := by
  intro i tx htx
  by_cases hi : i = id
  · subst hi
    rcases h.own with hsame | ⟨tx', hrow, hsound, -⟩
    · exact hw i tx (hsame ▸ htx)
    · rw [hrow] at htx
      cases htx
      exact hsound
  · exact hw i tx ((h.others i hi).symm.trans htx)

/-- A row that is written. -/
theorem Edits.of_insert {tx' : Transaction} (hsound : tx'.Sound o id) (hrows : w'.rows = w.rows.insert tx'.swapId tx')
    (hinit : w.rows.lookup id = none → tx'.phase = .init)
    (hold : ∀ tx, w.rows.lookup id = some tx → tx.Continues tx') : Edits o id w w' where
  others i hi := by rw [hrows, FMap.lookup_insert_ite, hsound.filed, if_neg hi]
  own := .inr ⟨tx', by rw [hrows, FMap.lookup_insert_ite, hsound.filed, if_pos rfl], hsound, hinit, hold⟩

/-! ## Rules -/

section

variable (sv o id)

/-- Where nothing fails, every call answers a value. -/
def Answers (smooth : Prop) (m : Made (fun c => Except RefereeError (Call.Result c)) Answer) : Prop :=
  smooth → ∃ v, m.result = .ok v

/-- A program alone, in terms of the store; `smooth` says that nothing fails. -/
abbrev Writes (smooth : Prop) {α : Type} (p : Prog (fun c => Except RefereeError (Call.Result c)) α) (w : World)
    (Q : α → World → Prop) : Prop := Along (World.serve sv) (Answers smooth) (Edits o id) p w Q

end

/-- Where something fails, an error may come back. -/
def Tolerant {β : Type} (smooth : Prop) (Q : Except RefereeError β → World → Prop) : Prop :=
  ∀ e w, ¬ smooth → Q (.error e) w

variable {smooth : Prop} {α β : Type} {Q : Except RefereeError β → World → Prop} {c : Call}

/-- A call that writes no row. -/
theorem writes_call {k : Except RefereeError c.Result → Prog (fun c => Except RefereeError (Call.Result c)) α}
    {Q : α → World → Prop} (hc : c.row? = none)
    (h : ∀ a, (World.serve sv c a w).2.rows = w.rows → (smooth → ∃ v, (World.serve sv c a w).1 = .ok v) →
      Writes sv o id smooth (k (World.serve sv c a w).1) (World.serve sv c a w).2 Q) : Writes sv o id smooth
        (.call c k) w Q := by
  intro a ha
  have hrows : (World.serve sv c a w).2.rows = w.rows := by
    rcases World.serve_rows sv c a w with h | ⟨tx, rfl, -⟩
    · exact h
    · cases hc
  exact ⟨.of_rows hrows, h a hrows ha⟩

theorem writes_await {f : c.Result → Async β} (hQ : Tolerant smooth Q) (hc : c.row? = none)
    (hok : ∀ a v w', (World.perform sv c a w).1 = .ok v → w'.rows = w.rows →
      Writes sv o id smooth (f v).run w' Q) :
    Writes sv o id smooth (await c >>= f).run w Q := by
  refine writes_call hc fun a hrows hsmooth => ?_
  cases hres : (World.serve sv c a w).1 with
  | ok v => exact hok a v _ (World.serve_ok hres ▸ hres) hrows
  | error e =>
    refine hQ e _ fun hs => ?_
    obtain ⟨v, hv⟩ := hsmooth hs
    rw [hres] at hv
    cases hv

theorem writes_get {i : SwapId} {f : Option Transaction → Async β} (hQ : Tolerant smooth Q)
    (hok : ∀ w', w'.rows = w.rows → Writes sv o id smooth (f (w.rows.lookup i)).run w' Q) :
    Writes sv o id smooth (await (.get i) >>= f).run w Q := by
  refine writes_await hQ rfl fun a v w' hv hrows => ?_
  cases hv
  exact hok w' hrows

/-- A call whose error is dropped. -/
theorem writes_attempt {f : Except RefereeError c.Result → Async β} (hc : c.row? = none)
    (h : ∀ res w', w'.rows = w.rows → Writes sv o id smooth (f res).run w' Q) :
    Writes sv o id smooth (bestEffort c >>= f).run w Q :=
  writes_call hc fun _ hrows _ => h _ _ hrows

theorem writes_computed {x : Except RefereeError α} {f : α → Async β}
    (herr : ∀ e, x = .error e → Q (.error e) w)
    (hok : ∀ v, x = .ok v → Writes sv o id smooth (f v).run w Q) :
    Writes sv o id smooth (computed x >>= f).run w Q := by
  cases hx : x with
  | ok v => exact hok v hx
  | error e => exact herr e hx

theorem writes_upsert {tx : Transaction} {f : Unit → Async β} (hQ : Tolerant smooth Q)
    (hedits : ∀ w', w'.rows = w.rows.insert tx.swapId tx → Edits o id w w')
    (hok : ∀ w', w'.rows = w.rows.insert tx.swapId tx → Writes sv o id smooth (f ()).run w' Q) :
    Writes sv o id smooth (await (.upsert tx) >>= f).run w Q := by
  intro a ha
  refine ⟨?_, ?_⟩
  · rcases World.serve_rows sv (.upsert tx) a w with h | ⟨tx', htx, h⟩
    · exact .of_rows h
    · cases htx
      exact hedits _ h
  · cases hres : (World.serve sv (.upsert tx) a w).1 with
    | ok v => exact hok _ (congrArg (fun out => World.rows out.2) (World.serve_ok hres))
    | error e =>
      refine hQ e _ fun hs => ?_
      obtain ⟨v, hv⟩ := ha hs
      rw [hres] at hv
      cases hv

theorem writes_auditPhase {phase : Phase} {payload : Json} {prior : String} {f : String → Async β}
    (hQ : Tolerant smooth Q) (hok : ∀ tip w', w'.rows = w.rows → Writes sv o id smooth (f tip).run w' Q) :
    Writes sv o id smooth (auditPhase id phase payload prior >>= f).run w Q := by
  rw [auditPhase, bind_assoc]
  refine writes_await hQ rfl fun _ ts w₁ _ h₁ => ?_
  exact writes_await hQ rfl fun _ tip w₂ _ h₂ => hok tip w₂ (h₂.trans h₁)

theorem writes_getKnown {f : Transaction → Async β} (hQ : Tolerant smooth Q)
    (hnone : w.rows.lookup id = none → ∀ e w', w'.rows = w.rows → Q (.error e) w')
    (hok : ∀ tx w', w.rows.lookup id = some tx → w'.rows = w.rows → Writes sv o id smooth (f tx).run w' Q) :
    Writes sv o id smooth (getKnown id >>= f).run w Q := by
  rw [getKnown, bind_assoc]
  refine writes_get hQ fun w' hrows => ?_
  cases hrow : w.rows.lookup id with
  | none => exact hnone hrow _ _ hrows
  | some tx => exact hok tx w' hrow hrows

theorem writes_close {kind : HtlcCloseKind} {f : Unit → Async β}
    (hok : ∀ w', w'.rows = w.rows → Writes sv o id smooth (f ()).run w' Q) :
    Writes sv o id smooth (closeHtlcIfAny id kind >>= f).run w Q := by
  rw [closeHtlcIfAny, bind_assoc]
  refine writes_attempt rfl fun found w₁ h₁ => ?_
  split
  · rw [bind_assoc]
    exact writes_attempt rfl fun _ w₂ h₂ => hok w₂ (h₂.trans h₁)
  · exact hok w₁ h₁

/-- The row of a state that follows the one in the row. -/
theorem writes_persist {p phase : Phase} {s : SwapState p} {tx : Transaction} {f : Unit → Async β}
    (hQ : Tolerant smooth Q) (hphase : phase ≠ .init) (hrow : w.rows.lookup id = some tx) (hid : s.id = id)
    (hterms : tx.stateBlob.inner.SameTerms s.toSwapFields)
    (hsessions : s.refereeSessions = tx.stateBlob.inner.refereeSessions)
    (hattempts : s.insertPushAttempts.toNat ≤ o.pushBudget)
    (hok : ∀ tx' w', w'.rows.lookup id = some tx' → tx'.phase = phase → tx'.stateBlob.inner = s.toSwapFields →
      Writes sv o id smooth (f ()).run w' Q) :
    Writes sv o id smooth (persist s phase >>= f).run w Q := by
  rw [persist, bind_assoc]
  refine writes_await hQ rfl fun _ now w₁ _ h₁ => ?_
  rw [if_neg hphase, bind_assoc]
  refine writes_get hQ fun w₂ h₂ => ?_
  rw [hid, h₁, hrow]
  refine writes_upsert hQ (fun w' hw' =>
    .of_insert ⟨hid, ⟨rfl, rfl, rfl, rfl, rfl, rfl, rfl, rfl, rfl, rfl, rfl⟩, hattempts⟩ hw'
    (fun h => ?_) fun tx' htx' => ?_) fun w' hw' => ?_
  · rw [h₂, h₁, hrow] at h
    cases h
  · rw [h₂, h₁, hrow] at htx'
    cases htx'
    exact ⟨hterms, hsessions, rfl, fun cid hcid => hcid⟩
  · refine hok ((Transaction.deriveFrom s phase now none none none).keeping (some tx)) w' ?_ rfl rfl
    rw [hw', FMap.lookup_insert_ite, if_pos]
    exact hid.symm

/-! ## The entry points -/

/-- What an `advance_swap` that succeeds has done, and how it answers. -/
def Advanced (o : Orchestrator) (id : SwapId) (tx : Transaction) (smooth : Prop)
    (res : Except RefereeError (Option SwapOutcome)) (w : World) : Prop :=
  match res with
  | .ok out => ∃ tx', w.rows.lookup id = some tx' ∧ tx.AdvancesTo o tx' ∧ out.isSome = tx'.phase.isTerminal
  | .error _ => ¬ smooth

section

variable {tx : Transaction} {inner : SwapFields}

theorem tolerant_advanced : Tolerant smooth (Advanced o id tx smooth) := fun _ _ h => h

theorem writes_settleBranch (hrow : w.rows.lookup id = some tx) (hphase : tx.phase = .insertPushed)
    (hsound : tx.Sound o id) :
    Writes sv o id smooth (settleBranch o id ⟨tx.stateBlob.inner⟩).run w (Advanced o id tx smooth) := by
  have hQ : Tolerant smooth (Advanced o id tx smooth) := tolerant_advanced
  refine writes_auditPhase hQ fun tip w₁ h₁ => ?_
  refine writes_await hQ rfl fun _ settledAt w₂ _ h₂ => ?_
  refine writes_computed (fun e he => nomatch he) fun settled hsettled => ?_
  cases hsettled
  refine writes_await hQ rfl fun _ sig w₃ _ h₃ => ?_
  refine writes_await hQ rfl fun _ _ w₄ _ h₄ => ?_
  refine writes_persist hQ (nofun) (h₄ ▸ h₃ ▸ h₂ ▸ h₁ ▸ hrow) hsound.wellFormed.innerId
    ⟨rfl, rfl, rfl, rfl, rfl⟩ rfl hsound.attempts
    fun tx' w₅ hrow' hphase' _ => ?_
  refine writes_await hQ rfl fun _ _ w₆ _ h₆ => ?_
  refine writes_close fun w₇ h₇ => ?_
  refine ⟨tx', by rw [h₇, h₆, hrow'], ?_, by rw [hphase']; rfl⟩
  rw [Transaction.AdvancesTo, hphase]
  exact .inl hphase'

theorem writes_retryBranch (hrow : w.rows.lookup id = some tx) (hphase : tx.phase = .insertPushed)
    (hsound : tx.Sound o id) (hleft : tx.stateBlob.inner.insertPushAttempts < o.insertPushRetry) :
    Writes sv o id smooth (retryBranch o id ⟨tx.stateBlob.inner⟩).run w (Advanced o id tx smooth) := by
  have hQ : Tolerant smooth (Advanced o id tx smooth) := tolerant_advanced
  refine writes_await hQ rfl fun _ _ w₁ _ h₁ => ?_
  refine writes_auditPhase hQ fun tip w₂ h₂ => ?_
  refine writes_await hQ rfl fun _ retriedAt w₃ _ h₃ => ?_
  rw [insertPushedRetry_ok (s := ⟨tx.stateBlob.inner⟩) hleft]
  -- The counter stays below the budget, so it does not wrap either.
  have hattempts : (tx.stateBlob.inner.insertPushAttempts + 1).toNat ≤ o.pushBudget := by
    have hlt := UInt8.lt_iff_toNat_lt.1 hleft
    have hbound := o.insertPushRetry.toNat_lt
    rw [Orchestrator.pushBudget, UInt8.toNat_add, UInt8.toNat_one]
    omega
  refine writes_persist hQ nofun (h₃ ▸ h₂ ▸ h₁ ▸ hrow) hsound.wellFormed.innerId ⟨rfl, rfl, rfl, rfl,
    rfl⟩ rfl hattempts
    fun tx' w₄ hrow' hphase' hinner => ?_
  refine ⟨tx', hrow', ?_, by rw [hphase']; rfl⟩
  rw [Transaction.AdvancesTo, hphase]
  exact .inr (.inr ⟨hphase', hleft, by rw [hinner]⟩)

theorem writes_abortBranch (hrow : w.rows.lookup id = some tx) (hphase : tx.phase = .insertPushed)
    (hsound : tx.Sound o id) :
    Writes sv o id smooth (abortBranch o id ⟨tx.stateBlob.inner⟩).run w (Advanced o id tx smooth) := by
  have hQ : Tolerant smooth (Advanced o id tx smooth) := tolerant_advanced
  refine writes_auditPhase hQ fun tip w₁ h₁ => ?_
  refine writes_await hQ rfl fun _ abortedAt w₂ _ h₂ => ?_
  refine writes_computed (fun e he => nomatch he) fun aborted haborted => ?_
  cases haborted
  refine writes_persist hQ nofun (h₂ ▸ h₁ ▸ hrow) hsound.wellFormed.innerId ⟨rfl, rfl, rfl, rfl,
    rfl⟩ rfl hsound.attempts
    fun tx' w₃ hrow' hphase' _ => ?_
  refine writes_await hQ rfl fun _ _ w₄ _ h₄ => ⟨tx', by rw [h₄, hrow'], ?_, by rw [hphase']; rfl⟩
  rw [Transaction.AdvancesTo, hphase]
  exact .inr (.inl hphase')

theorem writes_advanceFromAborted (hrow : w.rows.lookup id = some tx) (hphase : tx.phase = .aborted)
    (hsound : tx.Sound o id) :
    Writes sv o id smooth (advanceFromAborted id tx.stateBlob.inner).run w (Advanced o id tx smooth) := by
  have hQ : Tolerant smooth (Advanced o id tx smooth) := tolerant_advanced
  refine writes_auditPhase hQ fun tip w₁ h₁ => ?_
  refine writes_await hQ rfl fun _ invalidatedAt w₂ _ h₂ => ?_
  refine writes_computed (fun e he => nomatch he) fun s hs => ?_
  cases hs
  refine writes_persist hQ nofun (h₂ ▸ h₁ ▸ hrow) hsound.wellFormed.innerId ⟨rfl, rfl, rfl, rfl,
    rfl⟩ rfl hsound.attempts
    fun tx' w₃ hrow' hphase' _ => ⟨tx', hrow', ?_, by rw [hphase']; rfl⟩
  rw [Transaction.AdvancesTo, hphase]
  exact hphase'

theorem writes_advanceFromInvalidated (hrow : w.rows.lookup id = some tx) (hphase : tx.phase = .invalidated)
    (hsound : tx.Sound o id) :
    Writes sv o id smooth (advanceFromInvalidated o id tx.stateBlob.inner).run w (Advanced o id tx smooth) := by
  have hQ : Tolerant smooth (Advanced o id tx smooth) := tolerant_advanced
  refine writes_await hQ rfl fun _ sig w₁ _ h₁ => ?_
  refine writes_await hQ rfl fun _ _ w₂ _ h₂ => ?_
  refine writes_auditPhase hQ fun tip w₃ h₃ => ?_
  refine writes_await hQ rfl fun _ refundedAt w₄ _ h₄ => ?_
  refine writes_persist hQ nofun (h₄ ▸ h₃ ▸ h₂ ▸ h₁ ▸ hrow) hsound.wellFormed.innerId
    ⟨rfl, rfl, rfl, rfl, rfl⟩ rfl
    hsound.attempts fun tx' w₅ hrow' hphase' _ => ?_
  refine writes_await hQ rfl fun _ _ w₆ _ h₆ => ?_
  refine writes_close fun w₇ h₇ => ⟨tx', by rw [h₇, h₆, hrow'], ?_, by rw [hphase']; rfl⟩
  rw [Transaction.AdvancesTo, hphase]
  exact hphase'

/-- **One `advance_swap`**, on a swap that has a row. -/
theorem writes_advanceSwap (hw : w.Sound o) (hrow : w.rows.lookup id = some tx) :
    Writes sv o id smooth (advanceSwap o id).run w (Advanced o id tx smooth) := by
  have hQ : Tolerant smooth (Advanced o id tx smooth) := tolerant_advanced
  have hsound := hw id tx hrow
  refine writes_getKnown hQ (fun hnone => ?_) fun tx' w' hrow' hrows => ?_
  · rw [hrow] at hnone
    cases hnone
  rw [hrow] at hrow'
  cases hrow'
  have hat : w'.rows.lookup id = some tx := hrows ▸ hrow
  cases hphase : tx.phase with
  | insertPushed =>
    refine writes_await hQ rfl fun _ (post : SpentStatus) w₁ _ h₁ => ?_
    have hat₁ : w₁.rows.lookup id = some tx := h₁ ▸ hat
    by_cases hpost : post = .spent
    · rw [if_pos hpost]
      exact writes_settleBranch hat₁ hphase hsound
    · rw [if_neg hpost]
      split
      · exact writes_retryBranch hat₁ hphase hsound ‹_›
      · exact writes_abortBranch hat₁ hphase hsound
  | aborted => exact writes_advanceFromAborted hat hphase hsound
  | invalidated => exact writes_advanceFromInvalidated hat hphase hsound
  | settled | refunded | canceled | init | zkpsVerified | preChecked =>
    refine ⟨tx, hat, ?_, by rw [hphase]; rfl⟩
    rw [Transaction.AdvancesTo, hphase]

/-- An id without a row. -/
theorem writes_advanceSwap_none (hrow : w.rows.lookup id = none) :
    Writes sv o id False (advanceSwap o id).run w fun _ _ => True := by
  refine writes_getKnown (fun _ _ _ => trivial) (fun _ _ _ _ => trivial) fun tx w' hrow' _ => ?_
  rw [hrow] at hrow'
  cases hrow'

/-- What a `cancel_swap` has done, where nothing fails. -/
def Canceled (id : SwapId) (before : Option Transaction) (smooth : Prop) (w : World) : Prop :=
  smooth → w.rows.lookup id = before ∨ ∃ tx, w.rows.lookup id = some tx ∧ tx.phase = .canceled

/-- **One `cancel_swap`.** -/
theorem writes_cancelSwap {byPgpFp : PgpFingerprint} {reason sigHex : String} (hw : w.Sound o) :
    Writes sv o id smooth (cancelSwap o id byPgpFp reason sigHex).run w fun _ w' =>
      Canceled id (w.rows.lookup id) smooth w' := by
  have hQ : Tolerant smooth fun (_ : Except RefereeError Unit) w' => Canceled id (w.rows.lookup id) smooth w' :=
    fun _ _ hs h => absurd h hs
  refine writes_getKnown hQ (fun _ _ w' hw' _ => .inl (by rw [hw'])) fun tx w₁ hrow h₁ => ?_
  have hsound := hw id tx hrow
  refine writes_computed (fun _ _ _ => .inl (by rw [h₁])) fun _ _ => ?_
  refine writes_await hQ rfl fun _ now w₂ _ h₂ => ?_
  refine writes_auditPhase hQ fun tip w₃ h₃ => ?_
  have hat : w₃.rows.lookup id = some tx := h₃ ▸ h₂ ▸ h₁ ▸ hrow
  -- The row edited in place keeps its projection: only the phase and the tip are new.
  have hcanceled : (tx.cancel byPgpFp reason tip now).Sound o id :=
    ⟨hsound.filed, { hsound.flat with phase := rfl, status := rfl, terminal := rfl }, hsound.attempts⟩
  refine writes_upsert hQ (fun w' hw' => .of_insert hcanceled hw' (fun h => ?_) fun tx' htx' => ?_) fun w₄ h₄ => ?_
  · rw [hat] at h
    cases h
  · rw [hat] at htx'
    cases htx'
    exact ⟨⟨rfl, rfl, rfl, rfl, rfl⟩, rfl, rfl, fun cid hcid => hcid⟩
  have hdone : ∀ w', w'.rows = w₄.rows → Canceled id (w.rows.lookup id) smooth w' := by
    refine fun w' hw' _ => .inr ⟨tx.cancel byPgpFp reason tip now, ?_, rfl⟩
    rw [hw', h₄, FMap.lookup_insert_ite]
    exact if_pos hcanceled.filed.symm
  have hrest : ∀ w', w'.rows = w₄.rows → Writes sv o id smooth (do
      let _ ← bestEffort (.discardSession id .settle)
      let _ ← bestEffort (.discardSession id .refund)
      closeHtlcIfAny id .cancel : Async Unit).run w' fun _ w' => Canceled id (w.rows.lookup id) smooth w' := by
    intro w' hw'
    refine writes_attempt rfl fun _ w₅ h₅ => writes_attempt rfl fun _ w₆ h₆ => ?_
    rw [← bind_pure (closeHtlcIfAny id .cancel)]
    exact writes_close fun w₇ h₇ => hdone w₇ (h₇.trans (h₆.trans (h₅.trans hw')))
  by_cases hpush : (tx.cancel byPgpFp reason tip now).insertPushAttempts > 0
  · simp only [if_pos hpush]
    exact writes_attempt rfl fun _ w₅ h₅ => hrest w₅ h₅
  · simp only [if_neg hpush]
    exact hrest w₄ rfl

end

/-! ## Start -/

/-- What a `start_swap` that succeeds has done. -/
def Started (id : SwapId) (req : InitiateRequest) (res : Except RefereeError SwapId) (w : World) : Prop :=
  ∀ i, res = .ok i → i = id ∧ ∃ tx, w.rows.lookup id = some tx ∧ tx.phase = .insertPushed ∧
    tx.stateBlob.inner.insertPushAttempts = 1 ∧ (Request.start id req).Opens tx.stateBlob.inner

/-- The first row of a swap. -/
def firstRow (s : SwapState .init) (now : Nat) : Transaction :=
  { Transaction.deriveFrom s .init now none none none with createdAtUnix := s.phaseEnteredAt }

section

variable {req : InitiateRequest}

theorem writes_persist_init {s : SwapState .init} {f : Unit → Async β} (hQ : Tolerant smooth Q)
    (hrow : w.rows.lookup id = none) (hid : s.id = id) (hattempts : s.insertPushAttempts.toNat ≤ o.pushBudget)
    (hok : ∀ now w', (firstRow s now).Sound o id → w'.rows.lookup id = some (firstRow s now) →
      Writes sv o id smooth (f ()).run w' Q) :
    Writes sv o id smooth (persist s .init >>= f).run w Q := by
  rw [persist, bind_assoc]
  refine writes_await hQ rfl fun _ now w₁ _ h₁ => ?_
  rw [if_pos rfl]
  have hsound : (firstRow s now).Sound o id :=
    ⟨hid, ⟨rfl, rfl, rfl, rfl, rfl, rfl, rfl, rfl, rfl, rfl, rfl⟩, hattempts⟩
  refine writes_upsert hQ (fun w' hw' => .of_insert hsound hw' (fun _ => rfl) fun tx htx => ?_) fun w' hw' =>
    hok now w' hsound ?_
  · rw [h₁, hrow] at htx
    cases htx
  · have hkey : (firstRow s now).swapId = id := hid
    rw [hw', FMap.lookup_insert_ite]
    exact if_pos hkey.symm

theorem writes_saveContract {tx : Transaction} {cid : Option String} {f : Unit → Async β} (hQ : Tolerant smooth Q)
    (hrow : w.rows.lookup id = some tx) (hsound : tx.Sound o id) (hnone : tx.htlcRefundContractId = none)
    (hok : ∀ w', w'.rows.lookup id = some { tx with htlcRefundContractId := cid } →
      Writes sv o id smooth (f ()).run w' Q) :
    Writes sv o id smooth (saveContract id cid >>= f).run w Q := by
  cases cid with
  | none =>
    refine hok w ?_
    rw [hrow, ← hnone]
  | some cid =>
    rw [saveContract, bind_assoc]
    refine writes_get hQ fun w₁ h₁ => ?_
    rw [hrow]
    have hsaved : { tx with htlcRefundContractId := some cid }.Sound o id :=
      ⟨hsound.filed, { hsound.flat with }, hsound.attempts⟩
    refine writes_upsert hQ (fun w' hw' => .of_insert hsaved hw' (fun h => ?_) fun tx' htx' => ?_)
      fun w' hw' => hok w' ?_
    · rw [h₁, hrow] at h
      cases h
    · rw [h₁, hrow] at htx'
      cases htx'
      exact ⟨.refl _, rfl, rfl, fun c hc => by rw [hnone] at hc; cases hc⟩
    · rw [hw', FMap.lookup_insert_ite, if_pos]
      exact hsound.filed.symm

/-- **One `start_swap`**, with an id that has no row. -/
theorem writes_startSwap (hrow : w.rows.lookup id = none) :
    Writes sv o id False (startSwap o id req).run w (Started id req) := by
  have hQ : Tolerant False (Started id req) := fun _ _ _ _ h => nomatch h
  refine writes_await hQ rfl fun _ nowUnix w₁ _ h₁ => ?_
  refine writes_await hQ rfl fun _ settleNonce w₂ _ h₂ => ?_
  refine writes_await hQ rfl fun _ refundNonce w₃ _ h₃ => ?_
  refine writes_await hQ rfl fun _ initTip w₄ _ h₄ => ?_
  have hat : w₄.rows.lookup id = none := h₄ ▸ h₃ ▸ h₂ ▸ h₁ ▸ hrow
  generalize hs : initiate id req.parties req.bob req.alice req.aliceNonces ⟨settleNonce.hex, refundNonce.hex,
    id⟩ nowUnix initTip = s
  have hid : s.id = id := by rw [← hs]; rfl
  have hopens : (Request.start id req).Opens s.toSwapFields := by rw [← hs]; exact ⟨rfl, rfl, rfl, rfl, rfl⟩
  have hattempts : s.insertPushAttempts.toNat ≤ o.pushBudget := by rw [← hs]; exact Nat.zero_le _
  clear hs
  refine writes_persist_init hQ hat hid hattempts fun now w₆ hsound hat₆ => ?_
  refine writes_await hQ rfl fun _ _ w₇ _ h₇ => ?_
  refine writes_attempt rfl fun htlc w₈ h₈ => ?_
  refine writes_saveContract hQ (h₈ ▸ h₇ ▸ hat₆) hsound rfl fun w₉ h₉ => ?_
  generalize hinit : { firstRow s now with htlcRefundContractId := htlc.toOption.join } = initRow at h₉
  have hinner : initRow.stateBlob.inner = s.toSwapFields := by rw [← hinit]; rfl
  refine writes_await hQ rfl fun _ okBob w₁₀ _ h₁₀ => ?_
  refine writes_await hQ rfl fun _ okAlice w₁₁ _ h₁₁ => ?_
  refine writes_auditPhase hQ fun zkpsTip w₁₂ h₁₂ => ?_
  refine writes_await hQ rfl fun _ zkpsAt w₁₃ _ h₁₃ => ?_
  refine writes_computed (fun _ _ => hQ _ _ (fun h => h)) fun zkps hzkps => ?_
  obtain ⟨-, rfl⟩ := verifyZkps_ok hzkps
  refine writes_persist hQ nofun (h₁₃ ▸ h₁₂ ▸ h₁₁ ▸ h₁₀ ▸ h₉) hid
    (hinner ▸ ⟨rfl, rfl, rfl, rfl, rfl⟩) (hinner ▸ rfl) hattempts
    fun zkpsRow w₁₄ h₁₄ _ hinner₁ => ?_
  refine writes_await hQ rfl fun _ (preStatus : SpentStatus) w₁₅ _ h₁₅ => ?_
  refine writes_auditPhase hQ fun preTip w₁₆ h₁₆ => ?_
  refine writes_await hQ rfl fun _ preAt w₁₇ _ h₁₇ => ?_
  refine writes_computed (fun _ _ => hQ _ _ (fun h => h)) fun pre hpre => ?_
  obtain ⟨-, rfl⟩ := preCheck_ok hpre
  refine writes_persist hQ nofun (h₁₇ ▸ h₁₆ ▸ h₁₅ ▸ h₁₄) hid
    (hinner₁ ▸ ⟨rfl, rfl, rfl, rfl, rfl⟩) (hinner₁ ▸ rfl) hattempts
    fun preRow w₁₈ h₁₈ _ hinner₂ => ?_
  refine writes_await hQ rfl fun _ _ w₁₉ _ h₁₉ => ?_
  refine writes_auditPhase hQ fun pushTip w₂₀ h₂₀ => ?_
  refine writes_await hQ rfl fun _ pushedAt w₂₁ _ h₂₁ => ?_
  refine writes_persist hQ nofun (h₂₁ ▸ h₂₀ ▸ h₁₉ ▸ h₁₈) hid
    (hinner₂ ▸ ⟨rfl, rfl, rfl, rfl, rfl⟩) (hinner₂ ▸ rfl)
    (le_max_left _ _) fun pushedRow w₂₂ h₂₂ hphase hinner₃ => ?_
  rintro i hi
  cases hi
  exact ⟨rfl, pushedRow, h₂₂, hphase, by rw [hinner₃]; rfl, by rw [hinner₃]; exact hopens⟩

end

/-! ## One request -/

theorem along_map {E : World → World → Prop} {x : Async α} {h : α → Reply}
    {Q : Except RefereeError α → World → Prop} (hx : Along (World.serve sv) (Answers False) E x.run w Q) :
    Along (World.serve sv) (fun _ => True) E (x >>= fun a => pure (h a)).run w fun _ _ => True := by
  refine along_task_bind (hx.mono (fun _ _ => nofun) fun res w' _ => ?_)
  cases res <;> trivial

/-- **What a request may do to the store**, write by write. A start has a new id. -/
theorem along_program {r : Request} (hw : w.Sound o) (hnew : r.IsStart → w.rows.lookup r.id = none) :
    Along (World.serve sv) (fun _ => True) (Edits o r.id) (program o r) w fun _ _ => True := by
  cases r with
  | start id req => exact along_map (writes_startSwap (hnew ⟨id, req, rfl⟩))
  | advance id =>
    cases hrow : w.rows.lookup id with
    | none => exact along_map (writes_advanceSwap_none hrow)
    | some tx => exact along_map (writes_advanceSwap hw hrow)
  | cancel id byPgpFp reason sigHex => exact along_map (writes_cancelSwap hw)

/-! ## Runs of requests -/

/-- One call; the id of a start has no row. -/
def Past.FreshStep (sv : Services) (o : Orchestrator) (s : Past) (call : Request × (Nat → Answer))
    (s' : Past) : Prop :=
  s.Step sv o call s' ∧ (call.1.IsStart → s.world.rows.lookup call.1.id = .none)

section

variable {s s' : Past} {call : Request × (Nat → Answer)}

theorem Past.FreshStep.sound (h : s.FreshStep sv o call s') (hw : s.world.Sound o) : s'.world.Sound o := by
  obtain ⟨rfl, hnew⟩ := h
  exact (((along_program hw hnew).keeps hw fun _ _ hE hI => hI.edits hE).run _ fun _ _ => trivial).2

/-- A row goes on as what it was. -/
theorem Edits.continues {w w' : World} (h : Edits o id w w') {i : SwapId} {tx : Transaction}
    (hrow : w.rows.lookup i = some tx) :
    ∃ tx', w'.rows.lookup i = some tx' ∧ tx.Continues tx' := by
  by_cases hi : i = id
  · subst hi
    rcases h.own with hsame | ⟨tx', hrow', -, -, hcont⟩
    · exact ⟨tx, hsame.trans hrow, .refl tx⟩
    · exact ⟨tx', hrow', hcont tx hrow⟩
  · exact ⟨tx, (h.others i hi).trans hrow, .refl tx⟩

theorem Past.FreshStep.continues (h : s.FreshStep sv o call s') (hw : s.world.Sound o) {tx : Transaction}
    (hrow : s.world.rows.lookup id = some tx) : ∃ tx', s'.world.rows.lookup id = some tx' ∧ tx.Continues tx' := by
  obtain ⟨rfl, hnew⟩ := h
  have hwrites : Along (World.serve sv) (fun _ => True) (Edits o call.1.id) (program o call.1) s.world
      fun _ _ => True :=
    along_program hw hnew
  have hkeep := hwrites.keeps (I := fun w => ∃ tx', w.rows.lookup id = some tx' ∧ tx.Continues tx')
    ⟨tx, hrow, .refl tx⟩
    fun w w' hE ⟨tx₁, h₁, hc₁⟩ => by
      obtain ⟨tx₂, h₂, hc₂⟩ := hE.continues h₁
      exact ⟨tx₂, h₂, hc₁.trans hc₂⟩
  exact (hkeep.run _ fun _ _ => trivial).2

theorem continues_of_run {calls : List (Request × (Nat → Answer))} (h : Run (Past.FreshStep sv o) s calls s')
    (hw : s.world.Sound o) {tx : Transaction} (hrow : s.world.rows.lookup id = some tx) :
    s'.world.Sound o ∧ ∃ tx', s'.world.rows.lookup id = some tx' ∧ tx.Continues tx' := by
  refine Run.invariant (I := fun s : Past => s.world.Sound o ∧ ∃ tx', s.world.rows.lookup id = some tx' ∧
    tx.Continues tx')
    (fun s call s' hs ⟨hw, tx₁, h₁, hc₁⟩ => ?_) h ⟨hw, tx, hrow, .refl tx⟩
  obtain ⟨tx₂, h₂, hc₂⟩ := hs.continues hw h₁
  exact ⟨hs.sound hw, tx₂, h₂, hc₁.trans hc₂⟩

end

end Webycash.Referee
