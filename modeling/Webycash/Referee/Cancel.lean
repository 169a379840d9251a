import Webycash.Lib.Checks
import Webycash.Referee.Serial
/-!
# Who may cancel a swap

The permission policy of `docs/transaction-model.md` as a relation between a row and a request
(`Authorised`), and the checks of `cancel_swap` against it (`checkCancel_ok_iff`). A call that the
policy turns away has read the row and done nothing else (`cancel_respects_policy`).
-/

namespace Webycash.Referee

open Prog

/-- The signature, in hex, is good for the message under the key, in hex. -/
def Signed (ed : Ed25519) (cancelPubkeyHex : String) (message : List UInt8) (sigHex : String) : Prop :=
  ∃ pk sig, Hex.decode (asBytes cancelPubkeyHex) = .ok pk ∧ pk.length = 32 ∧ ed.fromBytes pk = .ok () ∧
    Hex.decode (asBytes sigHex) = .ok sig ∧ sig.length = 64 ∧ ed.verify pk message sig = .ok ()

/-- Nothing has been pushed yet. -/
def Phase.Early (p : Phase) : Prop := p = .init ∨ p = .zkpsVerified ∨ p = .preChecked

/-- The policy: Bob may withdraw until the swap has been settled or aborted, Alice only before the
push, each with a signature under the cancel key of the party named. Whoever is both is Bob. -/
inductive Authorised (ed : Ed25519) (id : SwapId) (parties : Parties) (phase : Phase) (byPgpFp : PgpFingerprint)
    (reason sigHex : String) : Prop
  | bob (hparty : byPgpFp = parties.bobPgpFp) (hphase : phase.Early ∨ phase = .insertPushed)
      (hsig : Signed ed parties.bobCancelPubkeyHex (Identity.partyCancelMessage id.id byPgpFp.hex reason) sigHex)
  | alice (hparty : byPgpFp = parties.alicePgpFp) (hbob : byPgpFp ≠ parties.bobPgpFp) (hphase : phase.Early)
      (hsig : Signed ed parties.aliceCancelPubkeyHex (Identity.partyCancelMessage id.id byPgpFp.hex reason) sigHex)

section

variable {ed : Ed25519} {o : Orchestrator} {id : SwapId} {tx : Transaction} {byPgpFp : PgpFingerprint}
  {reason sigHex : String}

theorem verifyPartySignature_ok_iff {key : String} {message : List UInt8} :
    Identity.verifyPartySignature ed key message sigHex = .ok () ↔ Signed ed key message sigHex := by
  unfold Identity.verifyPartySignature Signed
  simp only [Except.bind_ok_iff, Except.mapError_ok_iff, ne_eq, Except.throw_unless_ok_iff]
  constructor
  · rintro ⟨pk, hpk, hlen, _, hfrom, sig, hsig, hslen, hverify⟩
    exact ⟨pk, sig, hpk, hlen, hfrom, hsig, hslen, hverify⟩
  · rintro ⟨pk, sig, hpk, hlen, hfrom, hsig, hslen, hverify⟩
    exact ⟨pk, hpk, hlen, (), hfrom, sig, hsig, hslen, hverify⟩

theorem cancelEligible_bob {p : Phase} : cancelEligible true p = .ok () ↔ p.Early ∨ p = .insertPushed := by
  cases p <;> simp [cancelEligible, Phase.Early]

theorem cancelEligible_alice {p : Phase} : cancelEligible false p = .ok () ↔ p.Early := by
  cases p <;> simp [cancelEligible, Phase.Early]

/-- **The checks are the policy**, and the terminal flag. -/
theorem checkCancel_ok_iff : checkCancel o id tx byPgpFp reason sigHex = .ok () ↔
    tx.terminal = false ∧ Authorised o.ed25519 id tx.stateBlob.inner.parties tx.phase byPgpFp reason sigHex := by
  unfold checkCancel
  cases hterm : tx.terminal with
  | true => simp
  | false =>
    rw [if_neg Bool.false_ne_true, Except.bind_ok_iff]
    simp only [Except.bind_ok_iff, verifyPartySignature_ok_iff, true_and]
    unfold cancelParty
    by_cases hbob : byPgpFp = tx.stateBlob.inner.parties.bobPgpFp
    · rw [if_pos hbob]
      constructor
      · rintro ⟨party, hparty, _, hphase, hsig⟩
        cases hparty
        exact .bob hbob (cancelEligible_bob.1 hphase) hsig
      · rintro (⟨-, hphase, hsig⟩ | ⟨-, hnot, -, -⟩)
        · exact ⟨_, rfl, (), cancelEligible_bob.2 hphase, hsig⟩
        · exact absurd hbob hnot
    · rw [if_neg hbob]
      by_cases halice : byPgpFp = tx.stateBlob.inner.parties.alicePgpFp
      · rw [if_pos halice]
        constructor
        · rintro ⟨party, hparty, _, hphase, hsig⟩
          cases hparty
          exact .alice halice hbob (cancelEligible_alice.1 hphase) hsig
        · rintro (⟨hparty, -, -⟩ | ⟨-, -, hphase, hsig⟩)
          · exact absurd hparty hbob
          · exact ⟨_, rfl, (), cancelEligible_alice.2 hphase, hsig⟩
      · rw [if_neg halice]
        constructor
        · rintro ⟨party, hparty, -⟩
          cases hparty
        · rintro (⟨hparty, -, -⟩ | ⟨hparty, -, -, -⟩)
          · exact absurd hparty hbob
          · exact absurd hparty halice

/-- Of a row with equal fingerprints only Bob's half of the policy is left. -/
theorem authorised_same_party {parties : Parties} {phase : Phase} (hsame : parties.bobPgpFp = parties.alicePgpFp) :
    Authorised ed id parties phase byPgpFp reason sigHex ↔ byPgpFp = parties.bobPgpFp ∧
      (phase.Early ∨ phase = .insertPushed) ∧
      Signed ed parties.bobCancelPubkeyHex (Identity.partyCancelMessage id.id byPgpFp.hex reason) sigHex := by
  constructor
  · rintro (⟨hparty, hphase, hsig⟩ | ⟨hparty, hbob, -, -⟩)
    · exact ⟨hparty, hphase, hsig⟩
    · exact absurd (hparty.trans hsame.symm) hbob
  · rintro ⟨hparty, hphase, hsig⟩
    exact .bob hparty hphase hsig

/-! ## The call -/

/-- The row the request names is open and the policy admits the request. -/
def MayCancel (o : Orchestrator) (w : World) (id : SwapId) (byPgpFp : PgpFingerprint) (reason sigHex : String)
    (tx : Transaction) :
    Prop :=
  w.rows.lookup id = some tx ∧ tx.terminal = false ∧
    Authorised o.ed25519 id tx.stateBlob.inner.parties tx.phase byPgpFp reason sigHex

variable {sv : Services} {w : World}

theorem serve_get_world {a : Answer} : (World.serve sv (.get id) a w).2 = w := by
  rcases World.serve_world sv (.get id) a w with h | h <;> rw [h]
  rfl

/-- **A request the policy turns away** fails, and its only call is the read of the row. -/
theorem cancelSwap_refused (hno : ∀ tx, ¬ MayCancel o w id byPgpFp reason sigHex tx) :
    Along (World.serve sv) (fun _ => True) (fun w w' => w' = w) (cancelSwap o id byPgpFp reason sigHex).run w
      fun res _ => ∃ e, res = .error e := by
  intro a _
  refine ⟨serve_get_world, ?_⟩
  cases hres : (World.serve sv (.get id) a w).1 with
  | error e => exact ⟨e, rfl⟩
  | ok row =>
    have hrow : row = w.rows.lookup id := by
      have hperf := World.serve_ok hres ▸ hres
      cases hperf
      rfl
    cases row with
    | none => exact ⟨_, rfl⟩
    | some tx =>
      have hcheck : checkCancel o id tx byPgpFp reason sigHex ≠ .ok () := fun h =>
        hno tx ⟨hrow.symm, checkCancel_ok_iff.1 h⟩
      show Along _ _ _ (computed (checkCancel o id tx byPgpFp reason sigHex) >>= _ : Async Unit).run _ _
      cases hc : checkCancel o id tx byPgpFp reason sigHex with
      | error e => exact ⟨e, rfl⟩
      | ok u => exact absurd hc hcheck

/-- The calls of a program that writes no row but the one filed under this id. -/
def writesOnly (id : SwapId) : Protocol (fun c => Except RefereeError (Call.Result c)) Unit where
  admits _ _ := True
  allows _ c := ∀ tx, c.row? = some tx → tx.swapId = id
  next _ _ _ := ()

theorem writesOnly_none {key : SwapId} {c : Call} (hc : c.row? = none) : (writesOnly key).allows () c := by
  intro tx htx
  rw [hc] at htx
  cases htx

theorem writesOnly_close {key i : SwapId} {kind : HtlcCloseKind} :
    Sat (writesOnly key) () (closeHtlcIfAny i kind).run fun _ _ => True := by
  unfold closeHtlcIfAny
  refine sat_attempt (writesOnly_none rfl) fun found _ => ?_
  split
  · exact sat_attempt (writesOnly_none rfl) fun _ _ => trivial
  · trivial

/-- After the read, `cancel_swap` writes the row it has read and no other. -/
theorem writesOnly_cancel {now : Nat} {payload : Json} :
    Sat (writesOnly tx.swapId) () (do
      let canceledTip ← auditPhase id .canceled payload tx.stateBlob.inner.auditTipHex
      let canceled := tx.cancel byPgpFp reason canceledTip now
      await (.upsert canceled)
      if canceled.insertPushAttempts > 0 then
        let _ ← bestEffort (.dispatch ⟨id, tx.stateBlob.inner.parties.alicePgpFp, .invalidate,
          base64Of (asBytes canceled.webcashPublicHash.hash), o.callbackUrl id⟩)
      let _ ← bestEffort (.discardSession id .settle)
      let _ ← bestEffort (.discardSession id .refund)
      closeHtlcIfAny id .cancel : Async Unit).run fun _ _ => True := by
  rw [auditPhase, bind_assoc]
  refine sat_perform (writesOnly_none rfl) (fun ts _ => ?_) fun _ => trivial
  refine sat_perform (writesOnly_none rfl) (fun tip _ => ?_) fun _ => trivial
  refine sat_perform (fun row hrow => by cases hrow; rfl) (fun _ _ => ?_) fun _ => trivial
  dsimp only
  split
  · refine sat_attempt (writesOnly_none rfl) fun _ _ => ?_
    exact sat_attempt (writesOnly_none rfl) fun _ _ => sat_attempt (writesOnly_none rfl) fun _ _ => writesOnly_close
  · exact sat_attempt (writesOnly_none rfl) fun _ _ => sat_attempt (writesOnly_none rfl) fun _ _ => writesOnly_close

/-- The rows not filed under `key` stay. -/
def OthersStay (key : SwapId) (w w' : World) : Prop := ∀ i, i ≠ key → w'.rows.lookup i = w.rows.lookup i

theorem othersStay_serve {key : SwapId} {c : Call} {a : Answer} (hc : ∀ tx, c.row? = some tx → tx.swapId = key) :
    OthersStay key w (World.serve sv c a w).2 := by
  intro i hi
  rcases World.serve_lookup sv c a w i with h | ⟨row, rfl, hid, -⟩
  · exact h
  · exact absurd (hid.trans (hc row rfl)) hi

/-- **A request the policy admits** leaves every other row as it is. -/
theorem cancelSwap_others (hrow : w.rows.lookup id = some tx) :
    Along (World.serve sv) (fun _ => True) (OthersStay tx.swapId) (cancelSwap o id byPgpFp reason sigHex).run w
      fun _ _ => True := by
  intro a _
  rw [serve_get_world]
  refine ⟨fun _ _ => rfl, ?_⟩
  cases hres : (World.serve sv (.get id) a w).1 with
  | error e => trivial
  | ok row =>
    have hperf := World.serve_ok hres ▸ hres
    cases hperf
    rw [hrow]
    refine Sat.along (P := writesOnly tx.swapId) (g := ()) (Q := fun _ _ => True) ?_ (fun _ _ _ => trivial)
      fun _ c a w hc => othersStay_serve hc
    refine sat_computed (fun _ _ => ?_) fun _ _ => trivial
    exact sat_perform (writesOnly_none rfl) (fun now _ => writesOnly_cancel) fun _ => trivial

/-- **Cancel is authorised.** In every world, for every request and whatever the collaborators
answer: a row becomes canceled only if it is the row the request names, is open, and the policy
admits the request; a request that is not admitted fails and changes nothing, neither a row nor the
log nor a session; and where both parties have one fingerprint the policy is Bob's. -/
theorem cancel_respects_policy (sv : Services) (o : Orchestrator) (w : World) (id : SwapId) (byPgpFp : PgpFingerprint)
    (reason sigHex : String) (as : Nat → Answer) :
    let out := (program o (.cancel id byPgpFp reason sigHex)).run (World.serve sv) as w
    (∀ i row row', w.rows.lookup i = some row → out.world.rows.lookup i = some row' → row.phase ≠ .canceled →
      row'.phase = .canceled → ∃ tx, MayCancel o w id byPgpFp reason sigHex tx ∧ tx.swapId = i) ∧
    ((∀ tx, ¬ MayCancel o w id byPgpFp reason sigHex tx) → out.world = w ∧ ∃ e, out.value = .error e) ∧
    ∀ parties phase, parties.bobPgpFp = parties.alicePgpFp →
      (Authorised o.ed25519 id parties phase byPgpFp reason sigHex ↔
      byPgpFp = parties.bobPgpFp ∧ (phase.Early ∨ phase = .insertPushed) ∧
        Signed o.ed25519 parties.bobCancelPubkeyHex (Identity.partyCancelMessage id.id byPgpFp.hex reason) sigHex) := by
  have hrun : (program o (.cancel id byPgpFp reason sigHex)).run (World.serve sv) as w = _ :=
    run_task_map (cancelSwap o id byPgpFp reason sigHex) (fun _ => Reply.canceled) as w
  intro out
  have hout := (rfl : out = _).trans hrun
  clear_value out
  have hrefused : (∀ tx, ¬ MayCancel o w id byPgpFp reason sigHex tx) → out.world = w ∧
      ∃ e, out.value = .error e := by
    intro hno
    have hturned : Along (World.serve sv) (fun _ => True) (fun w w' => w' = w)
      (cancelSwap o id byPgpFp reason sigHex).run w
      fun res _ => ∃ e, res = .error e := cancelSwap_refused hno
    have hkept := hturned.keeps (I := (· = w)) rfl fun _ _ h h' => h.trans h'
    obtain ⟨⟨e, he⟩, hsame⟩ := hkept.run as fun _ _ => trivial
    rw [hout]
    exact ⟨hsame, e, by dsimp only; rw [he]; rfl⟩
  refine ⟨fun i row row' hrow hrow' hopen hcanceled => ?_, hrefused, fun _ _ hsame => authorised_same_party hsame⟩
  have hmay : ∃ tx, MayCancel o w id byPgpFp reason sigHex tx := by
    by_contra hno
    rw [(hrefused (not_exists.1 hno)).1, hrow] at hrow'
    cases hrow'
    exact hopen hcanceled
  obtain ⟨tx, htx⟩ := hmay
  refine ⟨tx, htx, ?_⟩
  by_contra hne
  have hothers : Along (World.serve sv) (fun _ => True) (OthersStay tx.swapId)
    (cancelSwap o id byPgpFp reason sigHex).run w
      fun _ _ => True := cancelSwap_others htx.1
  have hkept := hothers.keeps (I := fun w' => w'.rows.lookup i = w.rows.lookup i) rfl fun _ _ h h' =>
    (h i (Ne.symm hne)).trans h'
  have hsame := (hkept.run as fun _ _ => trivial).2
  rw [hout] at hrow'
  rw [hsame, hrow] at hrow'
  cases hrow'
  exact hopen hcanceled

end

end Webycash.Referee
