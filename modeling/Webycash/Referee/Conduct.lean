import Webycash.Referee.Cancel
import Webycash.Referee.Rows
/-!
# What a call to the orchestrator goes by (`referee/src/api/orchestrator.rs`)

A second account of the three entry points, beside `Protocol`: not in which order the collaborators
are called, but on what a call acts. `Held` is what a call has found out: the row it acts on, the
verdicts and answers it was given, the signature it obtained. `Held.Allows` says what it takes to
push, to sign and to write a row, and what a push carries. `program_conducts`: all three programs
keep to it.

| here | there |
| --- | --- |
| `Held.Allows.insert`, `.retry`         | api/orchestrator.rs:228, :525 |
| `Held.Allows.signSettle`, `.releaseSettle` | api/orchestrator.rs:491, :500 |
| `Held.Allows.signRefund`, `.releaseRefund` | api/orchestrator.rs:606, :615 |
| `Held.Allows.giveUp`, `.withdraw`      | api/orchestrator.rs:562, :391 |
| `Held.Supports`                        | the transitions of state/transitions.rs before each `persist` |
-/

namespace Webycash.Referee

open Prog

/-! ## What a call holds -/

/-- Everything a swap is started with. -/
def SwapFields.terms (s : SwapFields) : InitiateRequest := ⟨s.parties, s.bob, s.alice, s.aliceNonces⟩

def InitiateRequest.proof (req : InitiateRequest) : Circuit → Groth16Proof
  | .bobPayload => req.bob.zkpPayload
  | .aliceSignature => req.alice.zkpSignature

/-- What a call has found out: the first row it read, the last one, and what it was answered. -/
structure Held where
  acting : Option Transaction
  last : Option Transaction
  okBob : Bool
  okAlice : Bool
  status : Option SpentStatus
  sig : Option PartialSig
  pushed : Bool

def Held.nothing : Held := ⟨none, none, false, false, none, none, false⟩

/-- A start goes by its request, every other call by the row it read first. -/
def Held.terms? (h : Held) : Request → Option InitiateRequest
  | .start _ req => some req
  | _ => h.acting.map fun tx => tx.stateBlob.inner.terms

def Held.next (h : Held) : (c : Call) → Except RefereeError c.Result → Held
  | .get _, .ok row => { h with acting := h.acting.or row, last := row }
  | .verify .bobPayload _, .ok b => { h with okBob := b }
  | .verify .aliceSignature _, .ok b => { h with okAlice := b }
  | .check _, .ok s => { h with status := some s }
  | .partialSign _ _ _ _ _, .ok sig => { h with sig := some sig }
  | .dispatch push, .ok _ => if push.kind = .insert then { h with pushed := true } else h
  | _, _ => h

/-- Both proofs were accepted and `H_B` was found unspent. -/
structure Held.Cleared (h : Held) : Prop where
  okBob : h.okBob = true
  okAlice : h.okAlice = true
  unspent : h.status = some .unspent

/-- A row of the phase may be written, with this count of pushes. -/
inductive Held.Supports (o : Orchestrator) (h : Held) : Request → Phase → UInt8 → Prop
  | init {id : SwapId} {req : InitiateRequest} : Supports o h (.start id req) .init 0
  | zkpsVerified {id : SwapId} {req : InitiateRequest} (hbob : h.okBob = true) (halice : h.okAlice = true) :
      Supports o h (.start id req) .zkpsVerified 0
  | preChecked {id : SwapId} {req : InitiateRequest} (hclear : h.Cleared) : Supports o h (.start id req) .preChecked 0
  | insertPushed {id : SwapId} {req : InitiateRequest} (hclear : h.Cleared) (hpush : h.pushed = true) :
      Supports o h (.start id req) .insertPushed 1
  | retried {id : SwapId} {tx : Transaction} (hrow : h.acting = some tx) (hphase : tx.phase = .insertPushed)
      (hpush : h.pushed = true) (hleft : tx.stateBlob.inner.insertPushAttempts < o.insertPushRetry) :
      Supports o h (.advance id) .insertPushed (tx.stateBlob.inner.insertPushAttempts + 1)
  | settled {id : SwapId} {tx : Transaction} (hrow : h.acting = some tx) (hphase : tx.phase = .insertPushed)
      (hspent : h.status = some .spent) : Supports o h (.advance id) .settled tx.stateBlob.inner.insertPushAttempts
  | aborted {id : SwapId} {tx : Transaction} {s : SpentStatus} (hrow : h.acting = some tx)
      (hphase : tx.phase = .insertPushed) (hstatus : h.status = some s) (hs : s ≠ .spent)
      (hleft : ¬ tx.stateBlob.inner.insertPushAttempts < o.insertPushRetry) :
      Supports o h (.advance id) .aborted tx.stateBlob.inner.insertPushAttempts
  | invalidated {id : SwapId} {tx : Transaction} (hrow : h.acting = some tx) (hphase : tx.phase = .aborted) :
      Supports o h (.advance id) .invalidated tx.stateBlob.inner.insertPushAttempts
  | refunded {id : SwapId} {tx : Transaction} (hrow : h.acting = some tx) (hphase : tx.phase = .invalidated) :
      Supports o h (.advance id) .refunded tx.stateBlob.inner.insertPushAttempts
  | canceled {id : SwapId} {byPgpFp : PgpFingerprint} {reason sigHex : String} {tx : Transaction}
      (hrow : h.acting = some tx) :
      Supports o h (.cancel id byPgpFp reason sigHex) .canceled tx.stateBlob.inner.insertPushAttempts

/-- Calls that nothing hangs on. -/
def Call.Free : Call → Prop
  | .now | .beginSession _ _ | .discardSession _ _ | .append _ | .mintSwapRecord _ _ | .mintHtlcRefund _ _
  | .closeHtlcRefund _ _ _ => True
  | _ => False

def releaseRefundPush (o : Orchestrator) (s : SwapFields) (id : SwapId) (sig : PartialSig) : PushRequest :=
  ⟨id, s.parties.alicePgpFp, .releaseRefund, base64Of (asBytes sig.hex), o.callbackUrl id⟩

/-- The push that takes the secret back, to Bob when the swap is given up and to Alice when it is canceled. -/
def invalidatePush (o : Orchestrator) (s : SwapFields) (id : SwapId) (recipient : PgpFingerprint) : PushRequest :=
  ⟨id, recipient, .invalidate, base64Of (asBytes s.bob.hB.hash), o.callbackUrl id⟩

/-- The row is the projection of its state, and counts no push before the swap is pushed. -/
structure Transaction.Regular (tx : Transaction) : Prop where
  flat : tx.Flat
  early : tx.phase.Early → tx.stateBlob.inner.insertPushAttempts = 0

/-- What a call may do, and on what. -/
inductive Held.Allows (o : Orchestrator) (h : Held) : Request → Call → Prop
  | free {r : Request} {c : Call} (hfree : c.Free) : Allows o h r c
  | get {r : Request} : Allows o h r (.get r.id)
  | verify {id : SwapId} {req : InitiateRequest} {circuit : Circuit} {proof : Groth16Proof}
      (hproof : proof = req.proof circuit) :
      Allows o h (.start id req) (.verify circuit proof)
  | check {r : Request} {terms : InitiateRequest} {hash : WebcashPublicHash} (hterms : h.terms? r = some terms)
      (hhash : hash = terms.bob.hB) : Allows o h r (.check hash)
  | insert {id : SwapId} {req : InitiateRequest} {s : SwapFields} {push : PushRequest} (hclear : h.Cleared)
      (hpush : push = insertPush o s id) (hterms : s.terms = req) : Allows o h (.start id req) (.dispatch push)
  | retry {id : SwapId} {tx : Transaction} (hrow : h.acting = some tx) (hphase : tx.phase = .insertPushed) :
      Allows o h (.advance id) (.dispatch (insertPush o tx.stateBlob.inner id))
  | signSettle {id : SwapId} {tx : Transaction} (hrow : h.acting = some tx) (hphase : tx.phase = .insertPushed)
      (hspent : h.status = some .spent) :
      Allows o h (.advance id) (.partialSign id .settle (asBytes tx.stateBlob.inner.alice.txSettleHash)
        tx.stateBlob.inner.parties.aliceMusig2Pubkey ⟨tx.stateBlob.inner.aliceNonces.settleNoncePub⟩)
  | releaseSettle {id : SwapId} {tx : Transaction} {sig : PartialSig} (hrow : h.acting = some tx)
      (hphase : tx.phase = .insertPushed) (hspent : h.status = some .spent) (hsig : h.sig = some sig) :
      Allows o h (.advance id) (.dispatch (releaseSettlePush o tx.stateBlob.inner id sig))
  | signRefund {id : SwapId} {tx : Transaction} (hrow : h.acting = some tx) (hphase : tx.phase = .invalidated) :
      Allows o h (.advance id) (.partialSign id .refund (asBytes tx.stateBlob.inner.alice.txRefundHash)
        tx.stateBlob.inner.parties.aliceMusig2Pubkey ⟨tx.stateBlob.inner.aliceNonces.refundNoncePub⟩)
  | releaseRefund {id : SwapId} {tx : Transaction} {sig : PartialSig} (hrow : h.acting = some tx)
      (hphase : tx.phase = .invalidated)
      (hsig : h.sig = some sig) : Allows o h (.advance id) (.dispatch (releaseRefundPush o tx.stateBlob.inner id sig))
  | giveUp {id : SwapId} {tx : Transaction} {s : SpentStatus} (hrow : h.acting = some tx)
      (hphase : tx.phase = .insertPushed) (hstatus : h.status = some s) (hs : s ≠ .spent)
      (hleft : ¬ tx.stateBlob.inner.insertPushAttempts < o.insertPushRetry) :
      Allows o h (.advance id)
        (.dispatch (invalidatePush o tx.stateBlob.inner id tx.stateBlob.inner.parties.bobPgpFp))
  | withdraw {id : SwapId} {byPgpFp : PgpFingerprint} {reason sigHex : String} {tx : Transaction}
      (hrow : h.acting = some tx)
      (hcheck : checkCancel o id tx byPgpFp reason sigHex = .ok ()) (hpushed : 0 < tx.insertPushAttempts) :
      Allows o h (.cancel id byPgpFp reason sigHex)
        (.dispatch ⟨id, tx.stateBlob.inner.parties.alicePgpFp, .invalidate,
        base64Of (asBytes tx.webcashPublicHash.hash), o.callbackUrl id⟩)
  | write {r : Request} {tx : Transaction} (hwf : tx.WellFormed r.id)
      (hterms : h.terms? r = some tx.stateBlob.inner.terms)
      (hs : h.Supports o r tx.phase tx.stateBlob.inner.insertPushAttempts)
      (hreg : (∀ row, h.acting = some row → row.Regular) → tx.Regular) : Allows o h r (.upsert tx)
  | rewrite {r : Request} {row : Transaction} {cid : Option String} (hrow : h.last = some row)
      (hwf : row.WellFormed r.id) :
      Allows o h r (.upsert { row with htlcRefundContractId := cid })

def conduct (o : Orchestrator) (r : Request) : Protocol (fun c => Except RefereeError (Call.Result c)) Held where
  admits := Admits
  allows h c := h.Allows o r c
  next := Held.next

/-- A row that may be written is well formed, and follows from what is held or is the row that was read. -/
theorem Held.Allows.upsert_cases {o : Orchestrator} {h : Held} {r : Request} {tx : Transaction}
    (hc : h.Allows o r (.upsert tx)) :
    tx.WellFormed r.id ∧ ((h.terms? r = some tx.stateBlob.inner.terms ∧
      h.Supports o r tx.phase tx.stateBlob.inner.insertPushAttempts ∧
        ((∀ row, h.acting = some row → row.Regular) → tx.Regular)) ∨
      ∃ row, h.last = some row ∧ row.phase = tx.phase ∧ row.stateBlob = tx.stateBlob ∧
        (row.Regular → tx.Regular)) := by
  cases hc with
  | free hfree => exact hfree.elim
  | write hwf hterms hs hreg => exact ⟨hwf, .inl ⟨hterms, hs, hreg⟩⟩
  | rewrite hrow hwf =>
    exact ⟨⟨hwf.swapId, hwf.innerId, hwf.status, hwf.terminal⟩,
      .inr ⟨_, hrow, rfl, rfl, fun h => ⟨{ h.flat with }, h.early⟩⟩⟩

/-! ## The shared steps -/

section

variable {o : Orchestrator} {r : Request} {h : Held} {c : Call} {α β : Type}

/-- From here on the task goes by what it holds. -/
def Conducts (o : Orchestrator) (r : Request) (h : Held) (x : Async β) : Prop :=
  Sat (conduct o r) h x.run fun _ _ => True

theorem conducts_return {v : β} : Conducts o r h (return v) := trivial

theorem conducts_await {f : c.Result → Async β} (hc : h.Allows o r c)
    (hok : ∀ v, Admits c (.ok v) → Conducts o r (h.next c (.ok v)) (f v)) : Conducts o r h (await c >>= f) :=
  sat_perform hc hok fun _ => trivial

theorem conducts_attempt {f : Except RefereeError c.Result → Async β} (hc : h.Allows o r c)
    (hok : ∀ res, Conducts o r (h.next c res) (f res)) : Conducts o r h (bestEffort c >>= f) :=
  sat_attempt hc fun res _ => hok res

theorem conducts_computed {x : Except RefereeError α} {f : α → Async β}
    (hok : ∀ v, x = .ok v → Conducts o r h (f v)) :
    Conducts o r h (computed x >>= f) :=
  sat_computed hok fun _ _ => trivial

theorem next_free (hfree : c.Free) (res : Except RefereeError c.Result) : h.next c res = h := by
  cases c with
  | now | beginSession | discardSession | append | mintSwapRecord | mintHtlcRefund | closeHtlcRefund => rfl
  | partialSign | get | upsert | check | verify | dispatch => exact hfree.elim

theorem conducts_free {f : c.Result → Async β} (hfree : c.Free) (hok : ∀ v, Conducts o r h (f v)) :
    Conducts o r h (await c >>= f) :=
  conducts_await (.free hfree) fun v _ => (next_free hfree (.ok v)).symm ▸ hok v

theorem conducts_free_attempt {f : Except RefereeError c.Result → Async β} (hfree : c.Free)
    (hok : ∀ res, Conducts o r h (f res)) :
    Conducts o r h (bestEffort c >>= f) :=
  conducts_attempt (.free hfree) fun res => (next_free hfree res).symm ▸ hok res

theorem conducts_auditPhase {id : SwapId} {phase : Phase} {payload : Json} {tip : String} {f : String → Async β}
    (hok : ∀ tip, Conducts o r h (f tip)) : Conducts o r h (auditPhase id phase payload tip >>= f) := by
  rw [auditPhase, bind_assoc]
  refine conducts_free (c := .now) trivial fun ts => ?_
  exact conducts_free (c := .append _) trivial hok

/-- A row that is read again changes nothing of what a write goes by. -/
theorem Held.Supports.reread {phase : Phase} {n : UInt8} (hs : h.Supports o r phase n) (row : Option Transaction) :
    Held.Supports o { h with acting := h.acting.or row, last := row } r phase n := by
  cases hs with
  | init => exact .init
  | zkpsVerified hbob halice => exact .zkpsVerified hbob halice
  | preChecked hclear => exact .preChecked ⟨hclear.okBob, hclear.okAlice, hclear.unspent⟩
  | insertPushed hclear hpush => exact .insertPushed ⟨hclear.okBob, hclear.okAlice, hclear.unspent⟩ hpush
  | retried hrow hphase hpush hleft => exact .retried (by rw [hrow]; rfl) hphase hpush hleft
  | settled hrow hphase hspent => exact .settled (by rw [hrow]; rfl) hphase hspent
  | aborted hrow hphase hstatus hs hleft => exact .aborted (by rw [hrow]; rfl) hphase hstatus hs hleft
  | invalidated hrow hphase => exact .invalidated (by rw [hrow]; rfl) hphase
  | refunded hrow hphase => exact .refunded (by rw [hrow]; rfl) hphase
  | canceled hrow => exact .canceled (by rw [hrow]; rfl)

theorem or_of_some {α : Type} {x y : Option α} {v : α} (h : x = some v) : x.or y = some v := by rw [h]; rfl

theorem terms_reread {terms : InitiateRequest} (hterms : h.terms? r = some terms) (row : Option Transaction) :
    Held.terms? { h with acting := h.acting.or row, last := row } r = some terms := by
  cases r with
  | start id req => exact hterms
  | advance | cancel =>
    obtain ⟨tx, hrow, hterms⟩ := Option.map_eq_some_iff.1 hterms
    exact Option.map_eq_some_iff.2 ⟨tx, by rw [hrow]; rfl, hterms⟩

/-- Before the first push there is nothing to count. -/
theorem Held.Supports.early {phase : Phase} {n : UInt8} (hs : h.Supports o r phase n)
    (hphase : phase.Early) : n = 0 := by
  rcases hphase with rfl | rfl | rfl <;> cases hs <;> rfl

theorem Transaction.Regular.cancel {tx : Transaction} (h : tx.Regular) (byPgpFp : PgpFingerprint)
    (reason tip : String) (now : Nat) :
    (tx.cancel byPgpFp reason tip now).Regular where
  flat := { h.flat with phase := rfl, status := rfl, terminal := rfl }
  early hphase := by rcases hphase with h | h | h <;> cases h

/-- The first row of a start is written as it is, every other over the row that is there. -/
theorem conducts_persist {p phase : Phase} {s : SwapState p} {f : Unit → Async β} (hid : s.id = r.id)
    (hterms : h.terms? r = some s.terms) (hs : h.Supports o r phase s.insertPushAttempts)
    (hinit : phase = .init → Conducts o r h (f ()))
    (hok : phase ≠ .init → ∀ row, Conducts o r { h with acting := h.acting.or row, last := row } (f ())) :
    Conducts o r h (persist s phase >>= f) := by
  have hwf : ∀ now created reason byFp cid,
    Transaction.WellFormed { Transaction.deriveFrom s phase now none none none with
      createdAtUnix := created, cancelReason := reason, canceledByPgpFp := byFp, htlcRefundContractId := cid } r.id :=
    fun _ _ _ _ _ => ⟨hid, hid, rfl, rfl⟩
  have hreg : ∀ now created reason byFp cid,
    Transaction.Regular { Transaction.deriveFrom s phase now none none none with
      createdAtUnix := created, cancelReason := reason, canceledByPgpFp := byFp, htlcRefundContractId := cid } :=
    fun _ _ _ _ _ => ⟨⟨rfl, rfl, rfl, rfl, rfl, rfl, rfl, rfl, rfl, rfl, rfl⟩, hs.early⟩
  rw [persist, bind_assoc]
  refine conducts_free (c := .now) trivial fun now => ?_
  by_cases hphase : phase = .init
  · simp only [if_pos hphase]
    exact conducts_await (.write (hwf now s.phaseEnteredAt none none none) hterms hs fun _ => hreg ..)
      fun _ _ => hinit hphase
  · simp only [if_neg hphase, bind_assoc]
    refine conducts_await (hid ▸ .get) fun row _ => ?_
    cases row with
    | none =>
      exact conducts_await (.write (hwf now s.phaseEnteredAt none none none) (terms_reread hterms none) (hs.reread none)
        fun _ => hreg ..) fun _ _ => hok hphase none
    | some tx =>
      exact conducts_await (.write (hwf now tx.createdAtUnix tx.cancelReason tx.canceledByPgpFp tx.htlcRefundContractId)
        (terms_reread hterms (some tx)) (hs.reread (some tx)) fun _ => hreg ..) fun _ _ => hok hphase (some tx)

theorem conducts_closeHtlcIfAny {id : SwapId} {kind : HtlcCloseKind} {f : Unit → Async β} (hid : id = r.id)
    (hok : ∀ h : Held, Conducts o r h (f ())) : Conducts o r h (closeHtlcIfAny id kind >>= f) := by
  rw [closeHtlcIfAny, bind_assoc]
  refine conducts_attempt (hid ▸ .get) fun found => ?_
  split
  · exact conducts_free_attempt (c := .closeHtlcRefund _ _ _) trivial fun _ => hok _
  · exact hok _

end

/-! ## The entry points -/

section

variable {o : Orchestrator} {r : Request} {h : Held} {id : SwapId} {tx : Transaction} {β : Type}

/-- An `advance_swap` or a `cancel_swap` acts on the row it reads first. -/
def Held.on (tx : Transaction) : Held := { Held.nothing with acting := some tx, last := some tx }

theorem conducts_getKnown {f : Transaction → Async β} (hid : id = r.id)
    (hok : ∀ tx : Transaction, tx.WellFormed r.id → Conducts o r (.on tx) (f tx)) :
    Conducts o r .nothing (getKnown id >>= f) := by
  rw [getKnown, bind_assoc]
  refine conducts_await (hid ▸ .get) fun row hrow => ?_
  cases row with
  | none =>
    refine conducts_computed fun tx h => ?_
    cases h
  | some tx => exact conducts_computed fun tx' htx => Except.ok.inj htx ▸ hok tx (hid ▸ hrow)

/-- `H_B` spent: the signature, the release, the row. -/
theorem conducts_settleBranch (hrow : h.acting = some tx) (hphase : tx.phase = .insertPushed) (hwf : tx.WellFormed id)
    (hspent : h.status = some .spent) : Conducts o (.advance id) h (settleBranch o id ⟨tx.stateBlob.inner⟩) := by
  refine conducts_auditPhase fun settledTip => ?_
  refine conducts_free (c := .now) trivial fun settledAt => ?_
  refine conducts_computed fun settled hsettled => ?_
  cases hsettled
  refine conducts_await (.signSettle hrow hphase hspent) fun sig _ => ?_
  refine conducts_await (.releaseSettle hrow hphase hspent rfl) fun _ _ => ?_
  refine conducts_persist hwf.innerId ?_ (.settled hrow hphase hspent) (fun h => nomatch h) fun _ row => ?_
  · exact congrArg (Option.map fun tx : Transaction => tx.stateBlob.inner.terms) hrow
  refine conducts_free (c := .discardSession _ _) trivial fun _ => ?_
  exact conducts_closeHtlcIfAny rfl fun _ => conducts_return

/-- A push is left: push again, count it. -/
theorem conducts_retryBranch (hrow : h.acting = some tx) (hphase : tx.phase = .insertPushed) (hwf : tx.WellFormed id)
    (hleft : tx.stateBlob.inner.insertPushAttempts < o.insertPushRetry) :
    Conducts o (.advance id) h (retryBranch o id ⟨tx.stateBlob.inner⟩) := by
  refine conducts_await (.retry hrow hphase) fun _ _ => ?_
  refine conducts_auditPhase fun retryTip => ?_
  refine conducts_free (c := .now) trivial fun retriedAt => ?_
  rw [insertPushedRetry_ok hleft]
  refine conducts_computed fun retried hretried => ?_
  cases hretried
  refine conducts_persist hwf.innerId ?_ (.retried hrow hphase rfl hleft) (fun h => nomatch h)
    fun _ row => conducts_return
  exact congrArg (Option.map fun tx : Transaction => tx.stateBlob.inner.terms) hrow

/-- None is left: the row, and only then the push to Bob. -/
theorem conducts_abortBranch (hrow : h.acting = some tx) (hphase : tx.phase = .insertPushed) (hwf : tx.WellFormed id)
    {s : SpentStatus} (hstatus : h.status = some s) (hs : s ≠ .spent)
    (hleft : ¬ tx.stateBlob.inner.insertPushAttempts < o.insertPushRetry) :
    Conducts o (.advance id) h (abortBranch o id ⟨tx.stateBlob.inner⟩) := by
  refine conducts_auditPhase fun abortTip => ?_
  refine conducts_free (c := .now) trivial fun abortedAt => ?_
  refine conducts_computed fun aborted haborted => ?_
  cases haborted
  refine conducts_persist hwf.innerId ?_ (.aborted hrow hphase hstatus hs hleft) (fun h => nomatch h) fun _ row => ?_
  · exact congrArg (Option.map fun tx : Transaction => tx.stateBlob.inner.terms) hrow
  exact conducts_await (.giveUp (or_of_some hrow) hphase hstatus hs hleft) fun _ _ => conducts_return

theorem conducts_advanceFromAborted (hrow : h.acting = some tx) (hphase : tx.phase = .aborted)
    (hwf : tx.WellFormed id) :
    Conducts o (.advance id) h (advanceFromAborted id tx.stateBlob.inner) := by
  refine conducts_auditPhase fun invTip => ?_
  refine conducts_free (c := .now) trivial fun invalidatedAt => ?_
  refine conducts_computed fun s hs => ?_
  cases hs
  refine conducts_persist hwf.innerId ?_ (.invalidated hrow hphase) (fun h => nomatch h) fun _ row => conducts_return
  exact congrArg (Option.map fun tx : Transaction => tx.stateBlob.inner.terms) hrow

theorem conducts_advanceFromInvalidated (hrow : h.acting = some tx) (hphase : tx.phase = .invalidated)
    (hwf : tx.WellFormed id) :
    Conducts o (.advance id) h (advanceFromInvalidated o id tx.stateBlob.inner) := by
  refine conducts_await (.signRefund hrow hphase) fun sig _ => ?_
  refine conducts_await (.releaseRefund hrow hphase rfl) fun _ _ => ?_
  refine conducts_auditPhase fun refundedTip => ?_
  refine conducts_free (c := .now) trivial fun refundedAt => ?_
  refine conducts_persist hwf.innerId ?_ (.refunded hrow hphase) (fun h => nomatch h) fun _ row => ?_
  · exact congrArg (Option.map fun tx : Transaction => tx.stateBlob.inner.terms) hrow
  refine conducts_free (c := .discardSession _ _) trivial fun _ => ?_
  exact conducts_closeHtlcIfAny rfl fun _ => conducts_return

/-- One call of `advance_swap`. -/
theorem conducts_advanceSwap : Conducts o (.advance id) .nothing (advanceSwap o id) := by
  refine conducts_getKnown rfl fun tx hwf => ?_
  cases hphase : tx.phase with
  | init | zkpsVerified | preChecked | settled | refunded | canceled => exact conducts_return
  | aborted => exact conducts_advanceFromAborted rfl hphase hwf
  | invalidated => exact conducts_advanceFromInvalidated rfl hphase hwf
  | insertPushed =>
    refine conducts_await (.check rfl rfl) fun (post : SpentStatus) _ => ?_
    by_cases hpost : post = .spent
    · simp only [if_pos hpost]
      exact conducts_settleBranch rfl hphase hwf (congrArg some hpost)
    · simp only [if_neg hpost]
      split
      · exact conducts_retryBranch rfl hphase hwf ‹_›
      · exact conducts_abortBranch rfl hphase hwf rfl hpost ‹_›

/-- One call of `cancel_swap`. -/
theorem conducts_cancelSwap {byPgpFp : PgpFingerprint} {reason sigHex : String} :
    Conducts o (.cancel id byPgpFp reason sigHex) .nothing (cancelSwap o id byPgpFp reason sigHex) := by
  refine conducts_getKnown rfl fun tx hwf => ?_
  refine conducts_computed fun _ hcheck => ?_
  refine conducts_free (c := .now) trivial fun now => ?_
  refine conducts_auditPhase fun tip => ?_
  have hcancel : (Held.on tx).Supports o
      (.cancel id byPgpFp reason sigHex) .canceled tx.stateBlob.inner.insertPushAttempts :=
    .canceled rfl
  refine conducts_await (.write ⟨hwf.swapId, hwf.innerId, rfl, rfl⟩ rfl hcancel fun h =>
    (h tx rfl).cancel ..) fun _ _ => ?_
  have hrest : ∀ h : Held, Conducts o (.cancel id byPgpFp reason sigHex) h (do
      let _ ← bestEffort (.discardSession id .settle)
      let _ ← bestEffort (.discardSession id .refund)
      closeHtlcIfAny id .cancel) := by
    intro h
    refine conducts_free_attempt (c := .discardSession _ _) trivial fun _ => ?_
    refine conducts_free_attempt (c := .discardSession _ _) trivial fun _ => ?_
    rw [← bind_pure (closeHtlcIfAny id .cancel)]
    exact conducts_closeHtlcIfAny rfl fun _ => conducts_return
  split
  · rename_i hpushed
    exact conducts_attempt (.withdraw rfl hcheck hpushed) fun _ => hrest _
  · exact hrest _

/-- The contract id goes into the row that was read for it. -/
theorem conducts_saveContract {cid : Option String} {f : Unit → Async β} (hid : id = r.id)
    (hok : ∀ row last, Conducts o r { h with acting := row, last := last } (f ())) :
    Conducts o r h (saveContract id cid >>= f) := by
  cases cid with
  | none => exact hok h.acting h.last
  | some cid =>
    rw [saveContract, bind_assoc]
    refine conducts_await (hid ▸ .get) fun row hrow => ?_
    cases row with
    | none => exact hok _ _
    | some tx => exact conducts_await (.rewrite rfl (hid ▸ hrow)) fun _ _ => hok _ _

/-- One call of `start_swap`. -/
theorem conducts_startSwap {req : InitiateRequest} : Conducts o (.start id req) .nothing (startSwap o id req) := by
  refine conducts_free (c := .now) trivial fun nowUnix => ?_
  refine conducts_free (c := .beginSession _ _) trivial fun settleNonce => ?_
  refine conducts_free (c := .beginSession _ _) trivial fun refundNonce => ?_
  refine conducts_free (c := .append _) trivial fun initTip => ?_
  refine conducts_persist rfl rfl .init (fun _ => ?_) fun hne => absurd rfl hne
  refine conducts_free (c := .mintSwapRecord _ _) trivial fun _ => ?_
  refine conducts_free_attempt (c := .mintHtlcRefund _ _) trivial fun htlcContract => ?_
  refine conducts_saveContract rfl fun row last => ?_
  refine conducts_await (.verify rfl) fun okBob _ => ?_
  refine conducts_await (.verify rfl) fun okAlice _ => ?_
  refine conducts_auditPhase fun zkpsTip => ?_
  refine conducts_free (c := .now) trivial fun zkpsAt => ?_
  refine conducts_computed fun zkpsState hzkps => ?_
  obtain ⟨hok, rfl⟩ := verifyZkps_ok hzkps
  obtain ⟨rfl, rfl⟩ := Bool.and_eq_true_iff.1 hok
  refine conducts_persist rfl rfl (.zkpsVerified rfl rfl) (fun h => nomatch h) fun _ row => ?_
  refine conducts_await (.check rfl rfl) fun (preStatus : SpentStatus) _ => ?_
  refine conducts_auditPhase fun preTip => ?_
  refine conducts_free (c := .now) trivial fun preAt => ?_
  refine conducts_computed fun preState hpre => ?_
  obtain ⟨hunspent, rfl⟩ := preCheck_ok hpre
  obtain rfl : preStatus = .unspent := of_decide_eq_true hunspent
  refine conducts_persist rfl rfl (.preChecked ⟨rfl, rfl, rfl⟩) (fun h => nomatch h) fun _ row => ?_
  refine conducts_await (.insert ⟨rfl, rfl, rfl⟩ rfl rfl) fun _ _ => ?_
  refine conducts_auditPhase fun pushTip => ?_
  refine conducts_free (c := .now) trivial fun pushedAt => ?_
  exact conducts_persist rfl rfl (.insertPushed ⟨rfl, rfl, rfl⟩ rfl) (fun h => nomatch h) fun _ _ => conducts_return

/-- **Every call goes by what it holds.** -/
theorem program_conducts (o : Orchestrator) (r : Request) :
    Sat (conduct o r) .nothing (program o r) fun _ _ => True := by
  cases r with
  | start id req => exact sat_task_bind conducts_startSwap (fun _ _ _ => trivial) fun _ _ _ => trivial
  | advance id => exact sat_task_bind conducts_advanceSwap (fun _ _ _ => trivial) fun _ _ _ => trivial
  | cancel id byPgpFp reason sigHex =>
    exact sat_task_bind conducts_cancelSwap (fun _ _ _ => trivial) fun _ _ _ => trivial

end

end Webycash.Referee
