import Webycash.Referee.World
/-!
# The orchestrator (`referee/src/api/orchestrator.rs`)

The three entry points as programs over the collaborators' calls, call for call in the order of
the source: `?` is the bind of `Task`, a call whose error is dropped is a `bestEffort`. The id that
`SwapId::fresh` draws is an argument of `startSwap`.

| here | there |
| --- | --- |
| `startSwap`               | api/orchestrator.rs:101 |
| `checkCancel`, `cancelSwap` | api/orchestrator.rs:285 |
| `advanceSwap`             | api/orchestrator.rs:433 |
| `advanceFromInsertPushed`, `advanceFromAborted`, `advanceFromInvalidated` | api/orchestrator.rs:465, :573, :597 |
| `closeHtlcIfAny`, `auditPhase`, `persist` | api/orchestrator.rs:650, :666, :684 |
-/

namespace Webycash.Referee

open Prog

/-- `Result<T>` of a method that talks to the collaborators. -/
abbrev Async (α : Type) := Task RefereeError Call.Result α

/-- `.await?`. -/
abbrev await (c : Call) : Async c.Result := perform c

/-- An awaited call whose error is dropped. -/
abbrev bestEffort (c : Call) : Async (Except RefereeError c.Result) := attempt c

structure Orchestrator where
  ed25519 : Ed25519
  swapMaxAgeSecs : Nat
  insertPushRetry : UInt8
  callbackBaseUrl : String

inductive SwapOutcome
  | settled (id : SwapId)
  | refunded (id : SwapId)
  | canceled (id : SwapId)
  deriving DecidableEq

/-- `u64::saturating_add`. -/
def saturatingAddU64 (a b : Nat) : Nat := min (a + b) 18446744073709551615

def base64Of (bytes : List UInt8) : String := Base64.encode bytes

def Orchestrator.callbackUrl (o : Orchestrator) (id : SwapId) : String := o.callbackBaseUrl ++ "/" ++ id.id ++ "/ack"

/-! ## Shared steps -/

def auditPhase (id : SwapId) (phase : Phase) (payload : Json) (priorTip : String) : Async String := do
  let tsUnix ← await .now
  await (.append ⟨id, phase, tsUnix, priorTip, payload, ""⟩)

/-- What a row that is there passes on to the row that replaces it. -/
def Transaction.keeping (tx : Transaction) : Option Transaction → Transaction
  | some existing => { tx with
      createdAtUnix := existing.createdAtUnix
      cancelReason := existing.cancelReason
      canceledByPgpFp := existing.canceledByPgpFp
      htlcRefundContractId := existing.htlcRefundContractId }
  | none => tx

def persist {p : Phase} (s : SwapState p) (phase : Phase) : Async Unit := do
  let now ← await .now
  let tx := Transaction.deriveFrom s phase now none none none
  if phase = .init then
    await (.upsert { tx with createdAtUnix := s.phaseEnteredAt })
  else
    let existing ← await (.get s.id)
    await (.upsert (tx.keeping existing))

/-- Best effort: an error of the store or the RGB server is dropped. -/
def closeHtlcIfAny (id : SwapId) (kind : HtlcCloseKind) : Async Unit := do
  let found ← bestEffort (.get id)
  match found.toOption.join.bind Transaction.htlcRefundContractId with
  | some cid =>
    let _ ← bestEffort (.closeHtlcRefund id.id cid kind)
    return ()
  | none => return ()

/-- The row, or the error for an id without one. -/
def getKnown (id : SwapId) : Async Transaction := do
  let tx ← await (.get id)
  computed (tx.elim (.error (.badRequest ("unknown swap_id: " ++ id.id))) .ok)

/-! ## Start -/

/-- The body of `POST /v1/swap/initiate`. -/
structure InitiateRequest where
  parties : Parties
  bob : BobPayload
  alice : AlicePayload
  aliceNonces : AliceMusig2Nonces
  deriving DecidableEq

/-- Keep the contract id with the row, so that a later close finds it. -/
def saveContract (id : SwapId) : Option String → Async Unit
  | none => return ()
  | some cid => do
    let row ← await (.get id)
    match row with
    | some row => await (.upsert { row with htlcRefundContractId := some cid })
    | none => return ()

def initPayload (req : InitiateRequest) : Json :=
  .obj [("alice_pgp_fp", .str req.parties.alicePgpFp.hex), ("bob_pgp_fp", .str req.parties.bobPgpFp.hex),
    ("h_b", .str req.bob.hB.hash), ("tx_refund_hash", .str req.alice.txRefundHash),
    ("tx_settle_hash", .str req.alice.txSettleHash), ("vtxo", .str req.alice.vtxo.hash)]

def recordPayload (s : SwapFields) : Json :=
  .obj [("alice", .str s.parties.alicePgpFp.hex), ("bob", .str s.parties.bobPgpFp.hex),
    ("tx_refund_hash", .str s.alice.txRefundHash), ("tx_settle_hash", .str s.alice.txSettleHash)]

def insertPush (o : Orchestrator) (s : SwapFields) (id : SwapId) : PushRequest where
  swapId := id
  recipientPgpFp := s.parties.alicePgpFp
  kind := .insert
  payloadB64 := base64Of s.bob.encSecretForAlice.bytes
  callbackUrl := o.callbackUrl id

def startSwap (o : Orchestrator) (id : SwapId) (req : InitiateRequest) : Async SwapId := do
  let nowUnix ← await .now
  let settlePubNonce ← await (.beginSession id .settle)
  let refundPubNonce ← await (.beginSession id .refund)
  let initTip ← await (.append ⟨id, .init, nowUnix, "", initPayload req, ""⟩)
  let initial := initiate id req.parties req.bob req.alice req.aliceNonces ⟨settlePubNonce.hex,
    refundPubNonce.hex, id⟩
    nowUnix initTip
  persist initial .init
  let _ ← await (.mintSwapRecord id.id (recordPayload initial.toSwapFields))
  let htlcContract ← bestEffort (.mintHtlcRefund id.id
    ⟨saturatingAddU64 nowUnix o.swapMaxAgeSecs, "", initial.parties.bobPgpFp.hex, initial.parties.alicePgpFp.hex⟩)
  saveContract id htlcContract.toOption.join
  let okBob ← await (.verify .bobPayload req.bob.zkpPayload)
  let okAlice ← await (.verify .aliceSignature req.alice.zkpSignature)
  let zkpsTip ← auditPhase id .zkpsVerified
    (.obj [("ok_alice", .bool okAlice), ("ok_bob", .bool okBob)]) initial.auditTipHex
  let zkpsAt ← await .now
  let zkpsState ← computed (verifyZkps initial (okBob && okAlice) zkpsAt zkpsTip)
  persist zkpsState .zkpsVerified
  let preStatus : SpentStatus ← await (.check zkpsState.bob.hB)
  let unspent := decide (preStatus = .unspent)
  let preTip ← auditPhase id .preChecked (.obj [("unspent", .bool unspent)]) zkpsState.auditTipHex
  let preAt ← await .now
  let preState ← computed (preCheck zkpsState unspent preAt preTip)
  persist preState .preChecked
  await (.dispatch (insertPush o preState.toSwapFields id))
  let pushTip ← auditPhase id .insertPushed (.obj [("attempt", .num 1)]) preState.auditTipHex
  let pushedAt ← await .now
  persist (insertPushedFromPre preState pushedAt pushTip) .insertPushed
  return id

/-! ## Cancel -/

/-- Match the requester to a party; the flag says whether it is Bob. -/
def cancelParty (parties : Parties) (byPgpFp : PgpFingerprint) : Except RefereeError (String × Bool) :=
  if byPgpFp = parties.bobPgpFp then .ok (parties.bobCancelPubkeyHex, true)
  else if byPgpFp = parties.alicePgpFp then .ok (parties.aliceCancelPubkeyHex, false)
  else .error (.badRequest "by_pgp_fp does not match either party of this swap")

/-- Phase eligibility per policy. -/
def cancelEligible (isBob : Bool) : Phase → Except RefereeError Unit
  | .init | .zkpsVerified | .preChecked => .ok ()
  | .insertPushed =>
    if !isBob then .error (.invalidTransition
      "alice cannot unilaterally cancel after insert-pushed; the swap will refund automatically once retries exhaust")
    else .ok ()
  | p => .error (.invalidTransition ("cannot cancel from phase " ++ p.name))

/-- The checks of `cancel_swap`, in order: terminal, requester, phase, signature. -/
def checkCancel (o : Orchestrator) (id : SwapId) (tx : Transaction) (byPgpFp : PgpFingerprint)
    (reason sigHex : String) :
    Except RefereeError Unit :=
  if tx.terminal then
    .error (.invalidTransition ("cannot cancel: swap is already in terminal phase " ++ tx.phase.name))
  else do
    let party ← cancelParty tx.stateBlob.inner.parties byPgpFp
    cancelEligible party.2 tx.phase
    Identity.verifyPartySignature o.ed25519 party.1 (Identity.partyCancelMessage id.id byPgpFp.hex reason) sigHex

def Transaction.cancel (tx : Transaction) (byPgpFp : PgpFingerprint) (reason tip : String) (now : Nat) : Transaction :=
  { tx with
    phase := .canceled
    status := .canceled
    terminal := true
    cancelReason := some reason
    canceledByPgpFp := some byPgpFp
    updatedAtUnix := now
    stateBlob := ⟨.canceled, { tx.stateBlob.inner with auditTipHex := tip, phaseEnteredAt := now }⟩ }

def cancelSwap (o : Orchestrator) (id : SwapId) (byPgpFp : PgpFingerprint) (reason sigHex : String) : Async Unit := do
  let tx ← getKnown id
  computed (checkCancel o id tx byPgpFp reason sigHex)
  let now ← await .now
  let canceledTip ← auditPhase id .canceled
    (.obj [("by", .str byPgpFp.hex), ("reason_sha256", .str (Hex.encode (Sha256.digest (asBytes reason))))])
    tx.stateBlob.inner.auditTipHex
  let canceled := tx.cancel byPgpFp reason canceledTip now
  await (.upsert canceled)
  if canceled.insertPushAttempts > 0 then
    let _ ← bestEffort (.dispatch ⟨id, tx.stateBlob.inner.parties.alicePgpFp, .invalidate,
      base64Of (asBytes canceled.webcashPublicHash.hash), o.callbackUrl id⟩)
  let _ ← bestEffort (.discardSession id .settle)
  let _ ← bestEffort (.discardSession id .refund)
  closeHtlcIfAny id .cancel

/-! ## Advance -/

def releaseSettlePush (o : Orchestrator) (s : SwapFields) (id : SwapId) (sig : PartialSig) : PushRequest where
  swapId := id
  recipientPgpFp := s.parties.bobPgpFp
  kind := .releaseSettle
  payloadB64 := base64Of (asBytes (Json.toText (.obj
    [("alice_enc_partial_sig", .str (base64Of s.alice.encPartialSigForBob.bytes)),
      ("referee_partial_sig", .str sig.hex)])))
  callbackUrl := o.callbackUrl id

/-- `H_B` is spent: sign for settlement, release, finish. -/
def settleBranch (o : Orchestrator) (id : SwapId) (pushState : SwapState .insertPushed) :
    Async (Option SwapOutcome) := do
  let settledTip ← auditPhase id .settled (.obj []) pushState.auditTipHex
  let settledAt ← await .now
  let settled ← computed (settle pushState .settled settledAt settledTip)
  let refereePartial ← await (.partialSign id .settle
    (asBytes settled.alice.txSettleHash) settled.parties.aliceMusig2Pubkey
    ⟨settled.aliceNonces.settleNoncePub⟩)
  await (.dispatch (releaseSettlePush o settled.toSwapFields id refereePartial))
  persist settled .settled
  await (.discardSession id .refund)
  closeHtlcIfAny id .settle
  return some (.settled id)

/-- Not spent, and a push is left. -/
def retryBranch (o : Orchestrator) (id : SwapId) (pushState : SwapState .insertPushed) :
    Async (Option SwapOutcome) := do
  await (.dispatch (insertPush o pushState.toSwapFields id))
  let retryTip ← auditPhase id .insertPushed (.obj [("attempt", .num (pushState.insertPushAttempts.toNat + 1))])
    pushState.auditTipHex
  let retriedAt ← await .now
  let retried ← computed (insertPushedRetry pushState retriedAt retryTip)
  persist retried .insertPushed
  return none

/-- Not spent, and no push is left. -/
def abortBranch (o : Orchestrator) (id : SwapId) (pushState : SwapState .insertPushed) :
    Async (Option SwapOutcome) := do
  let abortTip ← auditPhase id .aborted
    (.obj [("attempts", .num pushState.insertPushAttempts.toNat)]) pushState.auditTipHex
  let abortedAt ← await .now
  let aborted ← computed (abort pushState true abortedAt abortTip)
  persist aborted .aborted
  await (.dispatch ⟨id, aborted.parties.bobPgpFp, .invalidate, base64Of (asBytes aborted.bob.hB.hash),
    o.callbackUrl id⟩)
  return none

def advanceFromInsertPushed (o : Orchestrator) (id : SwapId) (inner : SwapFields) : Async (Option SwapOutcome) := do
  let pushState : SwapState .insertPushed := ⟨inner⟩
  let post : SpentStatus ← await (.check pushState.bob.hB)
  if post = .spent then settleBranch o id pushState
  else if pushState.insertPushAttempts < o.insertPushRetry then retryBranch o id pushState
  else abortBranch o id pushState

def advanceFromAborted (id : SwapId) (inner : SwapFields) : Async (Option SwapOutcome) := do
  let aborted : SwapState .aborted := ⟨inner⟩
  let invTip ← auditPhase id .invalidated (.obj [("acked", .bool true)]) aborted.auditTipHex
  let invalidatedAt ← await .now
  let invalidated ← computed (invalidated aborted true invalidatedAt invTip)
  persist invalidated .invalidated
  return none

def advanceFromInvalidated (o : Orchestrator) (id : SwapId) (inner : SwapFields) : Async (Option SwapOutcome) := do
  let invalidated : SwapState .invalidated := ⟨inner⟩
  let refundPartial ← await (.partialSign id .refund (asBytes invalidated.alice.txRefundHash)
    invalidated.parties.aliceMusig2Pubkey ⟨invalidated.aliceNonces.refundNoncePub⟩)
  await (.dispatch ⟨id, invalidated.parties.alicePgpFp, .releaseRefund, base64Of (asBytes refundPartial.hex),
    o.callbackUrl id⟩)
  let refundedTip ← auditPhase id .refunded (.obj []) invalidated.auditTipHex
  let refundedAt ← await .now
  persist (refunded invalidated refundedAt refundedTip) .refunded
  await (.discardSession id .settle)
  closeHtlcIfAny id .refund
  return some (.refunded id)

def advanceSwap (o : Orchestrator) (id : SwapId) : Async (Option SwapOutcome) := do
  let tx ← getKnown id
  match tx.phase with
  | .settled => return some (.settled id)
  | .refunded => return some (.refunded id)
  | .canceled => return some (.canceled id)
  | .insertPushed => advanceFromInsertPushed o id tx.stateBlob.inner
  | .aborted => advanceFromAborted id tx.stateBlob.inner
  | .invalidated => advanceFromInvalidated o id tx.stateBlob.inner
  | .init | .zkpsVerified | .preChecked => return none

/-! ## Requests -/

inductive Request
  | start (id : SwapId) (req : InitiateRequest)
  | advance (id : SwapId)
  | cancel (id : SwapId) (byPgpFp : PgpFingerprint) (reason sigHex : String)
  deriving DecidableEq

inductive Reply
  | started (id : SwapId)
  | advanced (outcome : Option SwapOutcome)
  | canceled
  deriving DecidableEq

def Request.id : Request → SwapId
  | start id _ => id
  | advance id => id
  | cancel id _ _ _ => id

/-- A request and what it answers. -/
def serveRequest (o : Orchestrator) : Request → Async Reply
  | .start id req => do return .started (← startSwap o id req)
  | .advance id => do return .advanced (← advanceSwap o id)
  | .cancel id byPgpFp reason sigHex => do
    cancelSwap o id byPgpFp reason sigHex
    return .canceled

def program (o : Orchestrator) (r : Request) :
    Prog (fun c => Except RefereeError (Call.Result c)) (Except RefereeError Reply) :=
  (serveRequest o r).run

/-! ## A swap of short strings -/

namespace Sample

/-- Every signature is in order. -/
def ed25519 : Ed25519 := ⟨fun _ => [1], fun _ => .ok (), fun _ _ _ => .ok ()⟩

/-- Every proof is accepted; the mock signer. -/
def services : Services := ⟨fun _ _ => true, mockSigner, ed25519⟩

/-- One insert push, no retry. -/
def orchestrator : Orchestrator := ⟨ed25519, 86400, 1, "https://referee.example/v1/swap"⟩

def swapId : SwapId := ⟨"5f3a"⟩

def initiateRequest : InitiateRequest where
  parties := ⟨⟨"b0"⟩, "b1", ⟨"a0"⟩, "a1", ⟨"02aa"⟩, String.ofList (List.replicate 64 'b'),
    String.ofList (List.replicate 64 'a')⟩
  bob := ⟨⟨"h"⟩, ⟨[1, 2]⟩, ⟨[3], [[4]]⟩⟩
  alice := ⟨⟨"v"⟩, "s", "r", ⟨[5]⟩, ⟨[6], [[7]]⟩⟩
  aliceNonces := ⟨"n0", "n1"⟩

/-- Nothing fails. -/
def healthy (status : SpentStatus) : Answer := ⟨none, 1714003200, status, 0, "rgb-record", none⟩

end Sample

end Webycash.Referee
