import Webycash.Asset.Htlc
import Webycash.Lib.Json
/-!
# The swap: its data, its phases and the pure transitions

A swap's state carries its phase in its type, so that a transition can only be applied to a state
of the phase it starts from. Rows keep the state without the phase (`SwapFields`), the way serde
writes it, beside a projection for the user (`Transaction`).

| here | there |
| --- | --- |
| `RefereeError`           | referee/src/error.rs:12 |
| `Parties` … `SwapFields` | referee/src/state/types.rs:31 |
| `Phase`, `SwapState`     | state/phases.rs:46, state/types.rs:215 |
| `initiate` … `refunded`  | state/transitions.rs:26 |
| `Transaction`            | referee/src/transaction.rs:94 |
-/

namespace Webycash.Referee

inductive RefereeError
  | badRequest (msg : String)
  | zkpRejected (msg : String)
  | musig2 (msg : String)
  | invalidTransition (msg : String)
  | store (msg : String)
  | external (msg : String)
  | push (msg : String)
  | crypto (msg : String)
  | internal (msg : String)
  deriving DecidableEq

/-! ## Data -/

/-- A ciphertext the referee never opens; the parameter says what the cleartext would be. -/
structure PgpEncrypted (cleartext : Type) where
  bytes : List UInt8
  deriving DecidableEq

structure WebcashSecret
  deriving DecidableEq

structure AliceTxSettlePartialSig
  deriving DecidableEq

structure WebcashPublicHash where
  hash : String
  deriving DecidableEq

structure ArkOutpointHash where
  hash : String
  deriving DecidableEq

structure PgpFingerprint where
  hex : String
  deriving DecidableEq

structure Secp256k1Pubkey where
  hex : String
  deriving DecidableEq

structure SwapId where
  id : String
  deriving DecidableEq

structure Parties where
  bobPgpFp : PgpFingerprint
  bobPgpPubkeyHex : String
  alicePgpFp : PgpFingerprint
  alicePgpPubkeyHex : String
  aliceMusig2Pubkey : Secp256k1Pubkey
  bobCancelPubkeyHex : String
  aliceCancelPubkeyHex : String
  deriving DecidableEq

structure Groth16Proof where
  proof : List UInt8
  publicInputs : List (List UInt8)
  deriving DecidableEq

structure BobPayload where
  hB : WebcashPublicHash
  encSecretForAlice : PgpEncrypted WebcashSecret
  zkpPayload : Groth16Proof
  deriving DecidableEq

structure AlicePayload where
  vtxo : ArkOutpointHash
  txSettleHash : String
  txRefundHash : String
  encPartialSigForBob : PgpEncrypted AliceTxSettlePartialSig
  zkpSignature : Groth16Proof
  deriving DecidableEq

structure AliceMusig2Nonces where
  settleNoncePub : String
  refundNoncePub : String
  deriving DecidableEq

structure Musig2Sessions where
  settlePubNonce : String
  refundPubNonce : String
  secretNonceHandle : SwapId
  deriving DecidableEq

/-- What serde writes of a `SwapState`; the phase is not part of it. -/
structure SwapFields where
  id : SwapId
  parties : Parties
  bob : BobPayload
  alice : AlicePayload
  aliceNonces : AliceMusig2Nonces
  refereeSessions : Musig2Sessions
  phaseEnteredAt : Nat
  insertPushAttempts : UInt8
  auditTipHex : String
  deriving DecidableEq

/-! ## Phases -/

inductive Phase
  | init
  | zkpsVerified
  | preChecked
  | insertPushed
  | settled
  | aborted
  | invalidated
  | refunded
  | canceled
  deriving DecidableEq

/-- `Phase::NAME`. -/
def Phase.name : Phase → String
  | init => "init"
  | zkpsVerified => "zkps-verified"
  | preChecked => "pre-checked"
  | insertPushed => "insert-pushed"
  | settled => "settled"
  | aborted => "aborted"
  | invalidated => "invalidated"
  | refunded => "refunded"
  | canceled => "canceled"

structure SwapState (phase : Phase) extends SwapFields
  deriving DecidableEq

/-! ## Transitions -/

section

variable {a b : Phase}

def initiate (id : SwapId) (parties : Parties) (bob : BobPayload) (alice : AlicePayload)
    (aliceNonces : AliceMusig2Nonces)
    (refereeSessions : Musig2Sessions) (nowUnix : Nat) (auditTipHex : String) : SwapState .init :=
  ⟨⟨id, parties, bob, alice, aliceNonces, refereeSessions, nowUnix, 0, auditTipHex⟩⟩

/-- `advance`, the phase-erasing helper. -/
def SwapState.advance (s : SwapState a) (nowUnix : Nat) (newAuditTip : String) : SwapState b :=
  ⟨{ s.toSwapFields with phaseEnteredAt := nowUnix, auditTipHex := newAuditTip }⟩

def verifyZkps (s : SwapState .init) (outcomesOk : Bool) (nowUnix : Nat) (newAuditTip : String) :
    Except RefereeError (SwapState .zkpsVerified) :=
  if !outcomesOk then .error (.zkpRejected "one of the ZKPs failed verification")
  else .ok (s.advance nowUnix newAuditTip)

def preCheck (s : SwapState .zkpsVerified) (hBUnspent : Bool) (nowUnix : Nat) (newAuditTip : String) :
    Except RefereeError (SwapState .preChecked) :=
  if !hBUnspent then .error (.invalidTransition "pre-check: H_B already spent — refusing to start swap")
  else .ok (s.advance nowUnix newAuditTip)

def insertPushedFromPre (s : SwapState .preChecked) (nowUnix : Nat) (newAuditTip : String) : SwapState .insertPushed :=
  ⟨{ (s.advance nowUnix newAuditTip : SwapState .insertPushed).toSwapFields with insertPushAttempts := 1 }⟩

/-- The counter is a `u8`, the addition `checked_add`. -/
def insertPushedRetry (s : SwapState .insertPushed) (nowUnix : Nat) (newAuditTip : String) :
    Except RefereeError (SwapState .insertPushed) :=
  if s.insertPushAttempts = 255 then .error (.invalidTransition "insert_push_attempts overflow")
  else .ok ⟨{ s.toSwapFields with
    insertPushAttempts := s.insertPushAttempts + 1, phaseEnteredAt := nowUnix, auditTipHex := newAuditTip }⟩

inductive PostCheckOutcome
  | settled
  | stillUnspent
  deriving DecidableEq

def settle (s : SwapState .insertPushed) (outcome : PostCheckOutcome) (nowUnix : Nat) (newAuditTip : String) :
    Except RefereeError (SwapState .settled) :=
  if outcome ≠ .settled then .error (.invalidTransition "settle: post-check still shows H_B unspent")
  else .ok (s.advance nowUnix newAuditTip)

def abort (s : SwapState .insertPushed) (retriesExhausted : Bool) (nowUnix : Nat) (newAuditTip : String) :
    Except RefereeError (SwapState .aborted) :=
  if !retriesExhausted then .error (.invalidTransition "abort: more retries are still available — must retry first")
  else .ok (s.advance nowUnix newAuditTip)

def invalidated (s : SwapState .aborted) (bobAcked : Bool) (nowUnix : Nat) (newAuditTip : String) :
    Except RefereeError (SwapState .invalidated) :=
  if !bobAcked then .error (.invalidTransition "invalidated: Bob's wallet did not ack the invalidate_hook")
  else .ok (s.advance nowUnix newAuditTip)

def refunded (s : SwapState .invalidated) (nowUnix : Nat) (newAuditTip : String) : SwapState .refunded :=
  s.advance nowUnix newAuditTip

end

/-! ## Rows -/

inductive TransactionStatus
  | pending
  | settled
  | refunded
  | canceled
  deriving DecidableEq

def TransactionStatus.forPhase : Phase → TransactionStatus
  | .settled => settled
  | .refunded => refunded
  | .canceled => canceled
  | _ => pending

def TransactionStatus.isTerminal (s : TransactionStatus) : Bool := s ≠ pending

/-- `AnyPhaseSwapState`, with the value serde would read back. -/
structure AnyPhaseSwapState where
  phase : Phase
  inner : SwapFields
  deriving DecidableEq

structure Transaction where
  swapId : SwapId
  status : TransactionStatus
  phase : Phase
  terminal : Bool
  bobPgpFp : PgpFingerprint
  alicePgpFp : PgpFingerprint
  webcashPublicHash : WebcashPublicHash
  vtxoOutpointHash : ArkOutpointHash
  txSettleHash : String
  txRefundHash : String
  createdAtUnix : Nat
  updatedAtUnix : Nat
  insertPushAttempts : UInt8
  cancelReason : Option String
  canceledByPgpFp : Option PgpFingerprint
  htlcRefundContractId : Option String
  stateBlob : AnyPhaseSwapState
  deriving DecidableEq

def Transaction.deriveFrom {p : Phase} (s : SwapState p) (phase : Phase) (nowUnix : Nat) (cancelReason : Option String)
    (canceledByPgpFp : Option PgpFingerprint) (htlcRefundContractId : Option String) : Transaction where
  swapId := s.id
  status := .forPhase phase
  phase := phase
  terminal := (TransactionStatus.forPhase phase).isTerminal
  bobPgpFp := s.parties.bobPgpFp
  alicePgpFp := s.parties.alicePgpFp
  webcashPublicHash := s.bob.hB
  vtxoOutpointHash := s.alice.vtxo
  txSettleHash := s.alice.txSettleHash
  txRefundHash := s.alice.txRefundHash
  createdAtUnix := s.phaseEnteredAt
  updatedAtUnix := nowUnix
  insertPushAttempts := s.insertPushAttempts
  cancelReason := cancelReason
  canceledByPgpFp := canceledByPgpFp
  htlcRefundContractId := htlcRefundContractId
  stateBlob := ⟨phase, s.toSwapFields⟩

/-- `settled`, `refunded`, `canceled`. -/
def Phase.isTerminal (p : Phase) : Bool := (TransactionStatus.forPhase p).isTerminal

end Webycash.Referee
