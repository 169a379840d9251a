import Webycash.Lib.Effect
import Webycash.Referee.State
/-!
# The referee's collaborators

Every call the orchestrator makes, and what it does: the store is a map that is overwritten, the
audit log is appended to, the signer keeps a table of live sessions. The clock, the webcash server,
the ids the RGB server hands out and the CSPRNG are the environment's (`Answer`). Any call may also
fail, with or without having been carried out (`Fault`).

| here | there |
| --- | --- |
| `AuditEntry`, `canonicalBody`, `tipHash` | referee/src/audit/mod.rs:46 |
| `Tag`, `Identity`        | referee/src/sign.rs:32, tag_for_phase state/types.rs:260 |
| `Signer`, `mockSigner`, `realSigner` | referee/src/musig2.rs:62, musig2.rs:96, musig2.rs:212 |
| `PushRequest`            | referee/src/push.rs:50 |
| `SpentStatus`, `HtlcRefundParams` | referee/src/clients/mod.rs:27 |
| `World.perform`          | `InMemoryStore`, `InMemoryAuditLog`, the methods of the signers |

The signature scheme, the MuSig2 arithmetic and the Groth16 verifier are other crates'
(`Ed25519`, `Musig2`, `Services.verify`).
-/

namespace Webycash.Referee

/-! ## The audit log -/

inductive Tag
  | initiateAck
  | zkpsVerified
  | preChecked
  | insertPushed
  | settled
  | aborted
  | invalidated
  | refunded
  | canceled

def Tag.asStr : Tag → String
  | initiateAck => "initiate-ack"
  | zkpsVerified => "zkps-verified"
  | preChecked => "pre-checked"
  | insertPushed => "insert-pushed"
  | settled => "settled"
  | aborted => "aborted"
  | invalidated => "invalidated"
  | refunded => "refunded"
  | canceled => "canceled"

def tagForPhase : Phase → Tag
  | .init => .initiateAck
  | .zkpsVerified => .zkpsVerified
  | .preChecked => .preChecked
  | .insertPushed => .insertPushed
  | .settled => .settled
  | .aborted => .aborted
  | .invalidated => .invalidated
  | .refunded => .refunded
  | .canceled => .canceled

structure AuditEntry where
  swapId : SwapId
  phase : Phase
  tsUnix : Nat
  priorTip : String
  phasePayload : Json
  signature : String

/-- The members in declaration order; an empty signature is not written. -/
def AuditEntry.canonicalBody (e : AuditEntry) : List UInt8 :=
  asBytes (Json.toText (.obj [("swap_id", .str e.swapId.id), ("phase", .str e.phase.name), ("ts_unix", .num e.tsUnix),
    ("prior_tip", .str e.priorTip), ("phase_payload", e.phasePayload)]))

def AuditEntry.tipHash (e : AuditEntry) : String := Hex.encode (Sha256.digest e.canonicalBody)

/-! ## Signatures -/

/-- The `ed25519-dalek` calls: signing with the referee's key, reading a public key, verifying. -/
structure Ed25519 where
  sign : List UInt8 → List UInt8
  fromBytes : List UInt8 → Except String Unit
  verify : List UInt8 → List UInt8 → List UInt8 → Except String Unit

namespace Identity

def sign (ed : Ed25519) (tag : Tag) (body : List UInt8) : String :=
  Hex.encode (ed.sign (asBytes ("referee:v1:" ++ tag.asStr ++ ":" ++ Hex.encode (Sha256.digest body))))

def partyCancelMessage (swapId byPgpFp reason : String) : List UInt8 :=
  asBytes ("webycash-referee/cancel-swap-v1:" ++ swapId ++ ":" ++ byPgpFp ++ ":" ++
    Hex.encode (Sha256.digest (asBytes reason)))

def verifyPartySignature (ed : Ed25519) (cancelPubkeyHex : String) (body : List UInt8) (sigHex : String) :
    Except RefereeError Unit := do
  let pk ← (Hex.decode (asBytes cancelPubkeyHex)).mapError fun e => .crypto ("cancel_pubkey hex: " ++ hexErrorText e)
  if pk.length ≠ 32 then throw (.crypto "cancel_pubkey must be 32 bytes")
  (ed.fromBytes pk).mapError fun e => .crypto ("cancel_pubkey: " ++ e)
  let sig ← (Hex.decode (asBytes sigHex)).mapError fun e => .crypto ("sig hex: " ++ hexErrorText e)
  if sig.length ≠ 64 then throw (.crypto "sig must be 64 bytes")
  (ed.verify pk body sig).mapError fun e => .crypto ("cancel sig verify: " ++ e)

end Identity

inductive Session
  | settle
  | refund
  deriving DecidableEq

def Session.debug : Session → String
  | settle => "Settle"
  | refund => "Refund"

structure PubNonce where
  hex : String
  deriving DecidableEq

structure PartialSig where
  hex : String
  deriving DecidableEq

/-- What the signers differ in: the public nonce and the signature that the seed of a session gives,
and the texts of two errors. The table of live sessions is the same (`World.perform`). -/
structure Signer where
  pubNonce : SwapId → Session → Nat → PubNonce
  sign : SwapId → Session → Nat → List UInt8 → Secp256k1Pubkey → PubNonce → Except RefereeError PartialSig
  alreadyBegun : SwapId → Session → String
  noLiveSession : SwapId → Session → String

def mockBytes : Session → String
  | .settle => "settle"
  | .refund => "refund"

/-- `MockSigner`. -/
def mockSigner : Signer where
  pubNonce id session _ :=
    let half := Hex.encode (Sha256.digest (asBytes id.id ++ asBytes (mockBytes session)))
    ⟨half ++ half⟩
  sign id session _ txHash _ _ := .ok ⟨Hex.encode
    (Sha256.digest (asBytes id.id ++ asBytes (mockBytes session) ++ txHash))⟩
  alreadyBegun id session := "session already begun for SwapId(\"" ++ id.id ++ "\") × " ++ session.debug
  noLiveSession id session := "no live session for SwapId(\"" ++ id.id ++ "\") × " ++ session.debug

/-- The `secp256k1` and `musig2` calls of `RealSigner`, under the referee's key: a nonce from the seed of
a session, Alice's inputs read from bytes, the aggregation of keys and nonces, and signing. -/
structure Musig2 where
  PublicKey : Type
  Nonce : Type
  SecNonce : Type
  KeyAgg : Type
  AggNonce : Type
  pk : PublicKey
  secNonce : Nat → SecNonce
  publicNonce : SecNonce → Nonce
  serializeNonce : Nonce → List UInt8
  publicKeyFromSlice : List UInt8 → Except String PublicKey
  nonceFromBytes : List UInt8 → Except String Nonce
  keyAgg : PublicKey → PublicKey → Except String KeyAgg
  aggNonce : Nonce → Nonce → AggNonce
  signPartial : KeyAgg → SecNonce → AggNonce → List UInt8 → Except String (List UInt8)

section

variable (lib : Musig2)

def parseAlicePubkey (s : Secp256k1Pubkey) : Except RefereeError lib.PublicKey := do
  let bytes ← (Hex.decode (asBytes s.hex)).mapError fun e => .musig2 ("alice pubkey hex: " ++ hexErrorText e)
  (lib.publicKeyFromSlice bytes).mapError fun e => .musig2 ("alice pubkey: " ++ e)

def parseAlicePubNonce (n : PubNonce) : Except RefereeError lib.Nonce := do
  let bytes ← (Hex.decode (asBytes n.hex)).mapError fun e => .musig2 ("alice nonce hex: " ++ hexErrorText e)
  (lib.nonceFromBytes bytes).mapError fun e => .musig2 ("alice nonce: " ++ e)

/-- `RealSigner`. -/
def realSigner : Signer where
  pubNonce _ _ seed := ⟨Hex.encode (lib.serializeNonce (lib.publicNonce (lib.secNonce seed)))⟩
  sign _ _ seed txHash alicePubshare alicePubNonce := do
    let alicePk ← parseAlicePubkey lib alicePubshare
    let aliceNonce ← parseAlicePubNonce lib alicePubNonce
    let keyAgg ← (lib.keyAgg lib.pk alicePk).mapError fun e => .musig2 ("keyagg: " ++ e)
    let secNonce := lib.secNonce seed
    let signature ← (lib.signPartial keyAgg secNonce
      (lib.aggNonce (lib.publicNonce secNonce) aliceNonce) txHash).mapError
      fun e => .musig2 ("partial sign: " ++ e)
    return ⟨Hex.encode signature⟩
  alreadyBegun id session := "session already begun: " ++ id.id ++ " / " ++ session.debug
  noLiveSession id session := "no live session: " ++ id.id ++ " / " ++ session.debug

end

/-! ## The other services -/

inductive SpentStatus
  | unspent
  | spent
  | unknown
  deriving DecidableEq

inductive Circuit
  | bobPayload
  | aliceSignature
  deriving DecidableEq

inductive PushKind
  | insert
  | invalidate
  | releaseSettle
  | releaseRefund
  deriving DecidableEq

structure PushRequest where
  swapId : SwapId
  recipientPgpFp : PgpFingerprint
  kind : PushKind
  payloadB64 : String
  callbackUrl : String
  deriving DecidableEq

structure HtlcRefundParams where
  timeoutUnix : Nat
  refundUnlockHashHex : String
  bobPgpFp : String
  alicePgpFp : String

inductive HtlcCloseKind
  | settle
  | refund
  | cancel
  deriving DecidableEq

/-! ## Calls -/

inductive Call
  | now
  | beginSession (id : SwapId) (session : Session)
  | partialSign (id : SwapId) (session : Session) (txHash : List UInt8) (alicePubshare : Secp256k1Pubkey)
      (alicePubNonce : PubNonce)
  | discardSession (id : SwapId) (session : Session)
  | append (entry : AuditEntry)
  | get (id : SwapId)
  | upsert (tx : Transaction)
  | check (hash : WebcashPublicHash)
  | verify (circuit : Circuit) (proof : Groth16Proof)
  | mintSwapRecord (swapId : String) (payload : Json)
  | mintHtlcRefund (swapId : String) (params : HtlcRefundParams)
  | closeHtlcRefund (swapId contractId : String) (kind : HtlcCloseKind)
  | dispatch (req : PushRequest)

@[reducible] def Call.Result : Call → Type
  | now => Nat
  | beginSession _ _ => PubNonce
  | partialSign _ _ _ _ _ => PartialSig
  | discardSession _ _ => Unit
  | append _ => String
  | get _ => Option Transaction
  | upsert _ => Unit
  | check _ => SpentStatus
  | verify _ _ => Bool
  | mintSwapRecord _ _ => String
  | mintHtlcRefund _ _ => Option String
  | closeHtlcRefund _ _ _ => Unit
  | dispatch _ => Unit

def Call.row? : Call → Option Transaction
  | upsert tx => some tx
  | _ => none

def Call.entry? : Call → Option AuditEntry
  | append e => some e
  | _ => none

def Call.push? : Call → Option PushRequest
  | dispatch req => some req
  | _ => none

/-- A call that fails was carried out or it was not. -/
inductive Fault
  | lost (e : RefereeError)
  | unconfirmed (e : RefereeError)
  deriving DecidableEq

/-- What the environment chooses for one call. -/
structure Answer where
  fault : Option Fault
  clock : Nat
  status : SpentStatus
  seed : Nat
  recordId : String
  contractId : Option String

structure Services where
  verify : Circuit → Groth16Proof → Bool
  signer : Signer
  ed25519 : Ed25519

/-- A live session is kept with its seed. -/
structure World where
  rows : FMap SwapId Transaction
  log : List AuditEntry
  live : FMap (SwapId × Session) Nat
  signed : List (SwapId × Session)

namespace World

def empty : World := ⟨∅, [], ∅, []⟩

/-- `entries_for`. -/
def entriesFor (w : World) (id : SwapId) : List AuditEntry := w.log.filter (·.swapId = id)

/-- `tip_for`. -/
def tipFor (w : World) (id : SwapId) : String := ((w.entriesFor id).getLast?.map AuditEntry.tipHash).getD ""

variable (sv : Services)

/-- The call is carried out. Signing takes the session out of the table before anything else. -/
def perform : (c : Call) → Answer → World → Except RefereeError c.Result × World
  | .now, a, w => (.ok a.clock, w)
  | .beginSession id session, a, w =>
    if (id, session) ∈ w.live then (.error (.musig2 (sv.signer.alreadyBegun id session)), w)
    else (.ok (sv.signer.pubNonce id session a.seed), { w with live := w.live.insert (id, session) a.seed })
  | .partialSign id session txHash alicePubshare alicePubNonce, _, w =>
    match w.live.lookup (id, session) with
    | none => (.error (.musig2 (sv.signer.noLiveSession id session)), w)
    | some seed =>
      match sv.signer.sign id session seed txHash alicePubshare alicePubNonce with
      | .ok sig => (.ok sig, { w with live := w.live.erase (id, session), signed := (id, session) :: w.signed })
      | .error e => (.error e, { w with live := w.live.erase (id, session) })
  | .discardSession id session, _, w => (.ok (), { w with live := w.live.erase (id, session) })
  | .append entry, _, w =>
    (.ok entry.tipHash, { w with log := w.log ++
      [{ entry with signature := Identity.sign sv.ed25519 (tagForPhase entry.phase) entry.canonicalBody }] })
  | .get id, _, w => (.ok (w.rows.lookup id), w)
  | .upsert tx, _, w => (.ok (), { w with rows := w.rows.insert tx.swapId tx })
  | .check _, a, w => (.ok a.status, w)
  | .verify circuit proof, _, w => (.ok (sv.verify circuit proof), w)
  | .mintSwapRecord _ _, a, w => (.ok a.recordId, w)
  | .mintHtlcRefund _ _, a, w => (.ok a.contractId, w)
  | .closeHtlcRefund _ _ _, _, w => (.ok (), w)
  | .dispatch _, _, w => (.ok (), w)

/-- Reading the clock does not fail. -/
def serve : (c : Call) → Answer → World → Except RefereeError c.Result × World
  | .now, a, w => perform sv .now a w
  | c, a, w =>
    match a.fault with
    | none => perform sv c a w
    | some (.lost e) => (.error e, w)
    | some (.unconfirmed e) => (.error e, (perform sv c a w).2)

/-! ## What a call can change -/

section

variable (sv : Services) (c : Call) (a : Answer) (w : World)

theorem serve_of_fault_none {sv : Services} {c : Call} {a : Answer} {w : World} (h : a.fault = none) :
    serve sv c a w = perform sv c a w := by
  cases c <;> simp only [serve, h]

/-- A call answers what it does, or fails with or without having done it. -/
theorem serve_cases : serve sv c a w = perform sv c a w ∨
    ∃ e, serve sv c a w = (.error e, w) ∨ serve sv c a w = (.error e, (perform sv c a w).2) := by
  cases hf : a.fault with
  | none => cases c <;> exact .inl (by simp only [serve, hf])
  | some f =>
    cases f with
    | lost e =>
      cases c with
      | now => exact .inl rfl
      | _ => exact .inr ⟨e, .inl (by simp only [serve, hf])⟩
    | unconfirmed e =>
      cases c with
      | now => exact .inl rfl
      | _ => exact .inr ⟨e, .inr (by simp only [serve, hf])⟩

theorem serve_world : (serve sv c a w).2 = w ∨ (serve sv c a w).2 = (perform sv c a w).2 := by
  rcases serve_cases sv c a w with h | ⟨e, h | h⟩ <;> simp [h]

theorem serve_ok {sv : Services} {c : Call} {a : Answer} {w : World} {r : c.Result}
    (h : (serve sv c a w).1 = .ok r) : serve sv c a w = perform sv c a w := by
  rcases serve_cases sv c a w with h' | ⟨e, h' | h'⟩
  · exact h'
  · simp [h'] at h
  · simp [h'] at h

theorem serve_rows : (serve sv c a w).2.rows = w.rows ∨
    ∃ tx, c = .upsert tx ∧ (serve sv c a w).2.rows = w.rows.insert tx.swapId tx := by
  rcases serve_world sv c a w with h | h <;> rw [h]
  · exact .inl rfl
  · cases c with
    | upsert tx => exact .inr ⟨tx, rfl, rfl⟩
    | beginSession id session => unfold perform; dsimp only; split <;> exact .inl rfl
    | partialSign id session tx pk n =>
      unfold perform
      dsimp only
      split
      · exact .inl rfl
      · split <;> exact .inl rfl
    | _ => exact .inl rfl

/-- A row is found as it was before the call, or as the call writes it. -/
theorem serve_lookup (id : SwapId) : (serve sv c a w).2.rows.lookup id = w.rows.lookup id ∨
    ∃ tx, c = .upsert tx ∧ id = tx.swapId ∧ (serve sv c a w).2.rows.lookup id = some tx := by
  rcases serve_rows sv c a w with h | ⟨tx, rfl, h⟩ <;> rw [h]
  · exact .inl rfl
  · rw [FMap.lookup_insert_ite]
    by_cases hid : id = tx.swapId
    · exact .inr ⟨tx, rfl, hid, if_pos hid⟩
    · exact .inl (if_neg hid)

theorem serve_found {sv : Services} {c : Call} {a : Answer} {w : World} {id : SwapId} {tx : Transaction}
    (h : (serve sv c a w).2.rows.lookup id = some tx) :
    w.rows.lookup id = some tx ∨ c = .upsert tx ∧ id = tx.swapId := by
  rcases serve_lookup sv c a w id with hsame | ⟨row, hc, hid, hset⟩
  · exact .inl (hsame ▸ h)
  · obtain rfl : row = tx := Option.some.inj (hset.symm.trans h)
    exact .inr ⟨hc, hid⟩

theorem serve_log : (serve sv c a w).2.log = w.log ∨
    ∃ e, c = .append e ∧ (serve sv c a w).2.log = w.log ++
      [{ e with signature := Identity.sign sv.ed25519 (tagForPhase e.phase) e.canonicalBody }] := by
  rcases serve_world sv c a w with h | h <;> rw [h]
  · exact .inl rfl
  · cases c with
    | append e => exact .inr ⟨e, rfl, rfl⟩
    | beginSession id session => unfold perform; dsimp only; split <;> exact .inl rfl
    | partialSign id session tx pk n =>
      unfold perform
      dsimp only
      split
      · exact .inl rfl
      · split <;> exact .inl rfl
    | _ => exact .inl rfl

/-- The table of sessions and the signatures made: a session is live or has signed, not both. -/
theorem serve_signed :
    ((serve sv c a w).2.signed = w.signed ∧
      ∀ s, s ∈ (serve sv c a w).2.live → s ∈ w.live ∨ c = .beginSession s.1 s.2) ∨
    ∃ id session tx pk n, c = .partialSign id session tx pk n ∧ (id, session) ∈ w.live ∧
      (serve sv c a w).2.signed = (id, session) :: w.signed ∧
      (serve sv c a w).2.live = w.live.erase (id, session) := by
  rcases serve_world sv c a w with h | h <;> rw [h]
  · exact .inl ⟨rfl, fun s hs => .inl hs⟩
  · cases c with
    | beginSession id session =>
      unfold perform
      dsimp only
      split
      · exact .inl ⟨rfl, fun s hs => .inl hs⟩
      · refine .inl ⟨rfl, fun s hs => ?_⟩
        rcases Finmap.mem_insert.1 hs with rfl | hs
        · exact .inr rfl
        · exact .inl hs
    | partialSign id session tx pk n =>
      unfold perform
      dsimp only
      split
      · exact .inl ⟨rfl, fun s hs => .inl hs⟩
      · rename_i seed hlive
        split
        · exact .inr ⟨id, session, tx, pk, n, rfl, Finmap.mem_of_lookup_eq_some hlive, rfl, rfl⟩
        · exact .inl ⟨rfl, fun s hs => .inl (Finmap.mem_erase.1 hs).2⟩
    | discardSession id session => exact .inl ⟨rfl, fun s hs => .inl (Finmap.mem_erase.1 hs).2⟩
    | _ => exact .inl ⟨rfl, fun s hs => .inl hs⟩

end

end World

end Webycash.Referee
