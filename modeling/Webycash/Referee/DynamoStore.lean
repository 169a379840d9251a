import Webycash.Lib.I64
import Webycash.Referee.Protocol
import Webycash.Storage.Dynamo
/-!
# The DynamoDB store (`referee/src/store/dynamodb.rs`)

An item repeats most of a row in attributes of its own and leaves two things out: `terminal` is read
from the status, the phase of the blob from that of the row; and a number that is no `u64` reads as 0.
`itemToTransaction_itemFor` says what comes back of any row. `swap_rows_round_trip` says that every row
the orchestrator writes comes back as it was: it keeps the two phases and the two flags together, and its
times are times of the clock.

| here | there |
| --- | --- |
| `StoredTransaction`, `StoredState` | transaction.rs:94, state/types.rs:249 |
| `asStr`, `isTerminal`     | transaction.rs:66, :58 |
| `itemFor`, `itemToTransaction` | store/dynamodb.rs:215, :290 |
| `upsert`, `get`           | store/dynamodb.rs:332, :345 |

`serde_json` is another crate's (`SerdeJson`).
-/

namespace Webycash.Referee

open Prog

def TransactionStatus.asStr : TransactionStatus → String
  | pending => "pending"
  | settled => "settled"
  | refunded => "refunded"
  | canceled => "canceled"

namespace DynamoStore

open Dynamo (AttributeValue Item)

/-! ## What is stored -/

/-- `AnyPhaseSwapState` as it is stored, the phase a text and the state a JSON value. -/
structure StoredState (Value : Type) where
  phase : String
  inner : Value

/-- `Transaction` as it is stored. -/
structure StoredTransaction (Value : Type) where
  swapId : SwapId
  status : TransactionStatus
  phase : String
  terminal : Bool
  bobPgpFp : PgpFingerprint
  alicePgpFp : PgpFingerprint
  webcashPublicHash : WebcashPublicHash
  vtxoOutpointHash : ArkOutpointHash
  txSettleHash : String
  txRefundHash : String
  createdAtUnix : Nat
  updatedAtUnix : Nat
  insertPushAttempts : UInt8
  cancelReason : Option String
  canceledByPgpFp : Option PgpFingerprint
  htlcRefundContractId : Option String
  stateBlob : StoredState Value

/-- The `serde_json` calls: `to_value` and `from_value` on a state, `to_string` and `from_str` on a value. -/
structure SerdeJson where
  Value : Type
  toValue : SwapFields → Value
  fromValue : Value → Except String SwapFields
  toText : Value → Except String String
  fromText : String → Except String Value

/-- A state survives the way to the text of its blob and back. -/
structure SerdeJson.RoundTrips (json : SerdeJson) (s : SwapFields) : Prop where
  value : json.fromValue (json.toValue s) = .ok s
  text : ∃ text, json.toText (json.toValue s) = .ok text ∧ json.fromText text = .ok (json.toValue s)

/-- A row as it is stored. -/
def StoredTransaction.of (json : SerdeJson) (tx : Transaction) : StoredTransaction json.Value where
  swapId := tx.swapId
  status := tx.status
  phase := tx.phase.name
  terminal := tx.terminal
  bobPgpFp := tx.bobPgpFp
  alicePgpFp := tx.alicePgpFp
  webcashPublicHash := tx.webcashPublicHash
  vtxoOutpointHash := tx.vtxoOutpointHash
  txSettleHash := tx.txSettleHash
  txRefundHash := tx.txRefundHash
  createdAtUnix := tx.createdAtUnix
  updatedAtUnix := tx.updatedAtUnix
  insertPushAttempts := tx.insertPushAttempts
  cancelReason := tx.cancelReason
  canceledByPgpFp := tx.canceledByPgpFp
  htlcRefundContractId := tx.htlcRefundContractId
  stateBlob := ⟨tx.stateBlob.phase.name, json.toValue tx.stateBlob.inner⟩

/-- What `advance_swap` goes on with: the phase of the row, and the state of its blob. -/
def StoredTransaction.resume (json : SerdeJson) (tx : StoredTransaction json.Value) :
    Except String (String × SwapFields) :=
  (json.fromValue tx.stateBlob.inner).map fun s => (tx.phase, s)

/-! ## Items -/

section

variable (json : SerdeJson)

def PK : String := "pk"

/-- An attribute that is there or not. -/
def optS (k : String) (v : Option String) : List (String × AttributeValue) :=
  (v.map fun s => (k, AttributeValue.S s)).toList

/-- The attributes in the order they are inserted. -/
def attributesOf {Value : Type} (tx : StoredTransaction Value) (inner : String) : List (String × AttributeValue) :=
  [(PK, .S tx.swapId.id), ("status", .S tx.status.asStr), ("phase", .S tx.phase), ("terminal", .Bool tx.terminal),
    ("bob_pgp_fp", .S tx.bobPgpFp.hex), ("alice_pgp_fp", .S tx.alicePgpFp.hex),
    ("webcash_public_hash", .S tx.webcashPublicHash.hash), ("vtxo_outpoint_hash", .S tx.vtxoOutpointHash.hash),
    ("tx_settle_hash", .S tx.txSettleHash), ("tx_refund_hash", .S tx.txRefundHash),
    ("created_at_unix", .N tx.createdAtUnix.repr), ("updated_at_unix", .N tx.updatedAtUnix.repr),
    ("insert_push_attempts", .N tx.insertPushAttempts.toNat.repr)] ++
  optS "cancel_reason" tx.cancelReason ++ optS "canceled_by_pgp_fp" (tx.canceledByPgpFp.map PgpFingerprint.hex) ++
  optS "htlc_refund_contract_id" tx.htlcRefundContractId ++ [("state_blob", .S inner)]

def itemFor (tx : StoredTransaction json.Value) : Except RefereeError Item := do
  let inner ← (json.toText tx.stateBlob.inner).mapError fun e => .store ("encode state_blob: " ++ e)
  return FMap.ofPairs (attributesOf tx inner)

/-- `as_s`. -/
def asS : AttributeValue → Option String
  | .S s => some s
  | _ => none

/-- `as_n`. -/
def asN : AttributeValue → Option String
  | .N n => some n
  | _ => none

def readOptionalString (item : Item) (k : String) : Option String := (item.lookup k).bind asS

def readString (item : Item) (k : String) : Except RefereeError String :=
  (readOptionalString item k).elim (.error (.store ("missing attr " ++ k))) .ok

/-- `str::parse::<u64>`. -/
def parseU64 (n : String) : Option Nat :=
  (I64.digits? (match n.toList with | '+' :: cs => cs | cs => cs)).filter fun n => n < 2 ^ 64

def readU64 (item : Item) (k : String) : Nat := (((item.lookup k).bind asN).bind parseU64).getD 0

def statusOf : String → TransactionStatus
  | "settled" => .settled
  | "refunded" => .refunded
  | "canceled" => .canceled
  | _ => .pending

def itemToTransaction (item : Item) : Except RefereeError (StoredTransaction json.Value) := do
  let phase ← readString item "phase"
  let status := statusOf ((readString item "status").toOption.getD "pending")
  let stateBlobJson := (readString item "state_blob").toOption.getD "null"
  let inner ← (json.fromText stateBlobJson).mapError fun e => .store ("decode state_blob: " ++ e)
  let swapId ← readString item PK
  let bobPgpFp ← readString item "bob_pgp_fp"
  let alicePgpFp ← readString item "alice_pgp_fp"
  return {
    swapId := ⟨swapId⟩
    status := status
    phase := phase
    terminal := status.isTerminal
    bobPgpFp := ⟨bobPgpFp⟩
    alicePgpFp := ⟨alicePgpFp⟩
    webcashPublicHash := ⟨(readString item "webcash_public_hash").toOption.getD ""⟩
    vtxoOutpointHash := ⟨(readString item "vtxo_outpoint_hash").toOption.getD ""⟩
    txSettleHash := (readString item "tx_settle_hash").toOption.getD ""
    txRefundHash := (readString item "tx_refund_hash").toOption.getD ""
    createdAtUnix := readU64 item "created_at_unix"
    updatedAtUnix := readU64 item "updated_at_unix"
    insertPushAttempts := UInt8.ofNat (readU64 item "insert_push_attempts")
    cancelReason := readOptionalString item "cancel_reason"
    canceledByPgpFp := (readOptionalString item "canceled_by_pgp_fp").map PgpFingerprint.mk
    htlcRefundContractId := readOptionalString item "htlc_refund_contract_id"
    stateBlob := ⟨phase, inner⟩ }

/-- The table, by partition key. -/
abbrev Table := FMap String Item

def upsert (tx : StoredTransaction json.Value) (t : Table) : Except RefereeError Table := do
  let item ← itemFor json tx
  return t.insert tx.swapId.id item

def get (id : SwapId) (t : Table) : Except RefereeError (Option (StoredTransaction json.Value)) :=
  match t.lookup id.id with
  | none => .ok none
  | some item => (itemToTransaction json item).map some

end

/-! ## What comes back of a row -/

/-- A `u64` in the row reads as itself, a larger number as 0. -/
def fitU64 (n : Nat) : Nat := if n < 2 ^ 64 then n else 0

/-- A row as the store gives it back. -/
def StoredTransaction.readBack {Value : Type} (tx : StoredTransaction Value) : StoredTransaction Value :=
  { tx with
    terminal := tx.status.isTerminal
    createdAtUnix := fitU64 tx.createdAtUnix
    updatedAtUnix := fitU64 tx.updatedAtUnix
    stateBlob := ⟨tx.phase, tx.stateBlob.inner⟩ }

theorem parseU64_repr (n : Nat) : (parseU64 n.repr).getD 0 = fitU64 n := by
  have hdigits : (match n.repr.toList with | '+' :: cs => cs | cs => cs) = Nat.toDigits 10 n := by
    rw [Nat.toList_repr]
    split
    · rename_i cs h
      have hplus := Nat.isDigit_of_mem_toDigits (b := 10) (n := n) (c := '+') (by decide) (by decide)
        (by rw [h]; exact List.mem_cons_self)
      exact absurd hplus (by decide)
    · rfl
  rw [parseU64, hdigits, I64.digits?_toDigits, fitU64]
  by_cases h : n < 2 ^ 64
  · rw [if_pos h, Option.filter_some, if_pos (decide_eq_true h)]
    rfl
  · rw [if_neg h, Option.filter_some, if_neg (fun hd => h (of_decide_eq_true hd))]
    rfl

theorem lastPut_append {κ ν : Type} [DecidableEq κ] (l₁ l₂ : List (κ × ν)) (k : κ) :
    FMap.lastPut (l₁ ++ l₂) k = (FMap.lastPut l₂ k).or (FMap.lastPut l₁ k) := by
  induction l₁ with
  | nil => simp [FMap.lastPut]
  | cons p l₁ ih => simp [FMap.lastPut, ih, Option.or_assoc]

theorem lastPut_optS (k j : String) (v : Option String) :
    FMap.lastPut (optS k v) j = if j = k then v.map AttributeValue.S else none := by
  cases v with
  | none => simp [optS, FMap.lastPut]
  | some v => simp [optS, FMap.lastPut]

theorem statusOf_asStr (s : TransactionStatus) : statusOf s.asStr = s := by cases s <;> rfl

theorem asS_S (s : String) : asS (.S s) = some s := rfl

theorem asN_N (n : String) : asN (.N n) = some n := rfl

/-- An optional attribute is read as it was written. -/
theorem bind_asS (v : Option String) : (v.map AttributeValue.S).bind asS = v := by cases v <;> rfl

theorem map_mk_hex (v : Option PgpFingerprint) : (v.map PgpFingerprint.hex).map PgpFingerprint.mk =
    v := by cases v <;> rfl

theorem fitU64_attempts (n : UInt8) : UInt8.ofNat (fitU64 n.toNat) = n := by
  have hlt := n.toNat_lt
  rw [fitU64, if_pos (by omega), UInt8.ofNat_toNat]

section

variable {json : SerdeJson} {tx : StoredTransaction json.Value}

/-- An item that holds the attributes of a row, in whatever order. -/
theorem itemToTransaction_of_lookup {text : String} {v : json.Value} (h : json.fromText text = .ok v) {item : Item}
    (hitem : ∀ k, item.lookup k = FMap.lastPut (attributesOf tx text) k) :
    itemToTransaction json item = .ok { tx.readBack with stateBlob := ⟨tx.phase, v⟩ } := by
  -- each key is looked up among the attributes, then what stands there is read
  simp only [itemToTransaction, readString, readOptionalString, readU64, hitem, attributesOf,
    lastPut_append, lastPut_optS,
    FMap.lastPut, PK, String.reduceEq, if_true, if_false, Option.none_or, Option.or_none,
      Option.bind_some, asS_S, asN_N,
    bind_asS, map_mk_hex, Option.elim, Except.toOption, Option.getD_some, statusOf_asStr, parseU64_repr,
      fitU64_attempts, h,
    Except.mapError]
  rfl

/-- **What comes back of a row**, whatever is in it. -/
theorem itemToTransaction_itemFor (tx : StoredTransaction json.Value) {text : String}
    (htext : json.toText tx.stateBlob.inner = .ok text) (hback : json.fromText text = .ok tx.stateBlob.inner) :
    (itemFor json tx).bind (itemToTransaction json) = .ok tx.readBack := by
  have hitem : itemFor json tx = .ok (FMap.ofPairs (attributesOf tx text)) := by
    rw [itemFor, htext]
    rfl
  rw [hitem]
  exact itemToTransaction_of_lookup hback fun k => FMap.lookup_ofPairs _ k

end

/-- A row that agrees with itself, with times that are numbers of 64 bits. -/
structure Coherent (tx : Transaction) : Prop where
  terminal : tx.terminal = tx.status.isTerminal
  blob : tx.stateBlob.phase = tx.phase
  created : tx.createdAtUnix < 2 ^ 64
  updated : tx.updatedAtUnix < 2 ^ 64

theorem name_inj {p q : Phase} (h : p.name = q.name) : p = q := by
  cases p <;> cases q <;> first | rfl | exact absurd h (by decide)

theorem fitU64_eq_iff (n : Nat) : fitU64 n = n ↔ n < 2 ^ 64 := by
  unfold fitU64
  split <;> omega

/-- **The rows that come back as they were put.** -/
theorem readBack_of_iff (json : SerdeJson) (tx : Transaction) :
    (StoredTransaction.of json tx).readBack = StoredTransaction.of json tx ↔ Coherent tx := by
  constructor
  · intro h
    have hblob := congrArg (fun t => t.stateBlob.phase) h
    exact ⟨(congrArg StoredTransaction.terminal h).symm, (name_inj hblob).symm,
      (fitU64_eq_iff _).1 (congrArg StoredTransaction.createdAtUnix h),
        (fitU64_eq_iff _).1 (congrArg StoredTransaction.updatedAtUnix h)⟩
  · rintro ⟨hterminal, hblob, hcreated, hupdated⟩
    simp only [StoredTransaction.readBack, StoredTransaction.of, ← hterminal, hblob, (fitU64_eq_iff _).2 hcreated,
      (fitU64_eq_iff _).2 hupdated]

/-- A coherent row is read as it was written. -/
theorem round_trip_of_coherent {json : SerdeJson} {tx : Transaction} (htx : Coherent tx)
    (hjson : json.RoundTrips tx.stateBlob.inner) :
    (itemFor json (.of json tx)).bind (itemToTransaction json) = .ok (.of json tx) := by
  obtain ⟨text, htext, hback⟩ := hjson.text
  rw [itemToTransaction_itemFor (StoredTransaction.of json tx) htext hback, (readBack_of_iff json tx).2 htx]

/-- The table gives what the map of rows gives. -/
def Table.Mirrors (json : SerdeJson) (t : Table) (rows : FMap SwapId Transaction) : Prop :=
  ∀ id, get json id t = .ok ((rows.lookup id).map (.of json))

/-- **A row that is put is there, and the others are what they were.** -/
theorem Table.Mirrors.upsert {json : SerdeJson} {t : Table} {rows : FMap SwapId Transaction} {tx : Transaction}
    (h : t.Mirrors json rows) (htx : Coherent tx) (hjson : json.RoundTrips tx.stateBlob.inner) :
    ∃ t', DynamoStore.upsert json (.of json tx) t = .ok t' ∧ t'.Mirrors json (rows.insert tx.swapId tx) := by
  have hback := round_trip_of_coherent htx hjson
  cases hitem : itemFor json (.of json tx) with
  | error e =>
    rw [hitem] at hback
    cases hback
  | ok item =>
    rw [hitem] at hback
    refine ⟨t.insert tx.swapId.id item, by rw [DynamoStore.upsert, hitem]; rfl, fun id => ?_⟩
    rw [get, FMap.lookup_insert_ite, FMap.lookup_insert_ite]
    by_cases hid : id = tx.swapId
    · rw [if_pos (congrArg SwapId.id hid), if_pos hid]
      show (itemToTransaction json item).map some = _
      rw [show itemToTransaction json item = _ from hback]
      rfl
    · have hne : id.id ≠ tx.swapId.id := fun heq =>
        hid (by cases id; cases htx' : tx.swapId; rw [htx'] at heq; exact congrArg SwapId.mk heq)
      rw [if_neg hne, if_neg hid]
      exact h id

/-! ## What the orchestrator writes -/

/-- On times of the clock and coherent rows, every row that is written is coherent. -/
def rowProtocol : Protocol (fun c => Except RefereeError (Call.Result c)) Unit where
  admits c r :=
    match c, r with
    | .now, .ok t => t < 2 ^ 64
    | .get _, .ok (some tx) => Coherent tx
    | _, _ => True
  allows _ c := ∀ tx, c.row? = some tx → Coherent tx
  next _ _ _ := ()

/-- The program writes coherent rows only. -/
abbrev WritesCoherent {α : Type} (p : Prog (fun c => Except RefereeError (Call.Result c)) α) : Prop :=
  Sat rowProtocol () p fun _ _ => True

section

variable {α β : Type} {c : Call} {tx : Transaction} {id : SwapId} {phase : Phase}

theorem coherent_await {f : c.Result → Async β} (hc : ∀ tx, c.row? = some tx → Coherent tx)
    (hok : ∀ r, rowProtocol.admits c (.ok r) → WritesCoherent (f r).run) : WritesCoherent (await c >>= f).run :=
  sat_perform hc hok fun _ => trivial

/-- A call that writes no row. -/
theorem coherent_call {f : c.Result → Async β} (hc : c.row? = none)
    (hok : ∀ r, rowProtocol.admits c (.ok r) → WritesCoherent (f r).run) : WritesCoherent (await c >>= f).run :=
  coherent_await (fun _ htx => nomatch hc.symm.trans htx) hok

theorem coherent_attempt {f : Except RefereeError c.Result → Async β} (hc : c.row? = none)
    (hok : ∀ r, WritesCoherent (f r).run) : WritesCoherent (bestEffort c >>= f).run :=
  sat_attempt (fun _ htx => nomatch hc.symm.trans htx) fun r _ => hok r

theorem coherent_computed {x : Except RefereeError α} {f : α → Async β}
    (hok : ∀ a, x = .ok a → WritesCoherent (f a).run) :
    WritesCoherent (computed x >>= f).run :=
  sat_computed hok fun _ _ => trivial

theorem coherent_then {x : Async α} {f : α → Async β} (hx : WritesCoherent x.run)
    (hok : ∀ a, WritesCoherent (f a).run) :
    WritesCoherent (x >>= f).run :=
  sat_task_bind hx (fun _ a _ => hok a) fun _ _ _ => trivial

theorem coherent_last (hc : c.row? = none) : WritesCoherent (await c).run :=
  ⟨(fun _ htx => nomatch hc.symm.trans htx), fun _ _ => trivial⟩

theorem coherent_upsert (h : Coherent tx) : WritesCoherent (await (.upsert tx)).run :=
  ⟨fun _ htx => Option.some.inj htx ▸ h, fun _ _ => trivial⟩

theorem coherent_auditPhase (payload : Json) (tip : String) : WritesCoherent (auditPhase id phase payload tip).run :=
  coherent_call rfl fun _ _ => coherent_last rfl

/-- A state that is as old as the clock is written as a coherent row. -/
theorem coherent_persist {p : Phase} {s : SwapState p} (hs : s.phaseEnteredAt < 2 ^ 64) :
    WritesCoherent (persist s phase).run := by
  refine coherent_call rfl fun now hnow => ?_
  have hderived : Coherent (Transaction.deriveFrom s phase now none none none) := ⟨rfl, rfl, hs, hnow⟩
  dsimp only
  split
  · exact coherent_upsert { hderived with }
  · refine coherent_call rfl fun existing hexisting => ?_
    cases existing with
    | none => exact coherent_upsert hderived
    | some row => exact coherent_upsert ⟨rfl, rfl, hexisting.created, hnow⟩

theorem coherent_close (kind : HtlcCloseKind) : WritesCoherent (closeHtlcIfAny id kind).run := by
  refine coherent_attempt rfl fun found => ?_
  split
  · exact coherent_attempt rfl fun _ => trivial
  · trivial

theorem coherent_saveContract (cid : Option String) : WritesCoherent (saveContract id cid).run := by
  cases cid with
  | none => trivial
  | some cid =>
    refine coherent_call rfl fun row hrow => ?_
    cases row with
    | none => trivial
    | some row => exact coherent_upsert ⟨hrow.terminal, hrow.blob, hrow.created, hrow.updated⟩

end

section

variable (o : Orchestrator) (id : SwapId)

/-- Every state of a start has been entered at a time of the clock. -/
theorem coherent_startSwap (req : InitiateRequest) : WritesCoherent (startSwap o id req).run := by
  refine coherent_call rfl fun nowUnix hnow => coherent_call rfl fun settleNonce _ =>
    coherent_call rfl fun refundNonce _ => ?_
  refine coherent_call rfl fun initTip _ => ?_
  refine coherent_then (coherent_persist hnow) fun _ => ?_
  refine coherent_call rfl fun _ _ => coherent_attempt rfl fun htlc => ?_
  refine coherent_then (coherent_saveContract _) fun _ => ?_
  refine coherent_call rfl fun okBob _ => coherent_call rfl fun okAlice _ => ?_
  refine coherent_then (coherent_auditPhase _ _) fun zkpsTip => coherent_call rfl fun zkpsAt hzkps => ?_
  refine coherent_computed fun zkps hok => ?_
  obtain ⟨-, rfl⟩ := verifyZkps_ok hok
  refine coherent_then (coherent_persist hzkps) fun _ => coherent_call rfl fun preStatus _ => ?_
  refine coherent_then (coherent_auditPhase _ _) fun preTip => coherent_call rfl fun preAt hpre => ?_
  refine coherent_computed fun pre hok => ?_
  obtain ⟨-, rfl⟩ := preCheck_ok hok
  refine coherent_then (coherent_persist hpre) fun _ => coherent_call rfl fun _ _ => ?_
  refine coherent_then (coherent_auditPhase _ _) fun pushTip => coherent_call rfl fun pushedAt hpushed => ?_
  exact coherent_then (coherent_persist hpushed) fun _ => trivial

theorem coherent_getKnown {β : Type} {f : Transaction → Async β}
    (hok : ∀ tx, Coherent tx → WritesCoherent (f tx).run) :
    WritesCoherent (getKnown id >>= f).run := by
  rw [getKnown, bind_assoc]
  refine coherent_call rfl fun found hfound => coherent_computed fun tx htx => ?_
  cases found with
  | none => cases htx
  | some row =>
    cases htx
    exact hok _ hfound

/-- A cancel edits the row that it read. -/
theorem coherent_cancelSwap (byPgpFp : PgpFingerprint) (reason sigHex : String) :
    WritesCoherent (cancelSwap o id byPgpFp reason sigHex).run := by
  refine coherent_getKnown id fun tx htx => coherent_computed fun _ _ => coherent_call rfl fun now hnow => ?_
  refine coherent_then (coherent_auditPhase _ _) fun tip => ?_
  refine coherent_then (coherent_upsert ⟨rfl, rfl, htx.created, hnow⟩) fun _ => ?_
  have hrest : WritesCoherent (do
      let _ ← bestEffort (.discardSession id .settle)
      let _ ← bestEffort (.discardSession id .refund)
      closeHtlcIfAny id .cancel : Async Unit).run :=
    coherent_attempt rfl fun _ => coherent_attempt rfl fun _ => coherent_close .cancel
  split
  · exact coherent_attempt rfl fun _ => hrest
  · exact hrest

/-- Every transition enters its phase at a time of the clock. -/
theorem coherent_advanceFromInsertPushed (inner : SwapFields) :
    WritesCoherent (advanceFromInsertPushed o id inner).run := by
  refine coherent_call rfl fun (post : SpentStatus) _ => ?_
  by_cases hpost : post = .spent
  · rw [if_pos hpost]
    refine coherent_then (coherent_auditPhase _ _) fun tip => coherent_call rfl fun settledAt hsettled => ?_
    refine coherent_computed fun settled hok => ?_
    cases hok
    refine coherent_call rfl fun _ _ => coherent_call rfl fun _ _ =>
      coherent_then (coherent_persist hsettled) fun _ => ?_
    exact coherent_call rfl fun _ _ => coherent_then (coherent_close .settle) fun _ => trivial
  · rw [if_neg hpost]
    split
    · refine coherent_call rfl fun _ _ => coherent_then (coherent_auditPhase _ _) fun tip => ?_
      refine coherent_call rfl fun retriedAt hretried => ?_
      rw [insertPushedRetry_ok (s := ⟨inner⟩) ‹_›]
      refine coherent_computed fun retried hok => ?_
      cases hok
      exact coherent_then (coherent_persist hretried) fun _ => trivial
    · refine coherent_then (coherent_auditPhase _ _) fun tip => coherent_call rfl fun abortedAt haborted => ?_
      refine coherent_computed fun aborted hok => ?_
      cases hok
      exact coherent_then (coherent_persist haborted) fun _ => coherent_call rfl fun _ _ => trivial

theorem coherent_advanceFromAborted (inner : SwapFields) : WritesCoherent (advanceFromAborted id inner).run := by
  refine coherent_then (coherent_auditPhase _ _) fun tip => coherent_call rfl fun invalidatedAt hat => ?_
  refine coherent_computed fun s hok => ?_
  cases hok
  exact coherent_then (coherent_persist hat) fun _ => trivial

theorem coherent_advanceFromInvalidated (inner : SwapFields) :
    WritesCoherent (advanceFromInvalidated o id inner).run := by
  refine coherent_call rfl fun _ _ => coherent_call rfl fun _ _ => coherent_then (coherent_auditPhase _ _) fun tip => ?_
  refine coherent_call rfl fun refundedAt hat => coherent_then (coherent_persist hat) fun _ => ?_
  exact coherent_call rfl fun _ _ => coherent_then (coherent_close .refund) fun _ => trivial

theorem coherent_advanceSwap : WritesCoherent (advanceSwap o id).run := by
  refine coherent_getKnown id fun tx _ => ?_
  cases tx.phase with
  | insertPushed => exact coherent_advanceFromInsertPushed o id _
  | aborted => exact coherent_advanceFromAborted id _
  | invalidated => exact coherent_advanceFromInvalidated o id _
  | settled | refunded | canceled | init | zkpsVerified | preChecked => trivial

/-- **A request writes coherent rows**, on coherent rows. -/
theorem coherent_program (r : Request) : WritesCoherent (program o r) := by
  cases r with
  | start id req => exact coherent_then (coherent_startSwap o id req) fun _ => trivial
  | advance id => exact coherent_then (coherent_advanceSwap o id) fun _ => trivial
  | cancel id byPgpFp reason sigHex =>
    exact coherent_then (coherent_cancelSwap o id byPgpFp reason sigHex) fun _ => trivial

end

/-! ## Runs -/

/-- The clock gives a `u64`. -/
abbrev ClockedAnswer := { a : Answer // a.clock < 2 ^ 64 }

def serveClocked (sv : Services) (c : Call) (a : ClockedAnswer) (w : World) : Except RefereeError c.Result × World :=
  World.serve sv c a.1 w

/-- The orchestrator's calls under way, with such a clock. -/
abbrev ClockedCalls := Pool (fun c => Except RefereeError (Call.Result c))
    (Except RefereeError Reply) ClockedAnswer World Request

def ClockedCalls.Step (sv : Services) (o : Orchestrator) (p : ClockedCalls) (act : Act ClockedAnswer Request)
    (p' : ClockedCalls) : Prop :=
  Pool.Step (serveClocked sv) (program o) p act p'

/-- Every row of the store. -/
def CoherentRows (w : World) : Prop := ∀ id tx, w.rows.lookup id = some tx → Coherent tx

theorem rowProtocol_kept (sv : Services) : rowProtocol.Kept (serveClocked sv) CoherentRows where
  admits {w c a} hw := by
    cases hres : (serveClocked sv c a w).1 with
    | error e => cases c <;> trivial
    | ok res =>
      have hserve : World.serve sv c a.1 w = World.perform sv c a.1 w := World.serve_ok hres
      rw [serveClocked, hserve] at hres
      cases c with
      | now =>
        cases hres
        exact a.2
      | get id =>
        cases hres
        cases hrow : w.rows.lookup id with
        | none => trivial
        | some tx => exact hw id tx hrow
      | _ => trivial
  kept {w _ c a} hw hc id tx hrow := by
    rcases World.serve_found hrow with h | ⟨rfl, -⟩
    · exact hw id tx h
    · exact hc tx rfl

/-- **The rows of the store and of the calls under way are coherent**, whatever the order of the steps. -/
theorem conforms_of_run {sv : Services} {o : Orchestrator} {acts : List (Act ClockedAnswer Request)}
    {p p' : ClockedCalls} (h : Run (ClockedCalls.Step sv o) p acts p')
    (hp : p.Conforms (fun _ => rowProtocol) (fun _ => ()) CoherentRows fun _ _ _ => True) :
    p'.Conforms (fun _ => rowProtocol) (fun _ => ()) CoherentRows fun _ _ _ => True :=
  Run.invariant (fun _ _ _ hs hp => hp.step (fun _ => rowProtocol_kept sv) (fun r => coherent_program o r) hs) h hp

/-- **Every row the orchestrator writes comes back as it was written**, in any run of calls in any order, and
so does the state it stands for. -/
theorem swap_rows_round_trip {sv : Services} {o : Orchestrator} {acts : List (Act ClockedAnswer Request)}
    {p : ClockedCalls}
    (h : Run (ClockedCalls.Step sv o) ⟨World.empty, []⟩ acts p) {act : Act ClockedAnswer Request} {tx : Transaction}
    (hcall : p.calling? act = some (.upsert tx)) {json : SerdeJson} (hjson : json.RoundTrips tx.stateBlob.inner) :
    (itemFor json (.of json tx)).bind (itemToTransaction json) = .ok (.of json tx) ∧
      (StoredTransaction.of json tx).resume json = .ok (tx.phase.name, tx.stateBlob.inner) := by
  have hp := conforms_of_run h ⟨(fun _ _ hrow => by cases hrow), fun _ ht => by cases ht⟩
  obtain ⟨_, _, hallows⟩ := hp.calling hcall
  refine ⟨round_trip_of_coherent (hallows tx rfl) hjson, ?_⟩
  show (json.fromValue (json.toValue tx.stateBlob.inner)).map _ = _
  rw [hjson.value]
  rfl

namespace SampleJson

open Webycash.Referee.Sample

def members (l : List (String × String)) : String :=
  "\x7b" ++ String.intercalate "," (l.map fun m => String.ofList (Json.quote m.1) ++ ":" ++ m.2) ++ "\x7d"

def text (s : String) : String := String.ofList (Json.quote s)

def array (l : List String) : String := "[" ++ String.intercalate "," l ++ "]"

def bytes (l : List UInt8) : String := array (l.map fun b => b.toNat.repr)

def proof (p : Groth16Proof) : String :=
  members [("proof", bytes p.proof), ("public_inputs", array (p.publicInputs.map bytes))]

/-- The text of a state, its members in the order of their names. -/
def stateText (s : SwapFields) : String :=
  members [
    ("alice", members [("enc_partial_sig_for_bob", members [("bytes", bytes s.alice.encPartialSigForBob.bytes)]),
      ("tx_refund_hash", text s.alice.txRefundHash), ("tx_settle_hash", text s.alice.txSettleHash),
      ("vtxo", text s.alice.vtxo.hash), ("zkp_signature", proof s.alice.zkpSignature)]),
    ("alice_nonces", members [("refund_nonce_pub", text s.aliceNonces.refundNoncePub),
      ("settle_nonce_pub", text s.aliceNonces.settleNoncePub)]),
    ("audit_tip_hex", text s.auditTipHex),
    ("bob", members [("enc_secret_for_alice", members [("bytes", bytes s.bob.encSecretForAlice.bytes)]),
      ("h_b", text s.bob.hB.hash), ("zkp_payload", proof s.bob.zkpPayload)]),
    ("id", text s.id.id),
    ("insert_push_attempts", s.insertPushAttempts.toNat.repr),
    ("parties", members [("alice_cancel_pubkey_hex", text s.parties.aliceCancelPubkeyHex),
      ("alice_musig2_pubkey", text s.parties.aliceMusig2Pubkey.hex), ("alice_pgp_fp", text s.parties.alicePgpFp.hex),
      ("alice_pgp_pubkey_hex", text s.parties.alicePgpPubkeyHex),
        ("bob_cancel_pubkey_hex", text s.parties.bobCancelPubkeyHex),
      ("bob_pgp_fp", text s.parties.bobPgpFp.hex), ("bob_pgp_pubkey_hex", text s.parties.bobPgpPubkeyHex)]),
    ("phase_entered_at", s.phaseEnteredAt.repr),
    ("referee_sessions", members [("refund_pub_nonce", text s.refereeSessions.refundPubNonce),
      ("secret_nonce_handle", text s.refereeSessions.secretNonceHandle.id),
      ("settle_pub_nonce", text s.refereeSessions.settlePubNonce)])]

/-- Reads the text of one state. -/
def json (s : SwapFields) : SerdeJson where
  Value := SwapFields
  toValue s := s
  fromValue := .ok
  toText v := .ok (stateText v)
  fromText t := if t = stateText s then .ok s else .error "expected value at line 1 column 1"

theorem json_roundTrips (s : SwapFields) : (json s).RoundTrips s :=
  ⟨rfl, stateText s, rfl, by simp [json]⟩

theorem upsert_of_row {c : Call} {tx : Transaction} (h : c.row? = some tx) : c = .upsert tx := by
  cases c <;> cases h
  rfl

def answer : ClockedAnswer := ⟨healthy .unspent, by decide⟩

/-- A start, up to its first row. -/
def startActs : List (Act ClockedAnswer Request) :=
  .spawn (.start swapId initiateRequest) :: List.replicate 5 (.turn 0 answer)

def exec (acts : List (Act ClockedAnswer Request)) : Option ClockedCalls :=
  Run.exec (Pool.next (serveClocked services) (program orchestrator)) ⟨World.empty, []⟩ acts

end SampleJson

open Webycash.Referee.Sample SampleJson in
/-- The first row of a swap. -/
theorem first_row_round_trips : ∃ (p : ClockedCalls) (tx : Transaction),
    Run (ClockedCalls.Step services orchestrator) ⟨World.empty, []⟩ startActs p ∧
    p.calling? (.turn 0 answer) = some (.upsert tx) ∧ tx.phase = .init ∧
    (itemFor (json tx.stateBlob.inner) (.of (json tx.stateBlob.inner) tx)).bind
      (itemToTransaction (json tx.stateBlob.inner)) = .ok (.of (json tx.stateBlob.inner) tx) := by
  have h : ((exec startActs).bind fun p => ((p.calling? (.turn 0 answer)).bind Call.row?).map fun tx => tx.phase) =
      some .init := by decide +kernel
  obtain ⟨p, hp, h⟩ := Option.bind_eq_some_iff.1 h
  obtain ⟨tx, htx, hphase⟩ := Option.map_eq_some_iff.1 h
  obtain ⟨c, hc, hrow⟩ := Option.bind_eq_some_iff.1 htx
  obtain rfl := upsert_of_row hrow
  have hrun : Run (ClockedCalls.Step services orchestrator) ⟨World.empty, []⟩ startActs p :=
    Run.of_exec (fun _ _ _ hs => hs) hp
  exact ⟨p, tx, hrun, hc, hphase, (swap_rows_round_trip hrun hc (json_roundTrips _)).1⟩

end DynamoStore

end Webycash.Referee
