import Mathlib.Logic.Equiv.Basic
import Webycash.Lib.HexText
import Webycash.Lib.JsonText
import Webycash.Lib.Simulation
import Webycash.Referee.DynamoAudit
import Webycash.Referee.DynamoStore
import Webycash.Referee.RedisStore
/-!
# The orchestrator over a persistent backend (`referee/src/main.rs:122`)

A backend is a store of rows and an audit log over one state, and the orchestrator's calls to them are answered
from it. A backend that stands for a map of rows and a list of entries, one call at a time (`Backend.Stands`),
stands for them in every run: whatever the order of the calls and whichever of them fail, a run over the backend
is a run over the map and the list, with the same answers to every program (`Backend.Stands.run`). Redis,
DynamoDB and FoundationDB are such backends.

| here | there |
| --- | --- |
| `Backend`           | `SwapStore` store/mod.rs:62, `AuditLog` audit/mod.rs:91 |
| `Persistent.backend` | `build_storage` main.rs:122 |
| `read`              | `from_value` api/orchestrator.rs:305, :470, :579, :602 |

The log of DynamoDB takes several calls to append (`DynamoAudit`); here it is a list, which the table comes to
where appends do not overlap (`dynamodb_log`).
-/

namespace Webycash.Referee

open Prog
open DynamoStore (Coherent ClockedAnswer ClockedCalls serveClocked rowProtocol rowProtocol_kept
  coherent_program CoherentRows)
open FdbAudit (signed)

structure Backend where
  State : Type
  empty : State
  upsert : Transaction → State → Except RefereeError Unit × State
  get : SwapId → State → Except RefereeError (Option Transaction)
  append : Ed25519 → AuditEntry → State → Except RefereeError String × State
  entriesFor : SwapId → State → Except RefereeError (List AuditEntry)
  tipFor : SwapId → State → Except RefereeError String

/-- The world with a backend in place of the rows and the log. -/
structure Deployed (B : Backend) where
  stored : B.State
  live : FMap (SwapId × Session) Nat
  signed : List (SwapId × Session)

namespace Deployed

variable {B : Backend} (sv : Services)

def empty : Deployed B := ⟨B.empty, ∅, []⟩

/-- The call is carried out: the backend's by the backend, the others as ever. -/
def perform : (c : Call) → Answer → Deployed B → Except RefereeError c.Result × Deployed B
  | .append entry, _, d =>
    ((B.append sv.ed25519 entry d.stored).1, { d with stored := (B.append sv.ed25519 entry d.stored).2 })
  | .get id, _, d => (B.get id d.stored, d)
  | .upsert tx, _, d => ((B.upsert tx d.stored).1, { d with stored := (B.upsert tx d.stored).2 })
  | c, a, d => ((World.perform sv c a ⟨∅, [], d.live, d.signed⟩).1,
      { d with
        live := (World.perform sv c a ⟨∅, [], d.live, d.signed⟩).2.live
        signed := (World.perform sv c a ⟨∅, [], d.live, d.signed⟩).2.signed })

/-- Reading the clock does not fail. -/
def serve : (c : Call) → Answer → Deployed B → Except RefereeError c.Result × Deployed B
  | .now, a, d => perform sv .now a d
  | c, a, d =>
    match a.fault with
    | none => perform sv c a d
    | some (.lost e) => (.error e, d)
    | some (.unconfirmed e) => (.error e, (perform sv c a d).2)

/-- The orchestrator's calls under way over the backend, with a clock that gives a `u64`. -/
abbrev Calls (B : Backend) := Pool (fun c => Except RefereeError (Call.Result c))
    (Except RefereeError Reply) ClockedAnswer (Deployed B) Request

def Step (o : Orchestrator) (p : Calls B) (act : Act ClockedAnswer Request) (p' : Calls B) : Prop :=
  Pool.Step (fun c (a : ClockedAnswer) => serve sv c a.1) (program o) p act p'

end Deployed

/-! ## Standing for rows and entries -/

/-- One call at a time the backend does as a map of rows and a list of entries. -/
structure Backend.Stands (B : Backend) (ed : Ed25519)
    (M : B.State → FMap SwapId Transaction → List AuditEntry → Prop) : Prop where
  empty : M B.empty ∅ []
  get : ∀ {s rows log}, M s rows log → ∀ id, B.get id s = .ok (rows.lookup id)
  upsert : ∀ {s rows log tx}, M s rows log → Coherent tx →
    (B.upsert tx s).1 = .ok () ∧ M (B.upsert tx s).2 (rows.insert tx.swapId tx) log
  append : ∀ {s rows log}, M s rows log → ∀ e,
    (B.append ed e s).1 = .ok e.tipHash ∧ M (B.append ed e s).2 rows (log ++ [FdbAudit.signed ed e])

namespace Deployed

variable {B : Backend} {sv : Services} {M : B.State → FMap SwapId Transaction → List AuditEntry → Prop}
  {d : Deployed B} {w : World} {c : Call} {a : Answer}

/-- The state stands for the rows and the log, and the sessions are the same. -/
structure For (M : B.State → FMap SwapId Transaction → List AuditEntry → Prop) (d : Deployed B)
    (w : World) : Prop where
  stored : M d.stored w.rows w.log
  live : d.live = w.live
  signed : d.signed = w.signed

/-- **One call.** -/
theorem For.perform (hB : B.Stands sv.ed25519 M) (h : For M d w) (hc : ∀ tx, c.row? = some tx → Coherent tx) :
    (Deployed.perform sv c a d).1 = (World.perform sv c a w).1 ∧
      For M (Deployed.perform sv c a d).2 (World.perform sv c a w).2 := by
  have hsame : ∀ {d' : Deployed B} {w' : World}, d'.stored = d.stored → w'.rows = w.rows → w'.log = w.log →
    d'.live = w'.live →
      d'.signed = w'.signed → For M d' w' := by
    intro d' w' hstored hrows hlog hlive hsigned
    refine ⟨?_, hlive, hsigned⟩
    rw [hstored, hrows, hlog]
    exact h.stored
  cases c with
  | append entry =>
    obtain ⟨hanswer, hM⟩ := hB.append h.stored entry
    exact ⟨hanswer, hM, h.live, h.signed⟩
  | get id => exact ⟨hB.get h.stored id, h⟩
  | upsert tx =>
    obtain ⟨hanswer, hM⟩ := hB.upsert h.stored (hc tx rfl)
    exact ⟨hanswer, hM, h.live, h.signed⟩
  | beginSession id session =>
    simp only [Deployed.perform, World.perform, h.live, h.signed]
    split
    · exact ⟨rfl, hsame rfl rfl rfl rfl rfl⟩
    · exact ⟨rfl, hsame rfl rfl rfl rfl rfl⟩
  | partialSign id session txHash pk n =>
    simp only [Deployed.perform, World.perform, h.live, h.signed]
    split
    · exact ⟨rfl, hsame rfl rfl rfl rfl rfl⟩
    · split
      · exact ⟨rfl, hsame rfl rfl rfl rfl rfl⟩
      · exact ⟨rfl, hsame rfl rfl rfl rfl rfl⟩
  | discardSession id session =>
    exact ⟨rfl, hsame rfl rfl rfl (congrArg (fun live => live.erase (id, session)) h.live) h.signed⟩
  | _ => exact ⟨rfl, hsame rfl rfl rfl h.live h.signed⟩

/-- Over the backend a call is answered, or fails, as over the rows and the log. -/
theorem For.serve (hB : B.Stands sv.ed25519 M) (h : For M d w) (hc : ∀ tx, c.row? = some tx → Coherent tx) :
    (Deployed.serve sv c a d).1 = (World.serve sv c a w).1 ∧
      For M (Deployed.serve sv c a d).2 (World.serve sv c a w).2 := by
  have hdone := For.perform (a := a) hB h hc
  cases hf : a.fault with
  | none => cases c <;> simpa only [Deployed.serve, World.serve, hf] using hdone
  | some f =>
    cases f with
    | lost e =>
      cases c with
      | now => exact hdone
      | _ => simpa only [Deployed.serve, World.serve, hf, true_and] using h
    | unconfirmed e =>
      cases c with
      | now => exact hdone
      | _ => simpa only [Deployed.serve, World.serve, hf, true_and] using hdone.2

end Deployed

/-- **A run over the backend is a run over the map and the list**, whatever the order of the steps and
whichever calls fail: the same steps, the same answers to every program, and at the end the backend stands for
what is in the map and the list. -/
theorem Backend.Stands.run {B : Backend} {sv : Services}
    {M : B.State → FMap SwapId Transaction → List AuditEntry → Prop}
    (hB : B.Stands sv.ed25519 M) {o : Orchestrator} {acts : List (Act ClockedAnswer Request)} {q : Deployed.Calls B}
    (h : Run (Deployed.Step sv o) ⟨Deployed.empty, []⟩ acts q) :
    ∃ w, Run (ClockedCalls.Step sv o) ⟨World.empty, []⟩ acts ⟨w, q.threads⟩ ∧ Deployed.For M q.world w := by
  have hempty : Pool.Conforms (α := Except RefereeError Reply) (A := ClockedAnswer)
    (fun _ : Request => rowProtocol) (fun _ => ()) CoherentRows
      (fun _ _ _ => True) ⟨World.empty, []⟩ :=
    ⟨(fun _ _ hrow => by cases hrow), fun _ ht => by cases ht⟩
  exact hempty.simulates_run (fun _ _ _ _ _ _ hS hc => hS.serve hB hc) (fun _ => rowProtocol_kept sv)
    (fun r => coherent_program o r)
    ⟨hB.empty, rfl, rfl⟩ h

/-! ## The three backends -/

/-! ### Redis -/

section

variable (json : RedisStore.SerdeJson)

def Backend.redis : Backend where
  State := RedisStore.Db
  empty := ∅
  upsert := RedisStore.upsert json
  get := RedisStore.get json
  append := RedisStore.append json
  entriesFor := RedisStore.entriesFor json
  tipFor := RedisStore.tipFor json

variable {json}

theorem stands_redis (hjson : json.RoundTrips) (ed : Ed25519) :
    (Backend.redis json).Stands ed (RedisStore.Mirrors json) where
  empty := .empty
  get h := h.rows
  upsert h _ := h.upsert hjson _
  append h e := h.append hjson ed e

end

/-! ### DynamoDB -/

/-- `Phase` of a name. -/
def Phase.ofName? (name : String) : Option Phase :=
  [.init, .zkpsVerified, .preChecked, .insertPushed, .settled, .aborted, .invalidated, .refunded, .canceled].find?
    fun p => p.name = name

theorem Phase.ofName?_name (p : Phase) : Phase.ofName? p.name = some p := by
  cases p <;> decide

section

variable (json : DynamoStore.SerdeJson)

/-- A stored row as the orchestrator goes on with it. A phase or a state that does not read is an error here
at once; the source meets it where it needs the phase or the state. -/
def DynamoStore.StoredTransaction.read (tx : DynamoStore.StoredTransaction json.Value) :
    Except RefereeError Transaction := do
  let phase ← (Phase.ofName? tx.phase).elim (.error (.store ("phase " ++ tx.phase))) .ok
  let blobPhase ← (Phase.ofName? tx.stateBlob.phase).elim (.error (.store ("phase " ++ tx.stateBlob.phase))) .ok
  let inner ← (json.fromValue tx.stateBlob.inner).mapError fun e => .store ("decode " ++ tx.phase ++ ": " ++ e)
  return ⟨tx.swapId, tx.status, phase, tx.terminal, tx.bobPgpFp, tx.alicePgpFp, tx.webcashPublicHash,
    tx.vtxoOutpointHash,
    tx.txSettleHash, tx.txRefundHash, tx.createdAtUnix, tx.updatedAtUnix, tx.insertPushAttempts, tx.cancelReason,
    tx.canceledByPgpFp, tx.htlcRefundContractId, ⟨blobPhase, inner⟩⟩

def Backend.dynamodb : Backend where
  State := DynamoStore.Table × List AuditEntry
  empty := (∅, [])
  upsert tx s :=
    match DynamoStore.upsert json (.of json tx) s.1 with
    | .ok t => (.ok (), (t, s.2))
    | .error e => (.error e, s)
  get id s := do
    match ← DynamoStore.get json id s.1 with
    | none => return none
    | some tx => return some (← tx.read json)
  append ed entry s := (.ok entry.tipHash, (s.1, s.2 ++ [FdbAudit.signed ed entry]))
  entriesFor id s := .ok (s.2.filter (·.swapId = id))
  tipFor id s := .ok (((s.2.filter (·.swapId = id)).getLast?.map AuditEntry.tipHash).getD "")

variable {json}

theorem read_of (hjson : ∀ s, json.RoundTrips s) (tx : Transaction) :
    (DynamoStore.StoredTransaction.of json tx).read json = .ok tx := by
  simp only [DynamoStore.StoredTransaction.read, DynamoStore.StoredTransaction.of, Phase.ofName?_name, Option.elim,
    (hjson tx.stateBlob.inner).value]
  rfl

theorem stands_dynamodb (hjson : ∀ s, json.RoundTrips s) (ed : Ed25519) :
    (Backend.dynamodb json).Stands ed fun s rows log => s.1.Mirrors json rows ∧ s.2 = log where
  empty := ⟨fun _ => rfl, rfl⟩
  get := by
    rintro s rows log ⟨hrows, -⟩ id
    show (DynamoStore.get json id s.1 >>= _) = _
    rw [hrows id]
    cases rows.lookup id with
    | none => rfl
    | some tx =>
      show (do return some (← (DynamoStore.StoredTransaction.of json tx).read json)) = _
      rw [read_of hjson]
      rfl
  upsert := by
    rintro s rows log tx ⟨hrows, hlog⟩ htx
    obtain ⟨t, heq, ht⟩ := hrows.upsert htx (hjson _)
    have hput : (Backend.dynamodb json).upsert tx s = (.ok (), (t, s.2)) := by
      show (match DynamoStore.upsert json (.of json tx) s.1 with | .ok t => _ | .error e => _) = _
      rw [heq]
    rw [hput]
    exact ⟨rfl, ht, hlog⟩
  append := by
    rintro s rows log ⟨hrows, hlog⟩ e
    exact ⟨rfl, hrows, congrArg (· ++ [FdbAudit.signed ed e]) hlog⟩

section

variable {ed : Ed25519}

/-- One append on the table is answered as one on the list, and adds the same entry. -/
theorem dynamodb_append {entry : AuditEntry} {s : (Backend.dynamodb json).State} {w : DynamoAudit.Table}
    (h : w.Holds s.2) (hfew : (s.2.filter (·.swapId = entry.swapId)).length < 2 ^ 64) :
    let o := (DynamoAudit.append ed entry).run.run DynamoAudit.serve (fun _ => DynamoAudit.calm) w
    o.value = ((Backend.dynamodb json).append ed entry s).1 ∧
      o.world.Holds ((Backend.dynamodb json).append ed entry s).2.2 :=
  DynamoAudit.append_extends h hfew

/-- **The list is the table**, after any number of appends of which none overlaps another. -/
theorem dynamodb_log {entries : List AuditEntry} (hfew : entries.length ≤ 2 ^ 64) :
    (DynamoAudit.appendAll ed entries).Holds
      (entries.foldl (fun s entry => ((Backend.dynamodb json).append ed entry s).2)
        (Backend.dynamodb json).empty).2 := by
  have hlist : ∀ s : (Backend.dynamodb json).State,
      (entries.foldl (fun s entry => ((Backend.dynamodb json).append ed entry s).2) s).2 =
        s.2 ++ entries.map (DynamoAudit.signed ed) := by
    clear hfew
    induction entries with
    | nil => exact fun s => (List.append_nil _).symm
    | cons entry entries ih =>
      intro s
      rw [List.foldl_cons, ih, List.map_cons, List.append_cons]
      rfl
  rw [hlist]
  exact DynamoAudit.appendAll_holds hfew

end

end

/-! ### FoundationDB -/

/-- The rows and the log lie under prefixes of their own. -/
def Backend.fdb : Backend where
  State := FdbStore.Kv × FdbAudit.Kv
  empty := ([], [])
  upsert tx s := (.ok (), (FdbStore.upsert tx s.1, s.2))
  get id s := FdbStore.get id s.1
  append ed entry s := (.ok (FdbAudit.append ed entry s.2).1, (s.1, (FdbAudit.append ed entry s.2).2))
  entriesFor id s := .ok (FdbAudit.entriesFor id s.2)
  tipFor id s := .ok (FdbAudit.tipFor id s.2)

/-- What was written, in order, and what is read of it; the log is appended to whether or not it keeps its entries. -/
theorem stands_fdb (ed : Ed25519) : Backend.fdb.Stands ed fun s rows _ =>
    ∃ txs, s.1 = FdbStore.upsertAll txs ∧ ∀ id, FdbStore.current txs id = rows.lookup id where
  empty := ⟨[], rfl, fun _ => rfl⟩
  get := by
    rintro s rows log ⟨txs, hs, hrows⟩ id
    show FdbStore.get id s.1 = _
    rw [hs, FdbStore.get_upsertAll, hrows]
  upsert := by
    rintro s rows log tx ⟨txs, hs, hrows⟩ -
    refine ⟨rfl, txs ++ [tx], ?_, fun id => ?_⟩
    · rw [FdbStore.upsertAll_concat, ← hs]
      rfl
    · rw [FdbStore.current_concat, FMap.lookup_insert_ite, hrows]
      by_cases hid : tx.swapId = id
      · rw [if_pos hid, if_pos hid.symm]
      · rw [if_neg hid, if_neg (Ne.symm hid)]
  append := fun h _ => ⟨rfl, h⟩

/-- The backends that survive a restart. -/
inductive Persistent
  | redis
  | dynamodb
  | fdb

/-- The texts of rows, states and entries. -/
structure Texts where
  redis : RedisStore.SerdeJson
  dynamodb : DynamoStore.SerdeJson

structure Texts.RoundTrip (texts : Texts) : Prop where
  redis : texts.redis.RoundTrips
  dynamodb : ∀ s, texts.dynamodb.RoundTrips s

def Persistent.backend (texts : Texts) : Persistent → Backend
  | redis => .redis texts.redis
  | dynamodb => .dynamodb texts.dynamodb
  | fdb => .fdb

/-- What the backend reads of a swap is what the map has. -/
def Deployed.ReadsAs {B : Backend} (d : Deployed B) (w : World) : Prop :=
  ∀ id, B.get id d.stored = .ok (w.rows.lookup id)

/-- **A persistent backend cannot be told from memory.** In any run of requests over it, with calls interleaved
and failing in any way, every program is answered as in the same run in memory, and every row reads as in memory. -/
theorem persistent_as_in_memory {texts : Texts} (htexts : texts.RoundTrip) (b : Persistent) (sv : Services)
    (o : Orchestrator) (acts : List (Act ClockedAnswer Request)) (q : Deployed.Calls (b.backend texts))
    (h : Run (Deployed.Step sv o) ⟨Deployed.empty, []⟩ acts q) :
    ∃ w, Run (ClockedCalls.Step sv o) ⟨World.empty, []⟩ acts ⟨w, q.threads⟩ ∧
      q.world.ReadsAs w ∧ q.world.live = w.live ∧ q.world.signed = w.signed := by
  have hread : ∀ {M}, (b.backend texts).Stands sv.ed25519 M →
    ∃ w, Run (ClockedCalls.Step sv o) ⟨World.empty, []⟩ acts ⟨w, q.threads⟩ ∧
      q.world.ReadsAs w ∧ q.world.live = w.live ∧ q.world.signed = w.signed := by
    intro M hB
    obtain ⟨w, hrun, hfor⟩ := hB.run h
    exact ⟨w, hrun, fun id => hB.get hfor.stored id, hfor.live, hfor.signed⟩
  cases b with
  | redis => exact hread (stands_redis htexts.redis sv.ed25519)
  | dynamodb => exact hread (stands_dynamodb htexts.dynamodb sv.ed25519)
  | fdb => exact hread (stands_fdb sv.ed25519)

namespace SampleTexts

open Webycash.Referee.Sample DynamoStore.SampleJson

/-! A text for every row: one that says every field, with the JSON of `serde_json` in its place for the row at hand. -/

section

variable {α : Type} {text : α → String}

/-- Reads the texts that are written. -/
noncomputable def readBack (text : α → String) (t : String) : Except String α :=
  open Classical in if h : ∃ a, text a = t then .ok h.choose else .error "expected value at line 1 column 1"

theorem readBack_text (htext : Function.Injective text) (a : α) : readBack text (text a) = .ok a := by
  have hex : ∃ b, text b = text a := ⟨a, rfl⟩
  rw [readBack, dif_pos hex, htext hex.choose_spec]

/-- With `special` for the text of `a`. -/
def withText (text : α → String) (a : α) (special : String) (b : α) : String :=
  Equiv.swap (text a) special (text b)

theorem withText_injective (htext : Function.Injective text) (a : α) (special : String) :
    Function.Injective (withText text a special) :=
  (Equiv.injective _).comp htext

end

def blobs (l : List (List UInt8)) : Json := .obj (l.map fun b => ("", .str (Hex.encode b)))

def option (o : Option String) : Json := o.elim .null .str

def fieldsJson (s : SwapFields) : Json :=
  .obj [("id", .str s.id.id), ("bob_pgp_fp", .str s.parties.bobPgpFp.hex),
    ("bob_pgp_pubkey_hex", .str s.parties.bobPgpPubkeyHex),
    ("alice_pgp_fp", .str s.parties.alicePgpFp.hex), ("alice_pgp_pubkey_hex", .str s.parties.alicePgpPubkeyHex),
    ("alice_musig2_pubkey", .str s.parties.aliceMusig2Pubkey.hex),
      ("bob_cancel_pubkey_hex", .str s.parties.bobCancelPubkeyHex),
    ("alice_cancel_pubkey_hex", .str s.parties.aliceCancelPubkeyHex), ("h_b", .str s.bob.hB.hash),
    ("enc_secret_for_alice", .str (Hex.encode s.bob.encSecretForAlice.bytes)),
      ("zkp_payload", .str (Hex.encode s.bob.zkpPayload.proof)),
    ("zkp_payload_inputs", blobs s.bob.zkpPayload.publicInputs), ("vtxo", .str s.alice.vtxo.hash),
    ("tx_settle_hash", .str s.alice.txSettleHash), ("tx_refund_hash", .str s.alice.txRefundHash),
    ("enc_partial_sig_for_bob", .str (Hex.encode s.alice.encPartialSigForBob.bytes)),
    ("zkp_signature", .str (Hex.encode s.alice.zkpSignature.proof)),
      ("zkp_signature_inputs", blobs s.alice.zkpSignature.publicInputs),
    ("settle_nonce_pub", .str s.aliceNonces.settleNoncePub), ("refund_nonce_pub", .str s.aliceNonces.refundNoncePub),
    ("settle_pub_nonce", .str s.refereeSessions.settlePubNonce),
      ("refund_pub_nonce", .str s.refereeSessions.refundPubNonce),
    ("secret_nonce_handle", .str s.refereeSessions.secretNonceHandle.id), ("phase_entered_at", .num s.phaseEnteredAt),
    ("insert_push_attempts", .num s.insertPushAttempts.toNat), ("audit_tip_hex", .str s.auditTipHex)]

theorem blobs_inj {l l' : List (List UInt8)} (h : blobs l = blobs l') : l = l' := by
  refine List.map_injective_iff.2 ?_ (Json.obj.inj h)
  intro b b' hb
  exact Hex.encode_injective (Json.str.inj (Prod.mk.inj hb).2)

theorem option_inj {o o' : Option String} (h : option o = option o') : o = o' := by
  cases o <;> cases o' <;> cases h <;> rfl

theorem fieldsJson_injective : Function.Injective fieldsJson := by
  rintro ⟨⟨id⟩, ⟨⟨bobFp⟩, bobPgp, ⟨aliceFp⟩, alicePgp, ⟨musig⟩, bobCancel, aliceCancel⟩,
    ⟨⟨hB⟩, ⟨enc⟩, proof, inputs⟩,
    ⟨⟨vtxo⟩, txSettle, txRefund, ⟨part⟩, sigProof, sigInputs⟩, ⟨n₁, n₂⟩,
      ⟨p₁, p₂, ⟨handle⟩⟩, entered, attempts, tip⟩
    ⟨⟨id'⟩, ⟨⟨bobFp'⟩, bobPgp', ⟨aliceFp'⟩, alicePgp', ⟨musig'⟩, bobCancel', aliceCancel'⟩,
      ⟨⟨hB'⟩, ⟨enc'⟩, proof', inputs'⟩,
    ⟨⟨vtxo'⟩, txSettle', txRefund', ⟨part'⟩, sigProof', sigInputs'⟩, ⟨n₁', n₂'⟩,
      ⟨p₁', p₂', ⟨handle'⟩⟩, entered', attempts', tip'⟩ h
  simp only [fieldsJson, Json.obj.injEq, List.cons.injEq, Prod.mk.injEq, Json.str.injEq, Json.num.injEq,
    true_and, and_true] at h
  obtain ⟨rfl, rfl, rfl, rfl, rfl, rfl, rfl, rfl, rfl, henc, hproof, hinputs, rfl, rfl, rfl, hpart, hsig,
    hsigInputs, rfl, rfl, rfl, rfl, rfl,
    hentered, hattempts, rfl⟩ := h
  obtain rfl := Hex.encode_injective henc
  obtain rfl := Hex.encode_injective hproof
  obtain rfl := blobs_inj hinputs
  obtain rfl := Hex.encode_injective hpart
  obtain rfl := Hex.encode_injective hsig
  obtain rfl := blobs_inj hsigInputs
  obtain rfl : entered = entered' := Int.ofNat.inj hentered
  obtain rfl : attempts = attempts' := UInt8.toNat_inj.1 (Int.ofNat.inj hattempts)
  rfl

def rowJson (tx : Transaction) : Json :=
  .obj [("swap_id", .str tx.swapId.id), ("status", .str tx.status.asStr), ("phase", .str tx.phase.name),
    ("terminal", .bool tx.terminal),
    ("bob_pgp_fp", .str tx.bobPgpFp.hex), ("alice_pgp_fp", .str tx.alicePgpFp.hex),
    ("webcash_public_hash", .str tx.webcashPublicHash.hash), ("vtxo_outpoint_hash", .str tx.vtxoOutpointHash.hash),
    ("tx_settle_hash", .str tx.txSettleHash), ("tx_refund_hash", .str tx.txRefundHash),
      ("created_at_unix", .num tx.createdAtUnix),
    ("updated_at_unix", .num tx.updatedAtUnix), ("insert_push_attempts", .num tx.insertPushAttempts.toNat),
    ("cancel_reason", option tx.cancelReason),
      ("canceled_by_pgp_fp", option (tx.canceledByPgpFp.map PgpFingerprint.hex)),
    ("htlc_refund_contract_id", option tx.htlcRefundContractId), ("phase", .str tx.stateBlob.phase.name),
    ("inner", fieldsJson tx.stateBlob.inner)]

theorem status_inj {t t' : TransactionStatus} (h : t.asStr = t'.asStr) : t = t' := by
  rw [← DynamoStore.statusOf_asStr t, h, DynamoStore.statusOf_asStr]

theorem rowJson_injective : Function.Injective rowJson := by
  rintro ⟨⟨id⟩, status, phase, terminal, ⟨bob⟩, ⟨alice⟩, ⟨hash⟩, ⟨vtxo⟩, txSettle, txRefund,
    created, updated, attempts, reason, by', contract,
      ⟨blobPhase, inner⟩⟩
    ⟨⟨id'⟩, status', phase', terminal', ⟨bob'⟩, ⟨alice'⟩, ⟨hash'⟩, ⟨vtxo'⟩, txSettle',
      txRefund', created', updated', attempts', reason', by'',
      contract', ⟨blobPhase', inner'⟩⟩ h
  simp only [rowJson, Json.obj.injEq, List.cons.injEq, Prod.mk.injEq, Json.str.injEq, Json.num.injEq,
    Json.bool.injEq, true_and, and_true] at h
  obtain ⟨rfl, hstatus, hphase, rfl, rfl, rfl, rfl, rfl, rfl, rfl, hcreated, hupdated, hattempts, hreason, hby,
    hcontract, hblob, hinner⟩ := h
  obtain rfl := status_inj hstatus
  obtain rfl := DynamoStore.name_inj hphase
  obtain rfl : created = created' := Int.ofNat.inj hcreated
  obtain rfl : updated = updated' := Int.ofNat.inj hupdated
  obtain rfl : attempts = attempts' := UInt8.toNat_inj.1 (Int.ofNat.inj hattempts)
  obtain rfl := option_inj hreason
  obtain rfl : by' = by'' := by
    rw [← DynamoStore.map_mk_hex by', option_inj hby, DynamoStore.map_mk_hex]
  obtain rfl := option_inj hcontract
  obtain rfl := DynamoStore.name_inj hblob
  obtain rfl := fieldsJson_injective hinner
  rfl

/-- The entry as `serde_json` writes it: an empty signature is left out. -/
def entryJson (e : AuditEntry) : Json :=
  .obj ([("swap_id", .str e.swapId.id), ("phase", .str e.phase.name), ("ts_unix", .num e.tsUnix),
    ("prior_tip", .str e.priorTip),
    ("phase_payload", e.phasePayload)] ++ if e.signature = "" then [] else [("signature", .str e.signature)])

theorem entryJson_injective : Function.Injective entryJson := by
  rintro ⟨⟨id⟩, phase, ts, prior, payload, sig⟩ ⟨⟨id'⟩, phase', ts', prior', payload', sig'⟩ h
  simp only [entryJson, Json.obj.injEq, List.cons_append, List.nil_append, List.cons.injEq, Prod.mk.injEq,
    Json.str.injEq, Json.num.injEq,
    true_and] at h
  obtain ⟨rfl, hphase, hts, rfl, rfl, hsig⟩ := h
  obtain rfl := DynamoStore.name_inj hphase
  obtain rfl : ts = ts' := Int.ofNat.inj hts
  obtain rfl : sig = sig' := by
    by_cases h : sig = "" <;> by_cases h' : sig' = "" <;> simp_all
  rfl

/-- A row as `serde_json` writes it. -/
def rowText (tx : Transaction) : String :=
  members ([("swap_id", text tx.swapId.id), ("status", text tx.status.asStr), ("phase", text tx.phase.name),
    ("terminal", if tx.terminal then "true" else "false"), ("bob_pgp_fp", text tx.bobPgpFp.hex),
      ("alice_pgp_fp", text tx.alicePgpFp.hex),
    ("webcash_public_hash", text tx.webcashPublicHash.hash), ("vtxo_outpoint_hash", text tx.vtxoOutpointHash.hash),
    ("tx_settle_hash", text tx.txSettleHash), ("tx_refund_hash", text tx.txRefundHash),
      ("created_at_unix", tx.createdAtUnix.repr),
    ("updated_at_unix", tx.updatedAtUnix.repr), ("insert_push_attempts", tx.insertPushAttempts.toNat.repr)] ++
    (tx.cancelReason.map fun r => ("cancel_reason", text r)).toList ++
    (tx.canceledByPgpFp.map fun fp => ("canceled_by_pgp_fp", text fp.hex)).toList ++
    (tx.htlcRefundContractId.map fun id => ("htlc_refund_contract_id", text id)).toList ++
    [("state_blob", members [("phase", text tx.stateBlob.phase.name), ("inner", stateText tx.stateBlob.inner)])])

/-- The first row of the swap. -/
def startedRow : Transaction :=
  let tip := AuditEntry.tipHash ⟨swapId, .init, 1714003200, "", initPayload initiateRequest, ""⟩
  let initial := initiate swapId initiateRequest.parties initiateRequest.bob initiateRequest.alice
    initiateRequest.aliceNonces
    ⟨(mockSigner.pubNonce swapId .settle 0).hex, (mockSigner.pubNonce swapId .refund 0).hex, swapId⟩ 1714003200 tip
  Transaction.deriveFrom initial .init 1714003200 none none none

noncomputable def texts : Texts where
  redis := {
    rowText tx := .ok (withText (fun tx => (rowJson tx).toText) startedRow (rowText startedRow) tx)
    readRow := readBack (withText (fun tx => (rowJson tx).toText) startedRow (rowText startedRow))
    entryText e := .ok (entryJson e).toText
    readEntry := readBack fun e => (entryJson e).toText }
  dynamodb := {
    Value := SwapFields
    toValue s := s
    fromValue := .ok
    toText s := .ok (withText (fun s => (fieldsJson s).toText) startedRow.stateBlob.inner
      (stateText startedRow.stateBlob.inner) s)
    fromText := readBack (withText (fun s => (fieldsJson s).toText) startedRow.stateBlob.inner
      (stateText startedRow.stateBlob.inner)) }

theorem texts_roundTrip : texts.RoundTrip where
  redis := {
    row tx := ⟨_, rfl, readBack_text (withText_injective (Json.toText_injective.comp rowJson_injective) _ _) tx⟩
    entry e := ⟨_, rfl, readBack_text (Json.toText_injective.comp entryJson_injective) e⟩ }
  dynamodb s := ⟨rfl, _, rfl, readBack_text
    (withText_injective (Json.toText_injective.comp fieldsJson_injective) _ _) s⟩

/-- A start, up to its first row on Redis. -/
def acts : List (Act ClockedAnswer Request) := DynamoStore.SampleJson.startActs ++ [.turn 0 answer]

theorem run_acts : ∃ q : Deployed.Calls (Persistent.redis.backend texts),
    Run (Deployed.Step services orchestrator) ⟨Deployed.empty, []⟩ acts q := by
  have hexec : (Run.exec (Pool.next (fun c (a : ClockedAnswer) => Deployed.serve services c a.1) (program orchestrator))
      (⟨Deployed.empty, []⟩ : Deployed.Calls (Persistent.redis.backend texts)) acts).isSome =
        true := by decide +kernel
  obtain ⟨q, hq⟩ := Option.isSome_iff_exists.1 hexec
  exact ⟨q, Run.of_exec (fun _ _ _ hs => hs) hq⟩

end SampleTexts

open Webycash.Referee.Sample SampleTexts in
/-- A start on Redis, up to its first row. -/
theorem persistent_as_in_memory_started : ∃ (q : Deployed.Calls (Persistent.redis.backend texts)) (w : World),
    Run (Deployed.Step services orchestrator) ⟨Deployed.empty, []⟩ acts q ∧
    Run (ClockedCalls.Step services orchestrator) ⟨World.empty, []⟩ acts ⟨w, q.threads⟩ ∧
      q.world.ReadsAs w := by
  obtain ⟨q, hq⟩ := run_acts
  obtain ⟨w, hw, hread, -⟩ := persistent_as_in_memory texts_roundTrip .redis services orchestrator acts q hq
  exact ⟨q, w, hq, hw, hread⟩

/-- **The audit log on Redis is the one in memory**: what is served of a swap, and its tip. -/
theorem redis_audit_as_in_memory {json : RedisStore.SerdeJson} (hjson : json.RoundTrips) (sv : Services)
    (o : Orchestrator) (acts : List (Act ClockedAnswer Request)) (q : Deployed.Calls (.redis json))
    (h : Run (Deployed.Step sv o) ⟨Deployed.empty, []⟩ acts q) :
    ∃ w, Run (ClockedCalls.Step sv o) ⟨World.empty, []⟩ acts ⟨w, q.threads⟩ ∧ ∀ id,
      RedisStore.entriesFor json id q.world.stored = .ok (w.entriesFor id) ∧
      RedisStore.tipFor json id q.world.stored = .ok (w.tipFor id) := by
  obtain ⟨w, hrun, hfor⟩ := (stands_redis hjson sv.ed25519).run h
  refine ⟨w, hrun, fun id => ?_⟩
  have hentries := hfor.stored.log id
  exact ⟨hentries, RedisStore.tipFor_of_entriesFor hentries⟩

open Webycash.Referee.Sample SampleTexts in
/-- The first entry of a start on Redis. -/
theorem redis_audit_as_in_memory_started : ∃ (q : Deployed.Calls (.redis texts.redis)) (w : World),
    Run (Deployed.Step services orchestrator) ⟨Deployed.empty, []⟩ acts q ∧
    RedisStore.entriesFor texts.redis swapId q.world.stored = .ok (w.entriesFor swapId) := by
  obtain ⟨q, hq⟩ := run_acts
  obtain ⟨w, -, hsame⟩ := redis_audit_as_in_memory texts_roundTrip.redis services orchestrator acts q hq
  exact ⟨q, w, hq, (hsame swapId).1⟩

end Webycash.Referee
