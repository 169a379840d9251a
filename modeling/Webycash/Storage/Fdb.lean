import Webycash.Storage.Types
/-!
# The FoundationDB backend (`storage/src/fdb_backend.rs`)

One JSON document per token. A transaction reads its own writes and is thrown away as a whole
when its closure answers `Err`, so the loops below pass the token map along and drop it on error.

| here | there |
| --- | --- |
| `insertTokens`            | fdb_backend.rs:119 |
| `getTokens`, `checkTokens`| fdb_backend.rs:152, fdb_backend.rs:178 |
| `execReplace`, `execBurn` | fdb_backend.rs:255, fdb_backend.rs:329 |
-/

namespace Webycash.Fdb

abbrev Tokens := FMap String Doc

/-- The subspaces `tokens`, `audit/replace`, `audit/burn` and `mining`. -/
structure Db where
  tokens : Tokens
  replaceAudit : FMap String AuditRow
  burnAudit : FMap String AuditRow
  mining : FMap String MiningState

def Db.empty : Db := ⟨∅, ∅, ∅, ∅⟩

/-- `fdb_err` around a `CustomError`. -/
def fdbErr (msg : String) : String := "FoundationDB error: \"" ++ msg ++ "\""

/-- `v.get("spent").and_then(as_bool).unwrap_or(false)`. -/
def alreadySpent (doc : Doc) : Bool := ((doc.lookup "spent").bind Json.asBool).getD false

def spendDoc (now : String) (doc : Doc) : Doc := (doc.insert "spent" (.bool true)).insert "spent_at" (.str now)

/-! ## Transaction bodies -/

/-- The input loop: check and mark one key after another. -/
def spendInputs (now : String) : List String → Tokens → Except String Tokens
  | [], t => .ok t
  | k :: ks, t =>
    match t.lookup k with
    | none => .error "input token not found"
    | some doc =>
      if alreadySpent doc then .error "input token already spent"
      else spendInputs now ks (t.insert k (spendDoc now doc))

/-- The output loop, and the loop of `insert_tokens`: every key must be free. -/
def insertDocs (msg : String) : List (String × Doc) → Tokens → Except String Tokens
  | [], t => .ok t
  | (k, doc) :: entries, t => if k ∈ t then .error msg else insertDocs msg entries (t.insert k doc)

/-! ## Store methods -/

section

variable {ρ : Type} (cfg : StoreConfig ρ) (now : DateTime)

/-- Key and document of a record, under the record's own namespace. -/
def entryOf (r : ρ) : String × Doc := (cfg.recordKey r, cfg.codec.toJson r)

def insertTokens (records : List ρ) (db : Db) : Except String Unit × Db :=
  match insertDocs "token already exists" (records.map (entryOf cfg)) db.tokens with
  | .ok t => (.ok (), { db with tokens := t })
  | .error e => (.error (fdbErr e), db)

/-- `trx_get_json` at the record type: an undecodable document fails the call. -/
def getJson (t : Tokens) (k : String) : Except String (Option ρ) :=
  match t.lookup k with
  | none => .ok none
  | some doc =>
    match cfg.codec.fromJson doc with
    | some r => .ok (some r)
    | none => .error ("FoundationDB error: " ++ cfg.serviceError)

def getTokens (ns : Namespace) (hashes : List String) (db : Db) : Except String (List (Option ρ)) :=
  hashes.mapM fun h => getJson cfg db.tokens (cfg.tokenKey ns h)

/-- `spent` of a decoded record, read back through `to_fields`. -/
def spentOf (r : ρ) : Bool := (((cfg.codec.fieldMap r).lookup "spent").map (· == "1")).getD false

def checkTokens (ns : Namespace) (hashes : List String) (db : Db) : Except String (List (String × Option Bool)) :=
  (getTokens cfg ns hashes db).map fun tokens => hashes.zip (tokens.map (Option.map (spentOf cfg)))

/-- The token part of the replace transaction. -/
def replaceTrx (ns : Namespace) (op : ReplaceOp ρ) (t : Tokens) : Except String Tokens :=
  match spendInputs (cfg.chrono.toRfc3339 now) (op.inputs.map (cfg.tokenKey ns)) t with
  | .error e => .error e
  | .ok t₁ => insertDocs "output token already exists" (op.outputs.map (entryOf cfg)) t₁

def execReplace (ns : Namespace) (op : ReplaceOp ρ) (db : Db) : Except String Unit × Db :=
  match replaceTrx cfg now ns op db.tokens with
  | .error e => (.error (fdbErr e), db)
  | .ok t => (.ok (), { db with
      tokens := t
      replaceAudit := db.replaceAudit.insert (cfg.keys.replacementKey cfg.name ns op.record.id)
        (.replacement op.record) })

def execBurn (ns : Namespace) (hash : String) (record : BurnRecord) (db : Db) : Except String Unit × Db :=
  match db.tokens.lookup (cfg.tokenKey ns hash) with
  | none => (.error (fdbErr "token not found"), db)
  | some doc =>
    if alreadySpent doc then (.error (fdbErr "token already spent"), db)
    else (.ok (), { db with
      tokens := db.tokens.insert (cfg.tokenKey ns hash) (spendDoc (cfg.chrono.toRfc3339 now) doc)
      burnAudit := db.burnAudit.insert (cfg.keys.burnKey cfg.name ns record.id) (.burn record) })

/-- One transaction per op. -/
def batchReplace (ns : Namespace) : List (ReplaceOp ρ) → Db → List ReplaceResult × Db
  | [], db => ([], db)
  | op :: ops, db =>
    let (answer, db₁) := execReplace cfg now ns op db
    let (results, db₂) := batchReplace ns ops db₁
    (ReplaceResult.ofExcept answer :: results, db₂)

/-- One transaction per burn, up to the first error. -/
def batchBurn (ns : Namespace) : List (String × BurnRecord) → Db → Except String Unit × Db
  | [], db => (.ok (), db)
  | (hash, record) :: ops, db =>
    match execBurn cfg now ns hash record db with
    | (.error e, db₁) => (.error e, db₁)
    | (.ok (), db₁) => batchBurn ns ops db₁

def getMiningState (db : Db) : Except String (Option MiningState) :=
  .ok (db.mining.lookup (cfg.keys.miningStateKey cfg.name))

def updateMiningState (state : MiningState) (db : Db) : Except String Unit × Db :=
  (.ok (), { db with mining := db.mining.insert (cfg.keys.miningStateKey cfg.name) state })

/-- `FdbStore` as a `LedgerStore`, at one reading of the clock. -/
def store : LedgerStore Db ρ where
  insertTokens := insertTokens cfg
  getTokens := getTokens cfg
  checkTokens := checkTokens cfg
  batchReplace := batchReplace cfg now
  batchBurn := batchBurn cfg now
  getMiningState := getMiningState cfg
  updateMiningState := updateMiningState cfg

end

end Webycash.Fdb
