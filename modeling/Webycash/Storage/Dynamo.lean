import Webycash.Lib.Stride
import Webycash.Storage.Types
/-!
# The DynamoDB backend (`storage/src/dynamodb_backend.rs`)

Three tables keyed by `pk`. `TransactWriteItems` is all-or-nothing: it is refused when it has
more than 100 actions, names one item twice, or fails a condition. `BatchWriteItem` puts without
conditions, item by item; a call may fail, and a call that succeeds may return some of its items
as unprocessed. `BatchGetItem` takes at most 100 keys, none twice, and may leave keys
unprocessed too. What the service does is the `Env` of a call.

| here | there |
| --- | --- |
| `itemFor`, `itemToRecord` | dynamodb_backend.rs:163, dynamodb_backend.rs:188 |
| `insertTokens`            | dynamodb_backend.rs:223 |
| `getTokens`, `checkTokens`| dynamodb_backend.rs:253, dynamodb_backend.rs:301 |
| `execReplace`, `execBurn` | dynamodb_backend.rs:386, dynamodb_backend.rs:451 |
-/

namespace Webycash.Dynamo

/-- The variants `item_for` writes. -/
inductive AttributeValue
  | S (s : String)
  | N (n : String)
  | Bool (b : Bool)
  deriving DecidableEq

abbrev Item := FMap String AttributeValue
abbrev Tokens := FMap String Item

structure Db where
  tokens : Tokens
  audit : FMap String AuditRow
  mining : FMap String MiningState

def Db.empty : Db := ⟨∅, ∅, ∅⟩

/-- The answer to one `BatchWriteItem` call. -/
inductive BatchReply
  | failed
  | done (unprocessed : List String)
  deriving DecidableEq

/-- What the service does during one store call. -/
structure Env where
  writes : List BatchReply
  unprocessedKeys : List String

/-- Every call succeeds completely. -/
def Env.calm : Env := ⟨[], []⟩

/-! ## Service operations -/

/-- `BatchWriteItem`: two puts of one key in a call are refused. -/
def batchWriteItem (reply : BatchReply) (puts : List (String × Item)) (t : Tokens) : Option Tokens :=
  if ¬ (puts.map Prod.fst).Nodup then none
  else match reply with
    | .failed => none
    | .done unprocessed => some (FMap.putAll t (puts.filter fun p => decide (p.1 ∉ unprocessed)))

/-- The actions of the two transactions. -/
inductive Action
  | spend (pk now : String)
  | put (pk : String) (item : Item)
  | putAudit (pk : String) (row : AuditRow)

inductive Table
  | tokens
  | audit
  deriving DecidableEq

/-- The item an action names. -/
def Action.target : Action → Table × String
  | spend pk _ => (.tokens, pk)
  | put pk _ => (.tokens, pk)
  | putAudit pk _ => (.audit, pk)

/-- `attribute_exists(pk) AND spent = :f`, `attribute_not_exists(pk)`, none for the audit row. -/
def Action.condition (db : Db) : Action → Prop
  | spend pk _ => (db.tokens.lookup pk).bind (·.lookup "spent") = some (.Bool false)
  | put pk _ => pk ∉ db.tokens
  | putAudit _ _ => True

instance Action.decidableCondition (db : Db) : ∀ a : Action, Decidable (a.condition db)
  | spend _ _ => inferInstanceAs (Decidable (_ = _))
  | put _ _ => inferInstanceAs (Decidable (_ ∉ _))
  | putAudit _ _ => isTrue trivial

/-- `SET spent = :t, spent_at = :now`. -/
def spendItem (now : String) (item : Item) : Item := (item.insert "spent" (.Bool true)).insert "spent_at" (.S now)

def Action.apply (db : Db) : Action → Db
  | spend pk now => { db with tokens := db.tokens.insert pk (spendItem now ((db.tokens.lookup pk).getD ∅)) }
  | put pk item => { db with tokens := db.tokens.insert pk item }
  | putAudit pk row => { db with audit := db.audit.insert pk row }

/-- `TransactWriteItems`. -/
def transactWriteItems (actions : List Action) (db : Db) : Option Db :=
  if actions.length ≤ 100 ∧ (actions.map Action.target).Nodup ∧ ∀ a ∈ actions, a.condition db then
    some (actions.foldl Action.apply db)
  else none

/-! ## Store methods -/

section

variable {ρ : Type} (cfg : StoreConfig ρ) (now : DateTime) (env : Env)

/-- `amount_wats` as `N`, `spent` as `BOOL`, everything else as `S`. -/
def attributeOf (p : String × String) : String × AttributeValue :=
  (p.1, if p.1 = "amount_wats" then .N p.2 else if p.1 = "spent" then .Bool (p.2 == "1") else .S p.2)

def itemFor (ns : Namespace) (r : ρ) : Item :=
  let pk := cfg.tokenKey ns (cfg.codec.publicHash r)
  FMap.putAll (Finmap.singleton "pk" (.S pk)) ((cfg.codec.toFields r).map attributeOf)

/-- What follows the last occurrence of `sep`. -/
def afterLast (sep : List Char) : List Char → Option (List Char)
  | [] => Wire.tag sep []
  | c :: cs => (afterLast sep cs).or (Wire.tag sep (c :: cs))

/-- `pk.rsplit(":token:").next()`, the whole text when there is no separator. -/
def hashOfPk (pk : String) : String :=
  ((afterLast ":token:".toList (chars pk)).map String.ofList).getD pk

def attributeText : AttributeValue → String
  | .S s => s
  | .N n => n
  | .Bool b => if b then "1" else "0"

/-- The attributes other than `pk`, as text. -/
def itemFields (item : Item) : Fields := FMap.mapVals attributeText (item.erase "pk")

def itemToRecord (item : Item) : Option ρ :=
  match item.lookup "pk" with
  | some (.S pk) => cfg.codec.fromFields now (hashOfPk pk) (itemFields item)
  | _ => none

/-- The put `insert_tokens` sends for a record: keyed by the record's own namespace. -/
def putOf (r : ρ) : String × Item := (cfg.recordKey r, itemFor cfg (cfg.codec.namespaceOf r) r)

/-- One `BatchWriteItem` per chunk, in sequence, up to the first that fails. -/
def writeChunks : List BatchReply → List (List ρ) → Tokens → Bool × Tokens
  | _, [], t => (true, t)
  | replies, chunk :: chunks, t =>
    match batchWriteItem (replies.head?.getD (.done [])) (chunk.map (putOf cfg)) t with
    | none => (false, t)
    | some t' => writeChunks replies.tail chunks t'

def insertTokens (records : List ρ) (db : Db) : Except String Unit × Db :=
  match records with
  | [] => (.ok (), db)
  | _ =>
    let (sent, t) := writeChunks cfg env.writes (Stride.chunks 25 records) db.tokens
    (if sent then .ok () else .error ("batch insert: " ++ cfg.serviceError), { db with tokens := t })

def getTokens (ns : Namespace) (hashes : List String) (db : Db) : Except String (List (Option ρ)) :=
  let keys := hashes.map (cfg.tokenKey ns)
  if hashes = [] then .ok []
  else if 100 < keys.length ∨ ¬ keys.Nodup then .error ("batch get: " ++ cfg.serviceError)
  else .ok (keys.map fun pk =>
    if pk ∈ env.unprocessedKeys then none else (db.tokens.lookup pk).bind (itemToRecord cfg now))

/-- `spent` of a decoded record, read back through `to_fields`. -/
def spentOf (r : ρ) : Bool := (((cfg.codec.fieldMap r).lookup "spent").map (· == "1")).getD false

def checkTokens (ns : Namespace) (hashes : List String) (db : Db) : Except String (List (String × Option Bool)) :=
  (getTokens cfg now env ns hashes db).map fun tokens => hashes.zip (tokens.map (Option.map (spentOf cfg)))

/-- The actions of one replace: spend the inputs, put the outputs under the call's namespace,
put the audit row. -/
def replaceActions (ns : Namespace) (op : ReplaceOp ρ) : List Action :=
  op.inputs.map (fun h => .spend (cfg.tokenKey ns h) (cfg.chrono.toRfc3339 now)) ++
    op.outputs.map (fun r => .put (cfg.tokenKey ns (cfg.codec.publicHash r)) (itemFor cfg ns r)) ++
    [.putAudit (cfg.keys.replacementKey cfg.name ns op.record.id) (.replacement op.record)]

def execReplace (ns : Namespace) (op : ReplaceOp ρ) (db : Db) : Except String Unit × Db :=
  match transactWriteItems (replaceActions cfg now ns op) db with
  | some db' => (.ok (), db')
  | none => (.error ("transact write: " ++ cfg.serviceError), db)

def execBurn (ns : Namespace) (hash : String) (record : BurnRecord) (db : Db) : Except String Unit × Db :=
  match transactWriteItems [.spend (cfg.tokenKey ns hash) (cfg.chrono.toRfc3339 now),
      .putAudit (cfg.keys.burnKey cfg.name ns record.id) (.burn record)] db with
  | some db' => (.ok (), db')
  | none => (.error ("burn: " ++ cfg.serviceError), db)

/-- One transaction per op. -/
def batchReplace (ns : Namespace) : List (ReplaceOp ρ) → Db → List ReplaceResult × Db
  | [], db => ([], db)
  | op :: ops, db =>
    let (answer, db₁) := execReplace cfg now ns op db
    let (results, db₂) := batchReplace ns ops db₁
    (ReplaceResult.ofExcept answer :: results, db₂)

/-- One transaction per burn, up to the first error. -/
def batchBurn (ns : Namespace) : List (String × BurnRecord) → Db → Except String Unit × Db
  | [], db => (.ok (), db)
  | (hash, record) :: ops, db =>
    match execBurn cfg now ns hash record db with
    | (.error e, db₁) => (.error e, db₁)
    | (.ok (), db₁) => batchBurn ns ops db₁

def getMiningState (db : Db) : Except String (Option MiningState) :=
  .ok (db.mining.lookup (cfg.keys.miningStateKey cfg.name))

def updateMiningState (state : MiningState) (db : Db) : Except String Unit × Db :=
  (.ok (), { db with mining := db.mining.insert (cfg.keys.miningStateKey cfg.name) state })

/-- `DynamoDbStore` as a `LedgerStore`, at one reading of the clock. -/
def store : LedgerStore Db ρ where
  insertTokens := insertTokens cfg env
  getTokens := getTokens cfg now env
  checkTokens := checkTokens cfg now env
  batchReplace := batchReplace cfg now
  batchBurn := batchBurn cfg now
  getMiningState := getMiningState cfg
  updateMiningState := updateMiningState cfg

end

end Webycash.Dynamo
