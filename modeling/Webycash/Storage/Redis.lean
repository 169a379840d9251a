import Webycash.Lib.Stride
import Webycash.Storage.Types
/-!
# The Redis backend (`storage/src/redis_backend.rs`)

The keyspace is three maps: token HASHes, audit strings and the mining singleton (the keys of
one call never mix them up, `KeyStrategy.tokenKey_ne_replacementKey`). A script runs without
interruption, but what it wrote before an early `return` or a runtime error stays. A pipeline
runs its commands in order; one failing command turns the whole reply into an error.

| here | there |
| --- | --- |
| `replaceLua`  | `REPLACE_LUA` (redis_backend.rs:27), its loops `checkInputs`, `markInputs`, `insertOutputs` |
| `burnLua`     | `BURN_LUA` (redis_backend.rs:57) |
| `insertTokens`| `insert_tokens` (redis_backend.rs:132): `claim` and `fill` are its two pipelines |
| `getTokens`, `checkTokens` | redis_backend.rs:180, redis_backend.rs:207 |
| `replaceCall`, `batchReplace` | redis_backend.rs:230 |
| `batchBurn`   | redis_backend.rs:311 |
-/

namespace Webycash.Redis

abbrev Tokens := FMap String Fields

structure Db where
  tokens : Tokens
  audit : FMap String AuditRow
  mining : FMap String MiningState
  deriving DecidableEq

def Db.empty : Db := ⟨∅, ∅, ∅⟩

/-! ## Commands -/

/-- `HGET k f`. -/
def hget (t : Tokens) (k f : String) : Option String := (t.lookup k).bind (·.lookup f)

/-- `HGETALL k`: empty when the key is absent. -/
def hgetall (t : Tokens) (k : String) : Fields := (t.lookup k).getD ∅

/-- `HSET k args…`; `none` is the "wrong number of arguments" error. -/
def hset (t : Tokens) (k : String) (args : List String) : Option Tokens :=
  match Stride.pairUp args with
  | some (p :: ps) => some (t.insert k (FMap.putAll (hgetall t k) (p :: ps)))
  | _ => none

/-- `HSETNX k f v`. -/
def hsetnx (t : Tokens) (k f v : String) : Bool × Tokens :=
  if (hget t k f).isSome then (false, t) else (true, t.insert k ((hgetall t k).insert f v))

/-! ## Scripts -/

/-- `ok`, a string starting with `ERR:`, or a Lua runtime error. -/
inductive Reply
  | ok
  | err (msg : String)
  | raised
  deriving DecidableEq

/-- First loop: every input exists and is not spent. -/
def checkInputs (t : Tokens) : List String → Option String
  | [] => none
  | k :: ks =>
    if k ∉ t then some ("input token not found: " ++ k)
    else if hget t k "spent" = some "1" then some ("input token already spent: " ++ k)
    else checkInputs t ks

/-- `HSET k spent 1 spent_at now`. -/
def markSpent (now : String) (t : Tokens) (k : String) : Tokens :=
  t.insert k (FMap.putAll (hgetall t k) [("spent", "1"), ("spent_at", now)])

/-- Second loop. -/
def markInputs (now : String) (t : Tokens) (ks : List String) : Tokens := ks.foldl (markSpent now) t

/-- Third loop, at output `i`: the arguments of output `i` are looked for at a fixed stride. -/
def insertOutputs (fieldsPerOutput : Nat) (argv : List String) : Nat → List String → Tokens → Reply × Tokens
  | _, [], t => (.ok, t)
  | i, k :: ks, t =>
    if k ∈ t then (.err ("output token already exists: " ++ k), t)
    else
      match hset t k ((argv.drop (i * fieldsPerOutput * 2)).take (fieldsPerOutput * 2)) with
      | none => (.raised, t)
      | some t' => insertOutputs fieldsPerOutput argv (i + 1) ks t'

/-- `KEYS` and `ARGV` of one `EVALSHA replace_sha`. -/
structure ReplaceCall where
  ik : List String
  ok : List String
  fieldsPerOutput : Nat
  now : String
  auditKey : String
  auditRow : AuditRow
  argv : List String

def replaceLua (c : ReplaceCall) (db : Db) : Reply × Db :=
  match checkInputs db.tokens c.ik with
  | some e => (.err e, db)
  | none =>
    match insertOutputs c.fieldsPerOutput c.argv 0 c.ok (markInputs c.now db.tokens c.ik) with
    | (.ok, t) => (.ok, { db with tokens := t, audit := db.audit.insert c.auditKey c.auditRow })
    | (reply, t) => (reply, { db with tokens := t })

def burnLua (tk ak now : String) (row : AuditRow) (db : Db) : Reply × Db :=
  if tk ∉ db.tokens then (.err "token not found", db)
  else if hget db.tokens tk "spent" = some "1" then (.err "token already spent", db)
  else (.ok, { db with tokens := markSpent now db.tokens tk, audit := db.audit.insert ak row })

/-! ## Store methods -/

section

variable {ρ : Type} (cfg : StoreConfig ρ) (now : DateTime)

/-- First pipeline of `insert_tokens`: `HSETNX key amount_wats …` for every record. -/
def claim : List ρ → Tokens → List Bool × Tokens
  | [], t => ([], t)
  | r :: rs, t =>
    let (nx, t₁) := hsetnx t (cfg.recordKey r) "amount_wats" (cfg.codec.amountWats r).toText
    let (nxs, t₂) := claim rs t₁
    (nx :: nxs, t₂)

/-- `fields.remove("amount_wats")`. -/
def restFields (r : ρ) : List (String × String) := (cfg.codec.toFields r).filter fun p => p.1 ≠ "amount_wats"

/-- Second pipeline: `HSET` the other fields of the records the first one created. The flag
says whether every command succeeded. -/
def fill : List ρ → Tokens → Bool × Tokens
  | [], t => (true, t)
  | r :: rs, t =>
    match hset t (cfg.recordKey r) (Stride.flattenPairs (restFields cfg r)) with
    | some t' => fill rs t'
    | none => (false, (fill rs t).2)

/-- `nx.iter().zip(records).filter(created)`. -/
def created (nx : List Bool) (records : List ρ) : List ρ := ((nx.zip records).filter (·.1)).map Prod.snd

/-- The first record that was not created decides the answer. -/
def insertAnswer (nx : List Bool) (records : List ρ) : Except String Unit :=
  match (nx.zip records).find? (fun p => !p.1) with
  | some (_, r) => .error ("token already exists: " ++ cfg.codec.publicHash r)
  | none => .ok ()

def insertTokens (records : List ρ) (db : Db) : Except String Unit × Db :=
  match records with
  | [] => (.ok (), db)
  | _ =>
    let (nx, t₁) := claim cfg records db.tokens
    let (done, t₂) := fill cfg (created nx records) t₁
    (if done then insertAnswer cfg nx records else .error cfg.serviceError, { db with tokens := t₂ })

def getTokens (ns : Namespace) (hashes : List String) (db : Db) : Except String (List (Option ρ)) :=
  .ok (hashes.map fun h =>
    let fields := hgetall db.tokens (cfg.tokenKey ns h)
    if fields = ∅ then none else cfg.codec.fromFields now h fields)

def checkTokens (ns : Namespace) (hashes : List String) (db : Db) : Except String (List (String × Option Bool)) :=
  .ok (hashes.map fun h => (h, (hget db.tokens (cfg.tokenKey ns h) "spent").map (· == "1")))

/-- `sample.len()` of the first output. -/
def fieldsPerOutput (outputs : List ρ) : Nat := (outputs.head?.map fun o => (cfg.codec.toFields o).length).getD 0

/-- The `EVALSHA` command for one op. -/
def replaceCall (ns : Namespace) (op : ReplaceOp ρ) : ReplaceCall where
  ik := op.inputs.map (cfg.tokenKey ns)
  ok := op.outputs.map fun o => cfg.tokenKey ns (cfg.codec.publicHash o)
  fieldsPerOutput := fieldsPerOutput cfg op.outputs
  now := cfg.chrono.toRfc3339 now
  auditKey := cfg.keys.replacementKey cfg.name ns op.record.id
  auditRow := .replacement op.record
  argv := op.outputs.flatMap fun o => Stride.flattenPairs (cfg.codec.entries o)

/-- The scripts of a pipeline, one after another. -/
def runReplace (ns : Namespace) : List (ReplaceOp ρ) → Db → List Reply × Db
  | [], db => ([], db)
  | op :: ops, db =>
    let (reply, db₁) := replaceLua (replaceCall cfg now ns op) db
    let (replies, db₂) := runReplace ns ops db₁
    (reply :: replies, db₂)

/-- How one reply of a pipeline without errors is read. -/
def Reply.toResult : Reply → ReplaceResult
  | .ok => .ok
  | .err msg => .failed msg
  | .raised => .failed ""

def batchReplace (ns : Namespace) (ops : List (ReplaceOp ρ)) (db : Db) : List ReplaceResult × Db :=
  let (replies, db') := runReplace cfg now ns ops db
  if .raised ∈ replies then (ops.map fun _ => .failed cfg.serviceError, db')
  else (replies.map Reply.toResult, db')

def runBurn (ns : Namespace) : List (String × BurnRecord) → Db → List Reply × Db
  | [], db => ([], db)
  | (hash, record) :: ops, db =>
    let (reply, db₁) := burnLua (cfg.tokenKey ns hash) (cfg.keys.burnKey cfg.name ns record.id)
      (cfg.chrono.toRfc3339 now) (.burn record) db
    let (replies, db₂) := runBurn ns ops db₁
    (reply :: replies, db₂)

/-- The first `ERR:` reply decides. -/
def burnAnswer : List Reply → Except String Unit
  | [] => .ok ()
  | .err msg :: _ => .error ("burn failed: " ++ msg)
  | _ :: replies => burnAnswer replies

def batchBurn (ns : Namespace) (ops : List (String × BurnRecord)) (db : Db) : Except String Unit × Db :=
  let (replies, db') := runBurn cfg now ns ops db
  (burnAnswer replies, db')

def getMiningState (db : Db) : Except String (Option MiningState) :=
  .ok (db.mining.lookup (cfg.keys.miningStateKey cfg.name))

def updateMiningState (state : MiningState) (db : Db) : Except String Unit × Db :=
  (.ok (), { db with mining := db.mining.insert (cfg.keys.miningStateKey cfg.name) state })

/-- `RedisStore` as a `LedgerStore`, at one reading of the clock. -/
def store : LedgerStore Db ρ where
  insertTokens := insertTokens cfg
  getTokens := getTokens cfg now
  checkTokens := checkTokens cfg
  batchReplace := batchReplace cfg now
  batchBurn := batchBurn cfg now
  getMiningState := getMiningState cfg
  updateMiningState := updateMiningState cfg

end

end Webycash.Redis
