import Webycash.Storage.Fdb
import Webycash.Storage.Redis
/-!
# The Redis cache in front of FoundationDB (`storage/src/redis_fdb_backend.rs`)

Every write goes to FoundationDB first and is then mirrored to Redis as far as Redis answers.
`get_tokens` takes what Redis has if it has everything that is asked for, and otherwise asks
FoundationDB and warms the cache with the answer; `check_tokens` always asks FoundationDB. The
module comment of the source (lines 9 to 11) promises that state-mutating calls invalidate cache
entries; `batch_replace` leaves its inputs alone, and `batch_burn` does not talk to Redis at all.

A Redis call that fails may have been carried out in part: a pipeline has carried out the
commands of a mask, a single command has been carried out or not.

| here | there |
| --- | --- |
| `insertTokens`  | redis_fdb_backend.rs:59 |
| `getTokens`     | redis_fdb_backend.rs:69 |
| `checkTokens`   | redis_fdb_backend.rs:88 |
| `batchReplace`, `mirror` | redis_fdb_backend.rs:97 |
| `batchBurn`     | redis_fdb_backend.rs:116 |
| `getMiningState`, `updateMiningState` | redis_fdb_backend.rs:120, redis_fdb_backend.rs:128 |
-/

namespace Webycash

/-- A call of the trait `LedgerStore`. -/
inductive StoreCall (ρ : Type)
  | insertTokens (records : List ρ)
  | getTokens (ns : Namespace) (hashes : List String)
  | checkTokens (ns : Namespace) (hashes : List String)
  | batchReplace (ns : Namespace) (ops : List (ReplaceOp ρ))
  | batchBurn (ns : Namespace) (ops : List (String × BurnRecord))
  | getMiningState
  | updateMiningState (state : MiningState)

inductive StoreAnswer (ρ : Type)
  | done (answer : Except String Unit)
  | tokens (answer : Except String (List (Option ρ)))
  | checks (answer : Except String (List (String × Option Bool)))
  | results (answer : List ReplaceResult)
  | mining (answer : Except String (Option MiningState))
  deriving DecidableEq

/-- A store without a cache, one call at a time. -/
def LedgerStore.call {δ ρ : Type} (store : LedgerStore δ ρ) : StoreCall ρ → δ → StoreAnswer ρ × δ
  | .insertTokens records, db => (.done (store.insertTokens records db).1, (store.insertTokens records db).2)
  | .getTokens ns hashes, db => (.tokens (store.getTokens ns hashes db), db)
  | .checkTokens ns hashes, db => (.checks (store.checkTokens ns hashes db), db)
  | .batchReplace ns ops, db => (.results (store.batchReplace ns ops db).1, (store.batchReplace ns ops db).2)
  | .batchBurn ns ops, db => (.done (store.batchBurn ns ops db).1, (store.batchBurn ns ops db).2)
  | .getMiningState, db => (.mining (store.getMiningState db), db)
  | .updateMiningState state, db => (.done (store.updateMiningState state db).1, (store.updateMiningState state db).2)

namespace RedisFdb

structure Db where
  redis : Redis.Db
  fdb : Fdb.Db

def Db.empty : Db := ⟨.empty, .empty⟩

/-- How `insert_tokens` on Redis fails: in its first pipeline, in its second, or not. -/
inductive InsertFault
  | none
  | claim (mask : List Bool)
  | fill (mask : List Bool)

/-- How the Redis calls of one store call fail. `read` is set when a read fails, `inserts` has one
entry for each `insert_tokens`, and `update` says whether a failed `SET` was carried out. -/
structure CacheFaults where
  read : Bool
  inserts : List InsertFault
  update : Option Bool

def CacheFaults.none : CacheFaults := ⟨false, [], .none⟩

section

variable {ρ : Type} (cfg : StoreConfig ρ) (now : DateTime)

/-- What a best-effort `insert_tokens` leaves in Redis; its answer is ignored. -/
def cacheInsert (records : List ρ) (redis : Redis.Db) : InsertFault → Redis.Db
  | .none => (Redis.insertTokens cfg records redis).2
  | .claim mask => { redis with tokens := (Redis.claim cfg (Redis.created mask records) redis.tokens).2 }
  | .fill mask =>
    let (nx, t) := Redis.claim cfg records redis.tokens
    { redis with tokens := (Redis.fill cfg (Redis.created mask (Redis.created nx records)) t).2 }

def insertTokens (faults : CacheFaults) (records : List ρ) (db : Db) : Except String Unit × Db :=
  match Fdb.insertTokens cfg records db.fdb with
  | (.error e, fdb) => (.error e, { db with fdb := fdb })
  | (.ok (), fdb) => (.ok (), ⟨cacheInsert cfg records db.redis (faults.inserts.headD .none), fdb⟩)

/-- `self.redis.get_tokens(…).await.unwrap_or_default()`. -/
def cachedTokens (faults : CacheFaults) (ns : Namespace) (hashes : List String) (db : Db) : List (Option ρ) :=
  match faults.read, Redis.getTokens cfg now ns hashes db.redis with
  | false, .ok found => found
  | _, _ => []

/-- `cached.iter().all(|t| t.is_some()) && cached.len() == hashes.len()`. -/
def CacheHit (faults : CacheFaults) (ns : Namespace) (hashes : List String) (db : Db) : Prop :=
  (∀ t ∈ cachedTokens cfg now faults ns hashes db, t.isSome = true) ∧
    (cachedTokens cfg now faults ns hashes db).length = hashes.length

instance decidableCacheHit (faults : CacheFaults) (ns : Namespace) (hashes : List String) (db : Db) :
    Decidable (CacheHit cfg now faults ns hashes db) := inferInstanceAs (Decidable (_ ∧ _))

def getTokens (faults : CacheFaults) (ns : Namespace) (hashes : List String) (db : Db) :
    Except String (List (Option ρ)) × Db :=
  if CacheHit cfg now faults ns hashes db then (.ok (cachedTokens cfg now faults ns hashes db), db)
  else
    match Fdb.getTokens cfg ns hashes db.fdb with
    | .error e => (.error e, db)
    | .ok fromFdb =>
      let toWarm := fromFdb.reduceOption
      if toWarm = [] then (.ok fromFdb, db)
      else (.ok fromFdb, { db with redis := cacheInsert cfg toWarm db.redis (faults.inserts.headD .none) })

def checkTokens (ns : Namespace) (hashes : List String) (db : Db) : Except String (List (String × Option Bool)) :=
  Fdb.checkTokens cfg ns hashes db.fdb

/-- Insert the outputs of every op that went through. -/
def mirror : List (ReplaceOp ρ × ReplaceResult) → List InsertFault → Redis.Db → Redis.Db
  | [], _, redis => redis
  | (op, .ok) :: rest, faults, redis => mirror rest faults.tail (cacheInsert cfg op.outputs redis (faults.headD .none))
  | (_, .failed _) :: rest, faults, redis => mirror rest faults redis

def batchReplace (faults : CacheFaults) (ns : Namespace) (ops : List (ReplaceOp ρ)) (db : Db) :
    List ReplaceResult × Db :=
  let (results, fdb) := Fdb.batchReplace cfg now ns ops db.fdb
  (results, ⟨mirror cfg (ops.zip results) faults.inserts db.redis, fdb⟩)

def batchBurn (ns : Namespace) (ops : List (String × BurnRecord)) (db : Db) : Except String Unit × Db :=
  let (answer, fdb) := Fdb.batchBurn cfg now ns ops db.fdb
  (answer, { db with fdb := fdb })

def getMiningState (faults : CacheFaults) (db : Db) : Except String (Option MiningState) :=
  match faults.read, Redis.getMiningState cfg db.redis with
  | false, .ok (some state) => .ok (some state)
  | _, _ => Fdb.getMiningState cfg db.fdb

def updateMiningState (faults : CacheFaults) (state : MiningState) (db : Db) : Except String Unit × Db :=
  match Fdb.updateMiningState cfg state db.fdb with
  | (.error e, fdb) => (.error e, { db with fdb := fdb })
  | (.ok (), fdb) =>
    match faults.update with
    | some false => (.ok (), { db with fdb := fdb })
    | _ => (.ok (), ⟨(Redis.updateMiningState cfg state db.redis).2, fdb⟩)

/-- A call with its reading of the clock and what Redis does meanwhile. -/
structure CacheCall (ρ : Type) where
  now : DateTime
  faults : CacheFaults
  call : StoreCall ρ

def call (c : CacheCall ρ) (db : Db) : StoreAnswer ρ × Db :=
  match c.call with
  | .insertTokens records => let r := insertTokens cfg c.faults records db; (.done r.1, r.2)
  | .getTokens ns hashes => let r := getTokens cfg c.now c.faults ns hashes db; (.tokens r.1, r.2)
  | .checkTokens ns hashes => (.checks (checkTokens cfg ns hashes db), db)
  | .batchReplace ns ops => let r := batchReplace cfg c.now c.faults ns ops db; (.results r.1, r.2)
  | .batchBurn ns ops => let r := batchBurn cfg c.now ns ops db; (.done r.1, r.2)
  | .getMiningState => (.mining (getMiningState cfg c.faults db), db)
  | .updateMiningState state => let r := updateMiningState cfg c.faults state db; (.done r.1, r.2)

/-- `FdbStore` alone. -/
def fdbCall (c : CacheCall ρ) (db : Fdb.Db) : StoreAnswer ρ × Fdb.Db := (Fdb.store cfg c.now).call c.call db

end

end RedisFdb

end Webycash
