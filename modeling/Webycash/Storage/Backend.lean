import Webycash.Storage.Accept
/-!
# The backends a server can run on

One index for the three stores, so that results about servers are stated once.
-/

namespace Webycash

inductive Backend
  | redis
  | dynamo
  | fdb
  deriving DecidableEq

namespace Backend

def Db : Backend → Type
  | redis => Redis.Db
  | dynamo => Dynamo.Db
  | fdb => Fdb.Db

def empty : (b : Backend) → b.Db
  | redis => Redis.Db.empty
  | dynamo => Dynamo.Db.empty
  | fdb => Fdb.Db.empty

/-- The store of a backend at one reading of the clock; only DynamoDB looks at `service`. -/
def store {ρ : Type} (cfg : StoreConfig ρ) (now : DateTime) (service : Dynamo.Env) : (b : Backend) →
    LedgerStore b.Db ρ
  | redis => Redis.store cfg now
  | dynamo => Dynamo.store cfg now service
  | fdb => Fdb.store cfg now

/-- Which keys exist and which are spent. -/
def seals : (b : Backend) → b.Db → Seals String
  | redis, db => Redis.seals db.tokens
  | dynamo, db => Dynamo.seals db.tokens
  | fdb, db => Fdb.seals db.tokens

theorem seals_empty {b : Backend} {k : String} : b.seals b.empty k = none := by
  cases b <;> rfl

end Backend

/-! ## What leaves the mining state alone -/

section

variable {ρ : Type} (cfg : StoreConfig ρ) (now : DateTime) (ns : Namespace)

theorem Redis.replace_mining (op : ReplaceOp ρ) (db : Redis.Db) :
    (Redis.batchReplace cfg now ns [op] db).2.mining = db.mining := by
  rw [batchReplace_single_db]
  unfold replaceLua
  split
  · rfl
  · split <;> rfl

theorem Redis.burn_mining (ops : String × BurnRecord) (db : Redis.Db) :
    (Redis.batchBurn cfg now ns [ops] db).2.mining = db.mining := by
  have hdb : (batchBurn cfg now ns [ops] db).2 =
    (burnLua (cfg.tokenKey ns ops.1) (cfg.keys.burnKey cfg.name ns ops.2.id)
      (cfg.chrono.toRfc3339 now) (.burn ops.2) db).2 := rfl
  rw [hdb]
  rcases burnLua_cases (cfg.tokenKey ns ops.1) (cfg.keys.burnKey cfg.name ns ops.2.id) (cfg.chrono.toRfc3339 now)
    (.burn ops.2) db
    with ⟨-, e, he⟩ | ⟨-, he⟩
  · rw [he]
  · rw [he]

theorem Dynamo.transact_mining {actions : List Action} :
    ∀ {db : Dynamo.Db}, (actions.foldl Action.apply db).mining = db.mining := by
  induction actions with
  | nil => intro db; rfl
  | cons a actions ih =>
    intro db
    rw [List.foldl_cons, ih]
    cases a <;> rfl

theorem Dynamo.replace_mining (op : ReplaceOp ρ) (db : Dynamo.Db) :
    (Dynamo.batchReplace cfg now ns [op] db).2.mining = db.mining := by
  rw [batchReplace_single]
  unfold execReplace
  rw [transactWriteItems_eq]
  split_ifs
  · exact transact_mining
  · rfl

theorem Dynamo.burn_mining (ops : String × BurnRecord) (db : Dynamo.Db) :
    (Dynamo.batchBurn cfg now ns [ops] db).2.mining = db.mining := by
  rw [batchBurn_single]
  rcases burn_cases cfg now ns ops.1 ops.2 db with ⟨-, e, he⟩ | ⟨-, he⟩
  · rw [he]
  · rw [he]

end

end Webycash
