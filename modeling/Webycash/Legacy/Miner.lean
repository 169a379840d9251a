import Mathlib.Data.Int.ModEq
import Webycash.Lib.SortedMap
import Webycash.Server.Plans
import Webycash.Storage.RedisInsert
/-!
# The miner actor of the monolithic server (`server/src/actors/miner.rs`)

`handle_mining_report` checks a report against the mining state it holds in memory, computes the
next state, persists it, inserts the records, and only then replaces the state in memory. The
store is Redis; every call may fail at any of its commands (`StoreFaults`).

| here | there |
| --- | --- |
| `MiningState`, `MiningPreimage`, `adjustDifficulty` | protocol/mining.rs:99, :49, :141 |
| `verifyAndParse` | protocol/mining.rs:65; base64 and JSON are `decodePreimage` |
| `fromStr`        | `SecretWebcash::from_str` (protocol/token.rs:57), which ignores what follows the token |
| `tokenCodec`     | `TokenRecord` and its HASH fields (db/mod.rs:17, db/redis.rs:130) |
| `validate`, `nextState`, `commit`, `handleMiningReport` | actors/miner.rs:90 |
| `preStart`       | actors/miner.rs:49 |
-/

namespace Webycash.Legacy

open Redis (Tokens)

/-! ## Protocol -/

structure MiningPreimage where
  webcash : List String
  subsidy : List String
  timestamp : Nat
  difficulty : Nat

structure MiningState where
  difficultyTargetBits : Nat
  epoch : Nat
  totalCirculationWats : I64
  miningReportsCount : Nat
  miningAmountWats : I64
  subsidyAmountWats : I64
  lastAdjustmentAt : DateTime
  aggregateWork : Float

def MiningState.initial (now : DateTime) (difficulty : Nat) (miningAmountWats subsidyAmountWats : I64) : MiningState :=
  ⟨difficulty, 0, 0, 0, miningAmountWats, subsidyAmountWats, now, 0.0⟩

/-- `u32::saturating_add`. -/
def saturatingAddU32 (a b : Nat) : Nat := min (a + b) 4294967295

def adjustDifficulty (currentDifficulty actualTimeSecs targetTimeSecs actualReports expectedReports : Nat) : Nat :=
  let timeRatio := Float.ofNat actualTimeSecs / Float.ofNat targetTimeSecs
  let reportRatio := Float.ofNat actualReports / Float.ofNat expectedReports
  let newDiff :=
    if timeRatio ≤ 1.0 ∧ 1.0 ≤ reportRatio then saturatingAddU32 currentDifficulty 1
    else if 1.0 ≤ timeRatio ∧ reportRatio ≤ 1.0 then max (currentDifficulty - 1) 1
    else currentDifficulty
  max (max (currentDifficulty - 2) 1) (min newDiff (saturatingAddU32 currentDifficulty 2))

/-- The parser's rest is thrown away. -/
def fromStr (s : String) : Option SecretWebcash := do
  let (amt, hex, _) ← amountAndHex "secret" (chars s)
  let amount ← amountOf amt
  return ⟨amount, String.ofList hex⟩

/-! ## Records -/

/-- The fields are those of the newer webcash record. -/
abbrev TokenRecord := WebcashRecord

/-- `insert_tokens` writes no `spent_at`. -/
def tokenCodec (chrono : Codec) : HashRecord TokenRecord :=
  { webcashCodec chrono with
    toFields := fun r => fieldsOf chrono r.amountWats.toText r.spent r.createdAt none r.origin.display []
    names_nodup := fun _ => fieldsOf_names_nodup chrono (by simp) (by simp)
    amount_mem := fun _ => by simp [fieldsOf, webcashCodec]
    spent_mem := fun _ => by simp [fieldsOf, webcashCodec] }

/-- Keys are `token:{hash}`. -/
def storeConfig (chrono : Codec) (serviceError : String) : StoreConfig TokenRecord :=
  ⟨"webcash", .webcashLegacyKeys, tokenCodec chrono, chrono, serviceError⟩

def minedRecord (now : DateTime) (s : SecretWebcash) : TokenRecord :=
  ⟨s.toPublic.hash, s.amount.wats, false, now, none, .mined⟩

/-! ## The actor -/

inductive NetworkMode
  | testnet
  | production
  deriving DecidableEq

structure MiningConfig where
  testnetDifficulty : Nat
  reportsPerEpoch : Nat
  targetEpochSeconds : Nat
  initialMiningAmountWats : I64
  initialSubsidyAmountWats : I64

structure MinerActor where
  mode : NetworkMode
  miningConfig : MiningConfig
  decodePreimage : String → Except String MiningPreimage

/-- The readings of the clock, in the order of the calls of `Utc::now`. -/
structure Clock where
  checked : DateTime
  created : DateTime
  elapsed : DateTime
  adjusted : DateTime

/-- `timestamp() as u64`. -/
def nowSecs (t : DateTime) : Nat := (t.nanos / 1000000000 % 18446744073709551616).toNat

/-- `(a - b).num_seconds().unsigned_abs()`. -/
def secondsBetween (a b : DateTime) : Nat := ((a.nanos - b.nanos).tdiv 1000000000).natAbs

def verifyAndParse (actor : MinerActor) (preimageStr : String) (difficultyBits : Nat) :
    Except String MiningPreimage := do
  let _ ← require (verifyPow preimageStr difficultyBits = true)
    ("proof-of-work does not meet difficulty target of " ++ toString difficultyBits ++ " bits")
  orElse ("invalid preimage (not base64 or JSON): " ++ ·) (actor.decodePreimage preimageStr)

/-- `ok_or_else(|| anyhow!(msg))?`. -/
def require? {α : Type} (o : Option α) (msg : String) : Except String α :=
  match o with
  | some a => .ok a
  | none => .error msg

theorem require?_ok_iff {α : Type} {o : Option α} {msg : String} {a : α} : require? o msg = .ok a ↔
    o = some a := by
  cases o <;> simp [require?]

/-- One output list: parse, check, build the record; the first error ends it. -/
def parseOutputs (now : DateTime) (invalid : String) (check : SecretWebcash → Except String Unit) :
    List String → Except String (List TokenRecord)
  | [] => .ok []
  | token :: tokens => do
    let s ← require? (fromStr token) (invalid ++ "invalid token format: " ++ token)
    let _ ← check s
    let rs ← parseOutputs now invalid check tokens
    return minedRecord now s :: rs

/-- A subsidy output must be worth the subsidy, if there is one. -/
def checkSubsidy (s : MiningState) (secret : SecretWebcash) : Except String Unit :=
  require (¬ (0 < s.subsidyAmountWats.val ∧ secret.amount.wats ≠ s.subsidyAmountWats))
    ("subsidy amount " ++ secret.amount.display ++ " does not match expected subsidy " ++
      (Amount.mk s.subsidyAmountWats).display)

/-- `records.iter().map(|r| r.amount_wats).sum()`, in a release build. -/
def totalWats (rs : List TokenRecord) : I64 := I64.wrap (rs.map fun r => r.amountWats.val).sum

/-- The first record of every hash, in the order of the hashes. -/
def deduplicate (rs : List TokenRecord) : List TokenRecord :=
  SortedMap.values (SortedMap.collectFirst WebcashRecord.publicHash rs)

/-- What a report past its checks brings. -/
structure Minted where
  records : List TokenRecord
  newCirculation : I64

/-- Steps 1 to 8: all checks, the records and the new circulation. -/
def validate (actor : MinerActor) (clock : Clock) (preimageStr : String) (s : MiningState) : Except String Minted := do
  let difficulty := s.difficultyTargetBits
  let preimage ← verifyAndParse actor preimageStr difficulty
  let _ ← require (preimage.difficulty = difficulty)
    ("preimage difficulty " ++ toString preimage.difficulty ++ " does not match server target " ++ toString difficulty)
  let now := nowSecs clock.checked
  let _ ← require (preimage.timestamp ≠ 0) "preimage timestamp must not be zero"
  let _ ← require (preimage.timestamp ≤ (now + 300) % 18446744073709551616)
    ("preimage timestamp " ++ toString preimage.timestamp ++ " is too far in the future (server time: " ++
      toString now ++ ")")
  let _ ← require (now - 300 ≤ preimage.timestamp)
    ("preimage timestamp " ++ toString preimage.timestamp ++ " is too far in the past (server time: " ++
      toString now ++ ")")
  let _ ← require (preimage.webcash ≠ []) "preimage must contain at least 1 webcash output"
  let webcash ← parseOutputs clock.created "invalid webcash in preimage: " (fun _ => .ok ()) preimage.webcash
  let _ ← require (totalWats webcash = s.miningAmountWats)
    ("webcash total " ++ (Amount.mk (totalWats webcash)).display ++ " does not match mining amount " ++
      (Amount.mk s.miningAmountWats).display)
  let subsidy ← parseOutputs clock.created "invalid subsidy in preimage: " (checkSubsidy s) preimage.subsidy
  let subsidies ← require? (s.subsidyAmountWats.checkedMul (I64.wrap preimage.subsidy.length))
    "subsidy multiplication overflow"
  let totalMined ← require? (s.miningAmountWats.checkedAdd subsidies) "mining amount overflow"
  let newCirculation ← require? (s.totalCirculationWats.checkedAdd totalMined) "circulation overflow"
  return ⟨deduplicate (webcash ++ subsidy), newCirculation⟩

/-- Step 9. `none` is the panic of a remainder by zero. -/
def nextState (actor : MinerActor) (clock : Clock) (newCirculation : I64) (s : MiningState) : Option MiningState :=
  let count := (s.miningReportsCount + 1) % 18446744073709551616
  let next : MiningState :=
    { s with
      miningReportsCount := count
      totalCirculationWats := newCirculation
      aggregateWork := s.aggregateWork + Float.scaleB 1.0 s.difficultyTargetBits }
  match actor.mode, actor.miningConfig.reportsPerEpoch with
  | .testnet, _ => some next
  | .production, 0 => none
  | .production, n + 1 =>
    if count % (n + 1) = 0 then
      some { next with
        difficultyTargetBits := adjustDifficulty s.difficultyTargetBits
          (secondsBetween clock.elapsed s.lastAdjustmentAt)
          actor.miningConfig.targetEpochSeconds (n + 1) (n + 1)
        epoch := (s.epoch + 1) % 4294967296
        lastAdjustmentAt := clock.adjusted }
    else some next

/-! ## The store -/

/-- Token HASHes, and the text under `mining:state`. -/
structure Db where
  tokens : Tokens
  mining : Option MiningState

/-- How the calls of one report fail. A pipeline that fails has carried out the commands of its
mask; a single command has been carried out or not. -/
structure StoreFaults where
  update : Option Bool
  claim : Option (List Bool)
  fill : Option (List Bool)

/-- Every call goes through. -/
def StoreFaults.none : StoreFaults := ⟨.none, .none, .none⟩

section

variable (cfg : StoreConfig TokenRecord) (faults : StoreFaults)

def updateMiningState (state : MiningState) (db : Db) : Except String Unit × Db :=
  match faults.update with
  | none => (.ok (), { db with mining := some state })
  | some false => (.error cfg.serviceError, db)
  | some true => (.error cfg.serviceError, { db with mining := some state })

/-- `HSETNX` for all records, then `HSET` for those it created (db/redis.rs:130). -/
def insertTokens (records : List TokenRecord) (t : Tokens) : Except String Unit × Tokens :=
  match records, faults.claim with
  | [], _ => (.ok (), t)
  | _, some mask => (.error cfg.serviceError, (Redis.claim cfg (Redis.created mask records) t).2)
  | _, none =>
    let (nx, t₁) := Redis.claim cfg records t
    match Redis.created nx records, faults.fill with
    | [], _ => (Redis.insertAnswer cfg nx records, t₁)
    | new, some mask => (.error cfg.serviceError, (Redis.fill cfg (Redis.created mask new) t₁).2)
    | new, none =>
      let (done, t₂) := Redis.fill cfg new t₁
      (if done then Redis.insertAnswer cfg nx records else .error cfg.serviceError, t₂)

/-- What the actor holds and what the store holds. -/
structure Miner where
  memory : MiningState
  db : Db

inductive Outcome
  | ok (difficultyTarget : Nat)
  | err (msg : String)
  | panicked
  deriving DecidableEq

/-- Steps 10 and 11, and the new state in memory. The state is persisted before the records are
there. -/
def commit (minted : Minted) (next : MiningState) (m : Miner) : Outcome × Miner :=
  match updateMiningState cfg faults next m.db with
  | (.error e, db₁) => (.err e, { m with db := db₁ })
  | (.ok (), db₁) =>
    match insertTokens cfg faults minted.records db₁.tokens with
    | (.error e, t) => (.err e, { m with db := { db₁ with tokens := t } })
    | (.ok (), t) => (.ok next.difficultyTargetBits, ⟨next, { db₁ with tokens := t }⟩)

def handleMiningReport (actor : MinerActor) (clock : Clock) (preimageStr : String) (m : Miner) : Outcome × Miner :=
  match validate actor clock preimageStr m.memory with
  | .error e => (.err e, m)
  | .ok minted =>
    match nextState actor clock minted.newCirculation m.memory with
    | none => (.panicked, m)
    | some next => commit cfg faults minted next m

/-- Take over the persisted state, or persist the initial one; `readable` says whether the mining
state could be read. An actor that fails here does not start. -/
def preStart (actor : MinerActor) (now : DateTime) (readable : Bool) (db : Db) : Except String Miner :=
  match readable, db.mining with
  | false, _ => .error cfg.serviceError
  | true, some state => .ok ⟨state, db⟩
  | true, none =>
    let initial := MiningState.initial now actor.miningConfig.testnetDifficulty
      actor.miningConfig.initialMiningAmountWats
      actor.miningConfig.initialSubsidyAmountWats
    match updateMiningState cfg faults initial db with
    | (.error e, _) => .error e
    | (.ok (), db₁) => .ok ⟨initial, db₁⟩

end

end Webycash.Legacy
