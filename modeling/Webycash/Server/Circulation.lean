import Webycash.Server.Conservation
import Webycash.Server.Counters
import Webycash.Storage.Worth
/-!
# The circulation that `get_stats` reports

`total_circulation_wats` is documented as the sum of all unspent token amounts
(storage/src/lib.rs:76, :96). Only `mining_report` ever writes it: `burn` and `issue` move value
and leave the counter alone, and a replace moves whatever the store holds.
`circulation_true_of_runs`: the counter is the sum in every state of a run whose requests balance,
`BalancedCall` says which do.

| here | there |
| --- | --- |
| `EconomyStats`, `LedgerStore.getStats` | storage/src/lib.rs:75, :229 |
| `stats`                                | server-core/src/lib.rs:375 |
-/

namespace Webycash

structure EconomyStats where
  totalCirculationWats : I64
  miningReportsCount : Nat
  difficultyTargetBits : Nat
  epoch : Nat
  miningAmountWats : I64
  subsidyAmountWats : I64
  deriving DecidableEq

/-- `EconomyStats::default()`. -/
def EconomyStats.default : EconomyStats := ⟨0, 0, 0, 0, 0, 0⟩

def MiningState.stats (s : MiningState) : EconomyStats :=
  ⟨s.totalCirculationWats, s.miningReportsCount, s.difficultyTargetBits, s.epoch, s.miningAmountWats,
    s.subsidyAmountWats⟩

def LedgerStore.getStats {δ ρ : Type} (store : LedgerStore δ ρ) (db : δ) : Except String EconomyStats :=
  (store.getMiningState db).map fun state => (state.map MiningState.stats).getD .default

/-- `GET /api/v1/stats`; a store that fails is reported as one without a state. -/
def stats {δ ρ : Type} (store : LedgerStore δ ρ) (db : δ) : Response :=
  let stats := (store.getStats db).toOption.getD .default
  .ok ("\x7b\"total_circulation\": \"" ++ watsToString stats.totalCirculationWats ++
    "\", \"mining_reports_count\": " ++ toString stats.miningReportsCount ++
    ", \"difficulty_target_bits\": " ++ toString stats.difficultyTargetBits ++
    ", \"epoch\": " ++ toString stats.epoch ++
    ", \"mining_amount\": \"" ++ watsToString stats.miningAmountWats ++
    "\", \"mining_subsidy_amount\": \"" ++ watsToString stats.subsidyAmountWats ++ "\"\x7d")

/-! ## The unspent total of a store -/

namespace Backend

section

variable {ρ : Type} (cfg : StoreConfig ρ)

/-- The stored amounts of the unspent records of the asset. -/
def unspentTotal : (b : Backend) → b.Db → Int
  | redis, db => FMap.total (Redis.assetWeight cfg) db.tokens
  | dynamo, db => FMap.total (Dynamo.assetWeight cfg) db.tokens
  | fdb, db => FMap.total (Fdb.assetWeight cfg) db.tokens

/-- What the distinct keys of a list add to it. -/
def unspentAt (ks : List String) : (b : Backend) → b.Db → Int
  | redis, db => FMap.weightOf (Redis.assetWeight cfg) db.tokens ks
  | dynamo, db => FMap.weightOf (Dynamo.assetWeight cfg) db.tokens ks
  | fdb, db => FMap.weightOf (Fdb.assetWeight cfg) db.tokens ks

/-- The amounts an accepted op leaves with its outputs; on Redis they are read from the slices. -/
def outputAmounts (ns : Namespace) (op : ReplaceOp ρ) : Backend → List Int
  | redis => (Redis.outputWorths cfg ns op).map Prod.snd
  | dynamo => (Dynamo.outputWorths cfg ns op).map Prod.snd
  | fdb => (worths cfg op.outputs).map Prod.snd

/-- The keys of a batch are distinct and free. -/
def TakesBatch (rs : List ρ) : (b : Backend) → b.Db → Prop
  | redis, db => (rs.map cfg.recordKey).Nodup ∧ ∀ r ∈ rs, ¬ Redis.Claimed db.tokens (cfg.recordKey r)
  | dynamo, db => NewKeys cfg rs (Dynamo.seals db.tokens)
  | fdb, db => NewKeys cfg rs (Fdb.seals db.tokens)

/-- The batch is refused before anything is written: all its keys are taken (Redis), its first 25
records repeat a key (DynamoDB), some key is taken or repeated (FoundationDB). -/
def DeclinesBatch (rs : List ρ) : (b : Backend) → b.Db → Prop
  | redis, db => rs ≠ [] ∧ ∀ r ∈ rs, Redis.Claimed db.tokens (cfg.recordKey r)
  | dynamo, _ => ¬ ((rs.take 25).map cfg.recordKey).Nodup
  | fdb, db => ¬ NewKeys cfg rs (Fdb.seals db.tokens)

/-- The op meets the checks of the backend. -/
def TakesOp (ns : Namespace) (op : ReplaceOp ρ) : (b : Backend) → b.Db → Prop
  | redis, db =>
    (Redis.seals db.tokens).Open (inputKeys cfg ns op) ∧ (Redis.seals db.tokens).Fresh (outputKeys cfg ns op) ∧
      Redis.SlicesFilled cfg op
  | dynamo, db => op.inputs.length + op.outputs.length + 1 ≤ 100 ∧
      (Dynamo.seals db.tokens).Accepts (inputKeys cfg ns op) (outputKeys cfg ns op)
  | fdb, db => (Fdb.seals db.tokens).Accepts (inputKeys cfg ns op) (Fdb.ownKeys cfg op)

/-- The op is refused before anything is written. On Redis that takes an input that is not open,
or no input and a taken first output. -/
def DeclinesOp (ns : Namespace) (op : ReplaceOp ρ) : (b : Backend) → b.Db → Prop
  | redis, db => ¬ (Redis.seals db.tokens).Open (inputKeys cfg ns op) ∨
      (op.inputs = [] ∧ ∃ k, (outputKeys cfg ns op).head? = some k ∧ k ∈ db.tokens)
  | dynamo, db => ¬ dynamo.TakesOp cfg ns op db
  | fdb, db => ¬ fdb.TakesOp cfg ns op db

end

variable {ρ : Type} {cfg : StoreConfig ρ} {b : Backend} {db : b.Db} {rs : List ρ} {now : DateTime} {ns : Namespace}
  {op : ReplaceOp ρ}

theorem worths_amounts (rs : List ρ) : (worths cfg rs).map Prod.snd = rs.map fun r =>
    (cfg.codec.amountWats r).val := by
  rw [worths, List.map_map]
  rfl

/-- **A batch that is taken** adds its amounts. -/
theorem insert_total (now : DateTime) (hjson : Fdb.JsonAmounts cfg) (hun : ∀ r ∈ rs, cfg.codec.spent r = false)
    (h : b.TakesBatch cfg rs db) :
    ((b.store cfg now .calm).insertTokens rs db).1 = .ok () ∧
      b.unspentTotal cfg ((b.store cfg now .calm).insertTokens rs db).2 =
        b.unspentTotal cfg db + (rs.map fun r => (cfg.codec.amountWats r).val).sum := by
  rw [← worths_amounts]
  cases b with
  | redis =>
    obtain ⟨hok, htransfer⟩ := Redis.insert_transfer h.1 h.2 hun
    exact ⟨hok, htransfer.total_made⟩
  | dynamo =>
    obtain ⟨hok, htransfer⟩ := Dynamo.insert_transfer h hun
    exact ⟨hok, htransfer.total_made⟩
  | fdb =>
    obtain ⟨hok, htransfer⟩ := Fdb.insert_transfer hjson h hun
    exact ⟨hok, htransfer.total_made⟩

/-- **A batch that is declined** leaves no trace. -/
theorem insert_declined (now : DateTime) (h : b.DeclinesBatch cfg rs db) :
    ((b.store cfg now .calm).insertTokens rs db).1 ≠ .ok () ∧
      b.unspentTotal cfg ((b.store cfg now .calm).insertTokens rs db).2 = b.unspentTotal cfg db := by
  cases b with
  | redis =>
    obtain ⟨hno, hsame⟩ := Redis.insert_declined h.1 h.2
    exact ⟨hno, congrArg (unspentTotal cfg redis) hsame⟩
  | dynamo =>
    obtain ⟨hno, hsame⟩ := Dynamo.insert_declined h
    exact ⟨hno, congrArg (unspentTotal cfg dynamo) hsame⟩
  | fdb =>
    have hno : (Fdb.insertTokens cfg rs db).1 ≠ .ok () := fun hok => h (Fdb.insertTokens_ok_iff.1 hok)
    exact ⟨hno, congrArg (FMap.total (Fdb.assetWeight cfg)) (Fdb.insertTokens_tokens.trans (if_neg hno))⟩

/-- **An op that is taken** moves what its inputs hold to its outputs. -/
theorem replace_total (now : DateTime) (hjson : Fdb.JsonAmounts cfg)
    (hun : ∀ o ∈ op.outputs, cfg.codec.spent o = false) (h : b.TakesOp cfg ns op db) :
    b.unspentTotal cfg ((b.store cfg now .calm).batchReplace ns [op] db).2 + b.unspentAt cfg (inputKeys cfg ns op) db =
      b.unspentTotal cfg db + (b.outputAmounts cfg ns op).sum := by
  cases b with
  | redis => exact (Redis.replace_transfer (Redis.batchReplace_single_ok_iff.2 h) hun).total
  | dynamo => exact (Dynamo.replace_transfer (Dynamo.execReplace_ok_iff.2 h) hun).total
  | fdb => exact (Fdb.replace_transfer hjson (Fdb.execReplace_ok_iff.2 h) hun).total

theorem replace_declined (h : b.DeclinesOp cfg ns op db) :
    b.unspentTotal cfg ((b.store cfg now .calm).batchReplace ns [op] db).2 = b.unspentTotal cfg db := by
  cases b with
  | redis => exact congrArg (unspentTotal cfg redis) (Redis.replace_declined h)
  | dynamo =>
    have hno : (Dynamo.execReplace cfg now ns op db).1 ≠ .ok () := fun hok => h (Dynamo.execReplace_ok_iff.1 hok)
    exact congrArg (unspentTotal cfg dynamo) (Dynamo.execReplace_of_not_ok hno)
  | fdb =>
    have hno : (Fdb.execReplace cfg now ns op db).1 ≠ .ok () := fun hok => h (Fdb.execReplace_ok_iff.1 hok)
    exact congrArg (unspentTotal cfg fdb) (Fdb.execReplace_of_not_ok hno)

/-- **A burn** takes what its key holds. -/
theorem burn_total (hash : String) (record : BurnRecord) :
    b.unspentTotal cfg ((b.store cfg now .calm).batchBurn ns [(hash, record)] db).2 +
      b.unspentAt cfg [cfg.tokenKey ns hash] db = b.unspentTotal cfg db := by
  cases b with
  | redis => exact (Redis.burn_transfer (hash, record)).total_emptied
  | dynamo => exact (Dynamo.burn_transfer (hash, record)).total_emptied
  | fdb => exact (Fdb.burn_transfer (hash, record)).total_emptied

end Backend

/-! ## What leaves the counter alone -/

section

variable {ρ : Type} {cfg : StoreConfig ρ} {now : DateTime} {ns : Namespace} {op : ReplaceOp ρ} {b : Backend}

theorem miningState_replace (service : Dynamo.Env) (db : b.Db) :
    b.miningState cfg ((b.store cfg now service).batchReplace ns [op] db).2 = b.miningState cfg db := by
  cases b with
  | redis =>
    exact miningState_congr (congrArg (fun m => Except.ok (Finmap.lookup _ m)) (Redis.replace_mining cfg now ns op db))
  | dynamo =>
    exact miningState_congr (congrArg (fun m => Except.ok (Finmap.lookup _ m)) (Dynamo.replace_mining cfg now ns op db))
  | fdb => exact miningState_congr (congrArg (fun m => Except.ok (Finmap.lookup _ m))
      (Fdb.batchReplace_mining cfg now ns [op] db))

theorem miningState_burn (service : Dynamo.Env) (ops : String × BurnRecord) (db : b.Db) :
    b.miningState cfg ((b.store cfg now service).batchBurn ns [ops] db).2 = b.miningState cfg db := by
  cases b with
  | redis =>
    exact miningState_congr (congrArg (fun m => Except.ok (Finmap.lookup _ m)) (Redis.burn_mining cfg now ns ops db))
  | dynamo =>
    exact miningState_congr (congrArg (fun m => Except.ok (Finmap.lookup _ m)) (Dynamo.burn_mining cfg now ns ops db))
  | fdb => exact miningState_congr (congrArg (fun m => Except.ok (Finmap.lookup _ m))
      (Fdb.batchBurn_mining cfg now ns [ops] db))

/-- The stats are the mining state's. -/
theorem getStats_eq (service : Dynamo.Env) (db : b.Db) :
    (b.store cfg now service).getStats db = .ok (b.miningState cfg db).stats := by
  have hget : ∀ state : Option MiningState, (state.map MiningState.stats).getD .default =
      (state.getD .default).stats := by
    intro state
    cases state <;> rfl
  cases b with
  | redis => rw [Backend.miningState, currentMiningState_ok rfl]; exact congrArg Except.ok (hget _)
  | dynamo => rw [Backend.miningState, currentMiningState_ok rfl]; exact congrArg Except.ok (hget _)
  | fdb => rw [Backend.miningState, currentMiningState_ok rfl]; exact congrArg Except.ok (hget _)

end

/-! ## Servers -/

section

variable {keys : KeyStrategy} {chrono : Codec} {json : HtlcJson} {serviceError : String}

theorem jsonAmounts_webcash : Fdb.JsonAmounts ((webcash chrono).storeConfig keys chrono serviceError) := by
  intro r
  simp [Asset.storeConfig, webcash, webcashCodec, Fdb.storedAmount, docI64, docOf, Json.asInt]

theorem jsonAmounts_voucher : Fdb.JsonAmounts ((voucher chrono).storeConfig keys chrono serviceError) := by
  intro r
  simp [Asset.storeConfig, voucher, voucherCodec, issuedDoc, Fdb.storedAmount, docI64, docOf, Json.asInt]

theorem jsonAmounts_rgbFungible : Fdb.JsonAmounts ((rgbFungible chrono json).storeConfig keys chrono serviceError) := by
  intro r
  cases hlock : r.htlcState <;>
    simp [Asset.storeConfig, rgbFungible, rgbFungibleCodec, issuedDoc, hlock, Fdb.storedAmount, docI64, docOf,
      Json.asInt]

theorem jsonAmounts_rgbCollectible :
    Fdb.JsonAmounts ((rgbCollectible chrono json).storeConfig keys chrono serviceError) := by
  intro r
  cases hlock : r.htlcState <;>
    simp [Asset.storeConfig, rgbCollectible, rgbCollectibleCodec, issuedDoc, hlock, Fdb.storedAmount, docI64, docOf]

end

/-- A server whose mining reports count what they insert, and whose issuances count nothing. -/
structure CountedServer (σ ρ : Type) (b : Backend) extends LedgerServer σ ρ b where
  mining : MiningConfig
  json_amounts : Fdb.JsonAmounts (asset.storeConfig keys chrono serviceError)
  reports : ∀ {c s body}, c.request = .miningReport body → (serve c s).2.db = s.db ∨
    ∃ rs, batch c s.nonces = some rs ∧
    ((((b.store (asset.storeConfig keys chrono serviceError) c.env.now c.service).insertTokens rs s.db).1 ≠ .ok () ∧
      (serve c s).2.db = ((b.store (asset.storeConfig keys chrono serviceError) c.env.now c.service).insertTokens rs
        s.db).2) ∨
    (((b.store (asset.storeConfig keys chrono serviceError) c.env.now c.service).insertTokens rs s.db).1 =
      .ok () ∧ ∃ bits,
      (serve c s).2.db = ((b.store (asset.storeConfig keys chrono serviceError) c.env.now c.service).updateMiningState
      (nextMiningState asset.codec mining bits rs (b.miningState (asset.storeConfig keys chrono serviceError) s.db))
      ((b.store (asset.storeConfig keys chrono serviceError) c.env.now c.service).insertTokens rs s.db).2).2))
  mints : ∀ {c nonces rs}, batch c nonces = some rs → c.request.Mints
  issues : ∀ {c s req}, c.request = .issue req → (serve c s).2.db = s.db ∨
    ∃ rs, batch c s.nonces = some rs ∧ (serve c s).2.db =
      ((b.store (asset.storeConfig keys chrono serviceError) c.env.now c.service).insertTokens rs s.db).2

section

variable {σ ρ : Type} {b : Backend}

/-- **What a mining report does to the store.** -/
theorem miningReport_counted {A : SplittableAsset σ ρ} {cfg : ServeConfig} {sc : StoreConfig ρ} {env : RequestEnv}
    {service : Dynamo.Env} {body : Except String MiningReportBody} {db : b.Db} :
    (miningReport A cfg (b.store sc env.now service) env body db).2 = db ∨
      ∃ rs, mintBatch A cfg env body = some rs ∧
      ((((b.store sc env.now service).insertTokens rs db).1 ≠ .ok () ∧
        (miningReport A cfg (b.store sc env.now service) env body db).2 =
          ((b.store sc env.now service).insertTokens rs db).2) ∨
      (((b.store sc env.now service).insertTokens rs db).1 = .ok () ∧ ∃ bits,
        (miningReport A cfg (b.store sc env.now service) env body db).2 =
          ((b.store sc env.now service).updateMiningState
            (nextMiningState A.codec cfg.mining bits rs (b.miningState sc db))
            ((b.store sc env.now service).insertTokens rs db).2).2)) := by
  unfold miningReport
  split
  · exact Or.inl rfl
  · rename_i bits rs hplan
    refine Or.inr ⟨rs, mintBatch_eq_some.2 ⟨bits, hplan⟩, ?_⟩
    split
    · rename_i e db₁ h
      exact Or.inl ⟨by rw [h]; nofun, by rw [h]⟩
    · rename_i db₁ h
      have hdb : db₁ = ((b.store sc env.now service).insertTokens rs db).2 := by rw [h]
      subst hdb
      refine Or.inr ⟨by rw [h], bits, ?_⟩
      rw [currentMiningState_eq, miningState_insert]

theorem commitIssue_counted {A : Asset σ ρ} {I : IssuedAsset σ} {check : List σ → Except String Unit}
    {cfg : ServeConfig}
    {store : LedgerStore b.Db ρ} {env : RequestEnv} {req : IssueRequest} {nonces : NonceCache} {db : b.Db} :
    (commitIssue store (planIssue A I check cfg env req nonces).1 db).2 = db ∨
      ∃ rs, issueBatch A I check cfg env req nonces = some rs ∧
        (commitIssue store (planIssue A I check cfg env req nonces).1 db).2 = (store.insertTokens rs db).2 := by
  unfold commitIssue
  split
  · exact Or.inl rfl
  · rename_i rs hplan
    refine Or.inr ⟨rs, toOption_eq_some.2 hplan, ?_⟩
    split <;> rename_i h <;> rw [h]

variable (keys : KeyStrategy) (chrono : Codec) (serviceError : String) (cfg : ServeConfig) (b)

def countedSplittable (A : SplittableAsset σ ρ) (hjson : Fdb.JsonAmounts (A.storeConfig keys chrono serviceError)) :
    CountedServer σ ρ b where
  toLedgerServer := splittableServer keys chrono serviceError cfg b A
  mining := cfg.mining
  json_amounts := hjson
  mints {c nonces rs} h := by
    obtain ⟨env, service, q⟩ := c
    cases q <;> trivial
  reports {c s body} h := by
    obtain ⟨env, service, q⟩ := c
    cases h
    exact miningReport_counted
  issues {c s req} h := by
    obtain ⟨env, service, q⟩ := c
    cases h
    exact Or.inl rfl

def countedIssued (A : SplittableAsset σ ρ) (I : IssuedAsset σ)
    (hjson : Fdb.JsonAmounts (A.storeConfig keys chrono serviceError)) : CountedServer σ ρ b where
  toLedgerServer := issuedServer keys chrono serviceError cfg b A I
  mining := cfg.mining
  json_amounts := hjson
  mints {c nonces rs} h := by
    obtain ⟨env, service, q⟩ := c
    cases q <;> trivial
  reports {c s body} h := by
    obtain ⟨env, service, q⟩ := c
    cases h
    exact miningReport_counted
  issues {c s req} h := by
    obtain ⟨env, service, q⟩ := c
    cases h
    exact commitIssue_counted

def countedCollectible (A : CollectibleAsset σ ρ) (I : IssuedAsset σ)
    (hI : ∀ s, A.namespaceEnvelope s = envelopeOf (I.contractId s) (I.issuer s))
    (hjson : Fdb.JsonAmounts (A.storeConfig keys chrono serviceError)) : CountedServer σ ρ b where
  toLedgerServer := collectibleServer keys chrono serviceError cfg b A I hI
  mining := cfg.mining
  json_amounts := hjson
  mints {c nonces rs} h := by
    obtain ⟨env, service, q⟩ := c
    cases q <;> trivial
  reports {c s body} h := by
    obtain ⟨env, service, q⟩ := c
    cases h
    exact Or.inl rfl
  issues {c s req} h := by
    obtain ⟨env, service, q⟩ := c
    cases h
    exact commitIssue_counted

variable (json : HtlcJson)

def webcashLedger : CountedServer SecretWebcash WebcashRecord b :=
  countedSplittable b keys chrono serviceError cfg (webcash chrono) jsonAmounts_webcash

def voucherLedger : CountedServer SecretIssued VoucherRecord b :=
  countedIssued b keys chrono serviceError cfg (voucher chrono) issuedSecrets jsonAmounts_voucher

def rgbFungibleLedger : CountedServer SecretIssued RgbFungibleRecord b :=
  countedIssued b keys chrono serviceError cfg (rgbFungible chrono json) issuedSecrets jsonAmounts_rgbFungible

def rgbCollectibleLedger : CountedServer SecretCollectible RgbCollectibleRecord b :=
  countedCollectible b keys chrono serviceError cfg (rgbCollectible chrono json) collectibleSecrets
    (rgbCollectible_enveloped chrono json)
    jsonAmounts_rgbCollectible

end

/-! ## Runs -/

namespace CountedServer

variable {σ ρ : Type} {b : Backend}

/-- What a batch is worth. -/
def batchWorth (S : CountedServer σ ρ b) (rs : List ρ) : Int :=
  (rs.map fun r => (S.asset.codec.amountWats r).val).sum

/-- The circulation a store reports. -/
def circulation (S : CountedServer σ ρ b) (db : b.Db) : Int :=
  (b.miningState S.storeConfig db).totalCirculationWats.val

/-- The requests that change the counter by what they change the total. A replace is declined, or
its outputs get what its inputs held; a burnt key is worth nothing; the batch of a report is
declined, or taken while the counter has room; the batch of an issuance is declined, or taken and
worth nothing. -/
def BalancedCall (S : CountedServer σ ρ b) (s : ServerState b.Db) (c : Call) : Prop :=
  match c.request with
  | .healthCheck _ _ => True
  | .replace req => ∀ p ∈ (S.plan c req s.db).toOption.join, b.DeclinesOp S.storeConfig p.1 p.2 s.db ∨
      (b.TakesOp S.storeConfig p.1 p.2 s.db ∧
        b.unspentAt S.storeConfig (inputKeys S.storeConfig p.1 p.2) s.db = (b.outputAmounts S.storeConfig p.1 p.2).sum)
  | .burn body => ∀ p ∈ (planBurn S.asset S.burnAmount c.env body).toOption,
      b.unspentAt S.storeConfig [S.storeConfig.tokenKey p.1 p.2.1] s.db = 0
  | .miningReport _ => ∀ rs ∈ S.batch c s.nonces, b.DeclinesBatch S.storeConfig rs s.db ∨
      (b.TakesBatch S.storeConfig rs s.db ∧ I64.InRange (S.batchWorth rs) ∧
        I64.InRange (S.circulation s.db + S.batchWorth rs))
  | .issue _ => ∀ rs ∈ S.batch c s.nonces, b.DeclinesBatch S.storeConfig rs s.db ∨
      (b.TakesBatch S.storeConfig rs s.db ∧ S.batchWorth rs = 0)

/-- A balanced request on a service that does what it is asked. -/
def BalancedStep (S : CountedServer σ ρ b) (s : ServerState b.Db) (c : Call) (s' : ServerState b.Db) : Prop :=
  s' = (S.serve c s).2 ∧ c.service = .calm ∧ S.BalancedCall s c

variable {S : CountedServer σ ρ b} {s s' : ServerState b.Db} {c : Call}

/-- The counter is the unspent total of the asset. -/
def Truthful (S : CountedServer σ ρ b) (db : b.Db) : Prop := S.circulation db = b.unspentTotal S.storeConfig db

theorem circulation_insert {now : DateTime} {service : Dynamo.Env} {rs : List ρ} {db : b.Db} :
    S.circulation ((b.store S.storeConfig now service).insertTokens rs db).2 = S.circulation db := by
  rw [circulation, miningState_insert]
  rfl

theorem unspentTotal_update {now : DateTime} {service : Dynamo.Env} {state : MiningState} {db : b.Db} :
    b.unspentTotal S.storeConfig ((b.store S.storeConfig now service).updateMiningState state db).2 =
      b.unspentTotal S.storeConfig db := by
  cases b <;> rfl

/-- The counter after a report whose worth fits. -/
theorem circulation_report {now : DateTime} {service : Dynamo.Env} {bits : Nat} {rs : List ρ} {db db' : b.Db}
    (hworth : I64.InRange (S.batchWorth rs)) (hsum : I64.InRange (S.circulation db + S.batchWorth rs)) :
    S.circulation ((b.store S.storeConfig now service).updateMiningState
      (nextMiningState S.asset.codec S.mining bits rs (b.miningState S.storeConfig db)) db').2 =
      S.circulation db + S.batchWorth rs := by
  have hval : (I64.wrap (S.batchWorth rs)).val = S.batchWorth rs := I64.val_wrap hworth
  have hadd := I64.val_saturatingAdd (a := (b.miningState S.storeConfig db).totalCirculationWats)
    (b := I64.wrap (S.batchWorth rs)) (by rw [hval]; exact hsum)
  rw [hval] at hadd
  rw [circulation, miningState_update]
  exact hadd

theorem truthful_report {body : Except String MiningReportBody} (hcalm : c.service = .calm)
    (hreq : c.request = .miningReport body) (hbal : S.BalancedCall s c) (h : S.Truthful s.db) :
    S.Truthful (S.serve c s).2.db := by
  simp only [BalancedCall, hreq] at hbal
  rcases S.reports hreq with hsame | ⟨rs, hbatch, hrest⟩
  · rwa [hsame]
  have hun := LedgerServer.batch_unspent hbatch
  rw [hcalm] at hrest
  rcases hbal rs hbatch with hdecl | ⟨htake, hworth, hsum⟩
  · obtain ⟨hno, htotal⟩ := Backend.insert_declined c.env.now hdecl
    rcases hrest with ⟨-, hdb⟩ | ⟨hok, -⟩
    · rw [Truthful, hdb]
      exact circulation_insert.trans (h.trans htotal.symm)
    · exact absurd hok hno
  · obtain ⟨hok, htotal⟩ := Backend.insert_total c.env.now S.json_amounts hun htake
    rcases hrest with ⟨hno, -⟩ | ⟨-, bits, hdb⟩
    · exact absurd hok hno
    · rw [Truthful, hdb]
      refine (circulation_report hworth hsum).trans ?_
      rw [h]
      exact (unspentTotal_update.trans htotal).symm

theorem truthful_issue {req : IssueRequest} (hcalm : c.service = .calm) (hreq : c.request = .issue req)
    (hbal : S.BalancedCall s c) (h : S.Truthful s.db) : S.Truthful (S.serve c s).2.db := by
  simp only [BalancedCall, hreq] at hbal
  rcases S.issues hreq with hsame | ⟨rs, hbatch, hdb⟩
  · rwa [hsame]
  have hun := LedgerServer.batch_unspent hbatch
  rw [hcalm] at hdb
  rw [Truthful, hdb]
  refine circulation_insert.trans (h.trans ?_)
  rcases hbal rs hbatch with hdecl | ⟨htake, hworth⟩
  · exact (Backend.insert_declined c.env.now hdecl).2.symm
  · have htotal : b.unspentTotal S.storeConfig ((b.store S.storeConfig c.env.now .calm).insertTokens rs s.db).2 =
        b.unspentTotal S.storeConfig s.db + S.batchWorth rs := (Backend.insert_total _ S.json_amounts hun htake).2
    rw [hworth, Int.add_zero] at htotal
    exact htotal.symm

/-- Everything a request that mints nothing can do to the store. -/
theorem served_unminted (hreq : ¬ c.request.Mints) : (S.serve c s).2.db = s.db ∨
    (∃ req ns op, c.request = .replace req ∧ S.plan c req s.db = .ok (some (ns, op)) ∧
      (S.serve c s).2.db = ((b.store S.storeConfig c.env.now c.service).batchReplace ns [op] s.db).2) ∨
    (∃ body ns hash record, c.request = .burn body ∧ planBurn S.asset S.burnAmount c.env body =
      .ok (ns, hash, record) ∧
      (S.serve c s).2.db = ((b.store S.storeConfig c.env.now c.service).batchBurn ns [(hash, record)] s.db).2) := by
  have heff := S.effect c s
  generalize hq : c.request = q at heff
  generalize (S.serve c s).2.db = db' at heff ⊢
  cases heff with
  | idle => exact Or.inl rfl
  | exchange hplan => exact Or.inr (Or.inl ⟨_, _, _, rfl, hplan, rfl⟩)
  | burn hplan => exact Or.inr (Or.inr ⟨_, _, _, _, rfl, hplan, rfl⟩)
  | insert hbatch => exact absurd (S.mints hbatch) hreq
  | mint state hbatch => exact absurd (S.mints hbatch) hreq

theorem truthful_unminted (hcalm : c.service = .calm) (hreq : ¬ c.request.Mints) (hbal : S.BalancedCall s c)
    (h : S.Truthful s.db) : S.Truthful (S.serve c s).2.db := by
  rcases served_unminted hreq with hsame | ⟨req, ns, op, hq, hplan, hdb⟩ |
    ⟨body, ns, hash, record, hq, hplan, hdb⟩
  · rwa [hsame]
  · have hmem : (ns, op) ∈ (S.plan c req s.db).toOption.join := by rw [hplan]; rfl
    have htotal : b.unspentTotal S.storeConfig ((b.store S.storeConfig c.env.now .calm).batchReplace ns [op] s.db).2 =
        b.unspentTotal S.storeConfig s.db := by
      simp only [BalancedCall, hq] at hbal
      rcases hbal _ hmem with hdecl | ⟨htake, hfair⟩
      · exact Backend.replace_declined hdecl
      · obtain ⟨ins, outs, recs, hp⟩ := S.planned hplan
        have hmoved := Backend.replace_total c.env.now S.json_amounts
          (fun o ho => (hp.outputs_spec o ho).1) htake
        have hfair' : b.unspentAt S.storeConfig (inputKeys S.storeConfig ns op) s.db =
            (b.outputAmounts S.storeConfig ns op).sum :=
          hfair
        exact add_right_cancel (hmoved.trans (congrArg (_ + ·) hfair'.symm))
    have hcount : S.circulation (S.serve c s).2.db = S.circulation s.db := by
      rw [hdb, circulation, miningState_replace, circulation]
    rw [Truthful, hcount, hdb, hcalm]
    exact h.trans htotal.symm
  · have hmem : (ns, hash, record) ∈ (planBurn S.asset S.burnAmount c.env body).toOption := by rw [hplan]; rfl
    have htotal : b.unspentTotal S.storeConfig
      ((b.store S.storeConfig c.env.now .calm).batchBurn ns [(hash, record)] s.db).2 +
        b.unspentAt S.storeConfig [S.storeConfig.tokenKey ns hash] s.db = b.unspentTotal S.storeConfig s.db :=
      Backend.burn_total hash record
    simp only [BalancedCall, hq] at hbal
    rw [hbal _ hmem, Int.add_zero] at htotal
    have hcount : S.circulation (S.serve c s).2.db = S.circulation s.db := by
      rw [hdb, circulation, miningState_burn, circulation]
    rw [Truthful, hcount, hdb, hcalm]
    exact h.trans htotal.symm

/-- **A balanced request keeps the counter true.** -/
theorem BalancedStep.truthful (hstep : S.BalancedStep s c s') (h : S.Truthful s.db) : S.Truthful s'.db := by
  obtain ⟨rfl, hcalm, hbal⟩ := hstep
  by_cases hmints : c.request.Mints
  · cases hreq : c.request with
    | miningReport body => exact truthful_report hcalm hreq hbal h
    | issue req => exact truthful_issue hcalm hreq hbal h
    | healthCheck order tokens => rw [hreq] at hmints; exact absurd hmints id
    | replace req => rw [hreq] at hmints; exact absurd hmints id
    | burn body => rw [hreq] at hmints; exact absurd hmints id
  · exact truthful_unminted hcalm hmints hbal h

theorem truthful_empty : S.Truthful b.empty := by
  cases b <;> rfl

/-- **Runs of balanced requests.** -/
theorem truthful_of_run {nonces : NonceCache} {calls : List Call}
    (h : Run S.BalancedStep ⟨nonces, b.empty⟩ calls s) :
    S.Truthful s.db :=
  Run.invariant (I := fun t => S.Truthful t.db) (fun _ _ _ hs ht => hs.truthful ht) h truthful_empty

end CountedServer

/-- **Reported circulation.** For every flavour and backend: in every state that a run of balanced
requests from an empty store reaches, `get_stats` reports the stored amounts of the unspent records
of the asset. -/
theorem circulation_true_of_runs {σ ρ : Type} {b : Backend} (S : CountedServer σ ρ b) (nonces : NonceCache)
    (calls : List Call)
    (s : ServerState b.Db) (h : Run S.BalancedStep ⟨nonces, b.empty⟩ calls s) (now : DateTime)
    (service : Dynamo.Env) :
    ∃ stats, (b.store S.storeConfig now service).getStats s.db = .ok stats ∧
      stats.totalCirculationWats.val = b.unspentTotal S.storeConfig s.db :=
  ⟨_, getStats_eq service s.db, CountedServer.truthful_of_run h⟩

/-! ## A mined token, split or burnt -/

namespace Sample

def countedWebcash : CountedServer SecretWebcash WebcashRecord .redis :=
  webcashLedger .redis .webcashLegacyKeys .atEpoch "service error" (serveConfig (token "1" 'a'))

def splitMined : Call := ⟨env, .calm, .replace honestSplit⟩

def minedState : ServerState Backend.redis.Db := (countedWebcash.serve mineA ⟨.default, Backend.redis.empty⟩).2

def reportedWats (s : ServerState Backend.redis.Db) : Except String Int :=
  ((Redis.store countedWebcash.storeConfig ⟨0⟩).getStats s.db).map fun stats => stats.totalCirculationWats.val

def unspent (s : ServerState Backend.redis.Db) : Int :=
  FMap.total (Redis.assetWeight countedWebcash.storeConfig) s.db.tokens

end Sample

open Sample

/-- A token of 1 is mined and split honestly: 1 is reported, 1 is there. -/
theorem split_circulation :
    Run countedWebcash.BalancedStep ⟨.default, Backend.redis.empty⟩ [mineA, splitMined]
      (countedWebcash.serve splitMined minedState).2 ∧
    ∃ stats, (Backend.redis.store countedWebcash.storeConfig ⟨0⟩ .calm).getStats
      (countedWebcash.serve splitMined minedState).2.db =
      .ok stats ∧ stats.totalCirculationWats.val =
        Backend.redis.unspentTotal countedWebcash.storeConfig (countedWebcash.serve splitMined minedState).2.db := by
  have hmine : ∀ rs ∈ countedWebcash.batch mineA .default, ((rs.map countedWebcash.storeConfig.recordKey).Nodup ∧
      ∀ r ∈ rs, ¬ Redis.Claimed Redis.Db.empty.tokens (countedWebcash.storeConfig.recordKey r)) ∧
      I64.InRange (countedWebcash.batchWorth rs) ∧
      I64.InRange (countedWebcash.circulation Backend.redis.empty + countedWebcash.batchWorth rs) := by
    decide +kernel
  have hsplit : ∀ p ∈ (countedWebcash.plan splitMined honestSplit minedState.db).toOption.join,
      ((Redis.seals minedState.db.tokens).Open (inputKeys countedWebcash.storeConfig p.1 p.2) ∧
        (Redis.seals minedState.db.tokens).Fresh (outputKeys countedWebcash.storeConfig p.1 p.2) ∧
        Redis.SlicesFilled countedWebcash.storeConfig p.2) ∧
      FMap.weightOf (Redis.assetWeight countedWebcash.storeConfig) minedState.db.tokens
        (inputKeys countedWebcash.storeConfig p.1 p.2) =
          ((Redis.outputWorths countedWebcash.storeConfig p.1 p.2).map Prod.snd).sum := by
    decide +kernel
  have hrun : Run countedWebcash.BalancedStep ⟨.default, Backend.redis.empty⟩ [mineA, splitMined]
      (countedWebcash.serve splitMined minedState).2 := by
    refine .cons ⟨rfl, rfl, ?_⟩ (.cons ⟨rfl, rfl, ?_⟩ (.nil _))
    · exact fun rs hrs => Or.inr (hmine rs hrs)
    · exact fun p hp => Or.inr (hsplit p hp)
  exact ⟨hrun, circulation_true_of_runs countedWebcash _ _ _ hrun ⟨0⟩ .calm⟩

/-- The token is mined and burnt: 1 is reported, nothing is there. -/
theorem burn_uncounted :
    (countedWebcash.serve burnA minedState).1 = success ∧ reportedWats minedState = .ok 100000000 ∧
      unspent minedState = 100000000 ∧
    reportedWats (countedWebcash.serve burnA minedState).2 = .ok 100000000 ∧
      unspent (countedWebcash.serve burnA minedState).2 = 0 := by
  decide +kernel

end Webycash
