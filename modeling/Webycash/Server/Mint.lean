import Webycash.Lib.Run
import Webycash.Server.Route
import Webycash.Storage.Insert
import Webycash.Storage.RedisAmounts
/-!
# Minting: `mining_report` and `issue`

The handlers do not look at what the store holds, nor at what the configuration allows: that a
key is new is left to `insert_tokens`, and `mining_amount_wats`, `subsidy_amount_wats` and
`max_issuance` are never compared with the tokens of a report. `inserts_keep_iff` says when
insertion keeps what is there, and that runs of such mints reopen no spent record;
`mint_bounded_iff` says which runs of accepted reports stay within the configuration.
-/

namespace Webycash

/-! ## Keeping what is there -/

namespace Backend

section

variable {ρ : Type} (cfg : StoreConfig ρ) (service : Dynamo.Env) (rs : List ρ)

/-- The contract of `insert_tokens` (storage/src/lib.rs:185): a batch with a taken or repeated key
is refused, and existing records stay as they are. -/
def NoOverwrite : (b : Backend) → b.Db → Prop
  | redis, db => Webycash.NoOverwrite cfg rs ((Redis.insertTokens cfg rs db).1 = .ok ()) db.tokens
      (Redis.insertTokens cfg rs db).2.tokens
  | dynamo, db => Webycash.NoOverwrite cfg rs ((Dynamo.insertTokens cfg service rs db).1 = .ok ()) db.tokens
      (Dynamo.insertTokens cfg service rs db).2.tokens
  | fdb, db => Webycash.NoOverwrite cfg rs ((Fdb.insertTokens cfg rs db).1 = .ok ()) db.tokens
      (Fdb.insertTokens cfg rs db).2.tokens

/-- Redis: every key of the batch that exists has an `amount_wats`. DynamoDB: the keys are new and
distinct, or a chunk is refused and the puts acknowledged before rewrote nothing. FoundationDB
asks for nothing. -/
def KeepsRecords : (b : Backend) → b.Db → Prop
  | redis, db => ∀ r ∈ rs, cfg.recordKey r ∈ db.tokens → Redis.Claimed db.tokens (cfg.recordKey r)
  | dynamo, db => NewKeys cfg rs (Dynamo.seals db.tokens) ∨
      (¬ Dynamo.AllCarriedOut cfg service rs ∧ Dynamo.HarmlessAcks cfg service rs db.tokens)
  | fdb, _ => True

end

variable {ρ : Type} {cfg : StoreConfig ρ} {service : Dynamo.Env} {rs : List ρ} {b : Backend} {db : b.Db}

theorem noOverwrite_iff : b.NoOverwrite cfg service rs db ↔ b.KeepsRecords cfg service rs db := by
  cases b with
  | redis => exact Redis.noOverwrite_iff
  | dynamo => exact Dynamo.noOverwrite_iff
  | fdb => exact iff_of_true (Fdb.noOverwrite rs db) trivial

/-- An accepted put over a taken key. -/
theorem not_noOverwrite_dynamo {r : ρ} {db : Dynamo.Db} (h : (Dynamo.insertTokens cfg service [r] db).1 = .ok ())
    (hk : (db.tokens.lookup (cfg.recordKey r)).isSome = true) : ¬ dynamo.NoOverwrite cfg service [r] db := fun hno =>
  (hno.1 h).2 r (List.mem_singleton_self r) (Finmap.lookup_isSome.1 hk)

theorem final_of_lookup {ν : Type} {t t' : FMap String ν} {f : ν → Bool}
    (h : ∀ k ∈ t, t'.lookup k = t.lookup k) :
    Seals.Final (fun k => (t.lookup k).map f) fun k => (t'.lookup k).map f := by
  intro k hk
  dsimp only at hk ⊢
  have hmem : k ∈ t := by
    by_contra hn
    rw [Finmap.lookup_eq_none.2 hn] at hk
    cases hk
  rw [h k hmem]
  exact hk

/-- Keeping every record keeps the spent ones spent. -/
theorem final_insert (now : DateTime) (h : b.KeepsRecords cfg service rs db) :
    (b.seals db).Final (b.seals ((b.store cfg now service).insertTokens rs db).2) := by
  have hkeep := noOverwrite_iff.2 h
  cases b with
  | redis => exact final_of_lookup hkeep.2
  | dynamo => exact final_of_lookup hkeep.2
  | fdb => exact final_of_lookup hkeep.2

theorem seals_updateMiningState (now : DateTime) (state : MiningState) :
    b.seals ((b.store cfg now service).updateMiningState state db).2 = b.seals db := by
  cases b <;> rfl

end Backend

namespace LedgerServer

variable {σ ρ : Type} {b : Backend}

/-- A mint whose batch, if there is one, keeps what is in the store. -/
def MintStep (S : LedgerServer σ ρ b) (s : ServerState b.Db) (c : Call) (s' : ServerState b.Db) : Prop :=
  s' = (S.serve c s).2 ∧ c.request.Mints ∧
    ∀ rs, S.batch c s.nonces = some rs → b.KeepsRecords S.storeConfig c.service rs s.db

variable {S : LedgerServer σ ρ b} {s s' : ServerState b.Db} {c : Call}

/-- **One mint reopens nothing.** -/
theorem MintStep.final (h : S.MintStep s c s') : (b.seals s.db).Final (b.seals s'.db) := by
  obtain ⟨rfl, hmints, hkeep⟩ := h
  have heff := S.effect c s
  generalize c.request = q at heff hmints
  generalize (S.serve c s).2.db = db' at heff ⊢
  cases heff with
  | idle => exact Seals.Final.refl _
  | exchange => exact absurd hmints id
  | burn => exact absurd hmints id
  | insert hbatch => exact Backend.final_insert _ (hkeep _ hbatch)
  | mint state hbatch =>
    rw [Backend.seals_updateMiningState]
    exact Backend.final_insert _ (hkeep _ hbatch)

/-- **Runs of mints reopen nothing.** -/
theorem final_of_mints {calls : List Call} (h : Run S.MintStep s calls s') : (b.seals s.db).Final (b.seals s'.db) :=
  Run.invariant (I := fun t => (b.seals s.db).Final (b.seals t.db)) (fun _ _ _ hs ht => ht.trans hs.final) h (.refl _)

end LedgerServer

/-- **Insertion never overwrites, exactly when.** For every backend, store state, batch and
behaviour of the service; and for every server, no sequence of mining reports and issuances
whose batches meet the condition turns a spent record into an unspent one. -/
theorem inserts_keep_iff (b : Backend) :
    (∀ (ρ : Type) (cfg : StoreConfig ρ) (service : Dynamo.Env) (rs : List ρ) (db : b.Db),
      b.NoOverwrite cfg service rs db ↔ b.KeepsRecords cfg service rs db) ∧
    (∀ (σ ρ : Type) (S : LedgerServer σ ρ b) (s s' : ServerState b.Db) (calls : List Call),
      Run S.MintStep s calls s' → (b.seals s.db).Final (b.seals s'.db)) :=
  ⟨fun _ _ _ _ _ => Backend.noOverwrite_iff, fun _ _ _ _ _ _ h => LedgerServer.final_of_mints h⟩

/-! ## A report that is sent twice -/

namespace Sample

def webcashServer (b : Backend) : LedgerServer SecretWebcash WebcashRecord b :=
  splittableServer .webcashLegacyKeys .atEpoch "service error" (serveConfig (token "1" 'a')) b (webcash .atEpoch)

def mineA : Call := ⟨env, .calm, .miningReport (.ok ⟨preimageOf (token "1" 'a'), some true⟩)⟩

def burnA : Call := ⟨env, .calm, .burn (.ok ⟨token "1" 'a', some true⟩)⟩

def spendA : Call := ⟨env, .calm, .replace (swap [token "1" 'a'] [token "1" 'b'])⟩

/-- The state after the token was mined and replaced. -/
def afterSpend (b : Backend) : ServerState b.Db :=
  ((webcashServer b).serve spendA ((webcashServer b).serve mineA ⟨.default, b.empty⟩).2).2

def keyA : String := "token:" ++ sha256HexOfAscii (hex 'a')

/-- The record of the report. -/
def recordA : WebcashRecord := ⟨sha256HexOfAscii (hex 'a'), I64.wrap 100000000, false, ⟨0⟩, none, .mined⟩

end Sample

open Sample

/-- DynamoDB accepts the old report again, over the spent record: the token is spendable once
more. -/
theorem replay_unspends :
    Backend.dynamo.seals (afterSpend .dynamo).db keyA = some true ∧
    ((webcashServer .dynamo).serve mineA (afterSpend .dynamo)).1 = success ∧
    Backend.dynamo.seals ((webcashServer .dynamo).serve mineA (afterSpend .dynamo)).2.db keyA = some false ∧
    ¬ Backend.dynamo.NoOverwrite (webcashServer .dynamo).storeConfig .calm [recordA] (afterSpend .dynamo).db := by
  have hrun : Dynamo.seals (afterSpend .dynamo).db.tokens keyA = some true ∧
      ((webcashServer .dynamo).serve mineA (afterSpend .dynamo)).1 = success ∧
      Dynamo.seals ((webcashServer .dynamo).serve mineA (afterSpend .dynamo)).2.db.tokens keyA = some false := by
    decide +kernel
  have hins : (Dynamo.insertTokens (webcashServer .dynamo).storeConfig .calm [recordA]
        (afterSpend .dynamo).db).1 = .ok () ∧
      ((afterSpend .dynamo).db.tokens.lookup ((webcashServer .dynamo).storeConfig.recordKey recordA)).isSome =
        true := by
    decide +kernel
  exact And.intro hrun.1 (And.intro hrun.2.1 (And.intro hrun.2.2 (Backend.not_noOverwrite_dynamo hins.1 hins.2)))

/-- FoundationDB refuses it, and the token stays spent. -/
theorem replay_refused :
    Run (webcashServer .fdb).MintStep (afterSpend .fdb) [mineA]
      ((webcashServer .fdb).serve mineA (afterSpend .fdb)).2 ∧
    Fdb.seals (afterSpend .fdb).db.tokens keyA = some true ∧
    Fdb.seals ((webcashServer .fdb).serve mineA (afterSpend .fdb)).2.db.tokens keyA = some true := by
  have hspent : Fdb.seals (afterSpend .fdb).db.tokens keyA = some true := by decide +kernel
  have hrun : Run (webcashServer .fdb).MintStep (afterSpend .fdb) [mineA]
      ((webcashServer .fdb).serve mineA (afterSpend .fdb)).2 := .cons ⟨rfl, trivial, fun _ _ => trivial⟩ (.nil _)
  exact And.intro hrun (And.intro hspent ((inserts_keep_iff .fdb).2 _ _ (webcashServer .fdb) _ _ _ hrun keyA hspent))

/-! ## What a report mints -/

/-- A mining report as it reaches the server. -/
structure Report where
  env : RequestEnv
  service : Dynamo.Env
  body : Except String MiningReportBody

/-- The stored amounts of all records, spent or not. -/
def Redis.ledgerTotal (t : Redis.Tokens) : Int := FMap.total (fun _ => Redis.storedAmount) t

section

variable {σ ρ : Type} (A : SplittableAsset σ ρ) (cfg : ServeConfig)

/-- What a list of tokens claims to be worth. -/
def tokensWorth (tokens : List String) : Int :=
  (tokens.map fun t => match A.parseSecret t with
    | .ok s => (A.amount s).wats.val
    | .error _ => 0).sum

/-- What the two token lists of a report's preimage claim to be worth together. -/
def reportWorth (c : Report) : Int :=
  match c.body with
  | .error _ => 0
  | .ok report =>
    match cfg.decodePreimage report.preimage with
    | .error _ => 0
    | .ok preimage => tokensWorth A (preimage.webcash ++ preimage.subsidy)

/-- The amounts of the records a report hands to `insert_tokens`. -/
def mintedBy (c : Report) : Int :=
  match mintBatch A cfg c.env c.body with
  | none => 0
  | some rs => (rs.map fun r => (A.codec.amountWats r).val).sum

/-- What the configuration grants one report. -/
def reward : Int := cfg.mining.miningAmountWats.val + cfg.mining.subsidyAmountWats.val

/-- The report is answered with success. -/
def AcceptedReport (keys : KeyStrategy) (chrono : Codec) (serviceError : String) (b : Backend) (db : b.Db) (c : Report)
    (db' : b.Db) : Prop :=
  ∃ answer, miningReport A cfg (b.store (A.storeConfig keys chrono serviceError) c.env.now c.service)
    c.env c.body db = (.ok answer, db')

/-- Every report mints its reward, and the reports up to any point stay below the cap. -/
def MintBounded (reports : List Report) : Prop :=
  (∀ c ∈ reports, mintedBy A cfg c = reward cfg) ∧
    ∀ cap, cfg.mining.maxIssuance = some cap → ∀ first, first <+: reports →
      (first.map (mintedBy A cfg)).sum ≤ cap

/-- Every report asks for its reward, and the cap has room for all of them. -/
def WithinBudget (reports : List Report) : Prop :=
  (∀ c ∈ reports, reportWorth A cfg c = reward cfg) ∧
    ∀ cap : Nat, cfg.mining.maxIssuance = some cap → reports.length * reward cfg ≤ cap

variable {A cfg}

theorem tokensWorth_parsed {tokens : List String} {ss : List σ}
    (h : List.Forall₂ (fun t s => A.parseSecret t = .ok s) tokens ss) :
    tokensWorth A tokens = (ss.map fun s => (A.amount s).wats.val).sum := by
  induction h with
  | nil => rfl
  | @cons t s ts ss hp _ ih =>
    rw [tokensWorth, List.map_cons, List.sum_cons, hp, List.map_cons, List.sum_cons, ← ih]
    rfl

/-- Nothing but the tokens decides what is minted. -/
theorem mintedBy_eq_worth {c : Report} {rs : List ρ} (h : mintBatch A cfg c.env c.body = some rs) :
    mintedBy A cfg c = reportWorth A cfg c := by
  obtain ⟨bits, hplan⟩ := mintBatch_eq_some.1 h
  obtain ⟨report, preimage, ss, hbody, hpre, rfl, hparse⟩ := planMint_ok hplan
  rw [mintedBy, h, reportWorth, hbody]
  simp only [hpre, tokensWorth_parsed hparse, List.map_map, Function.comp_def, A.record_amount]

variable {keys : KeyStrategy} {chrono : Codec} {serviceError : String} {b : Backend} {db db' : b.Db}

/-- An accepted report had its batch inserted. -/
theorem AcceptedReport.inserted {c : Report} (h : AcceptedReport A cfg keys chrono serviceError b db c db') :
    ∃ rs db₁ state, mintBatch A cfg c.env c.body = some rs ∧
      (b.store (A.storeConfig keys chrono serviceError) c.env.now c.service).insertTokens rs db = (.ok (), db₁) ∧
      db' = ((b.store (A.storeConfig keys chrono serviceError) c.env.now c.service).updateMiningState
        state db₁).2 := by
  obtain ⟨answer, h⟩ := h
  unfold miningReport at h
  split at h
  · cases h
  · rename_i bits rs hplan
    split at h
    · cases h
    · rename_i db₁ hins
      exact ⟨rs, db₁, _, mintBatch_eq_some.2 ⟨bits, hplan⟩, hins, (congrArg Prod.snd h).symm⟩

/-- In a run of accepted reports each mints what it asks for. -/
theorem mintedBy_of_run {reports : List Report}
    (h : Run (AcceptedReport A cfg keys chrono serviceError b) db reports db') :
    ∀ c ∈ reports, mintedBy A cfg c = reportWorth A cfg c := by
  induction h with
  | nil => simp
  | cons hs _ ih =>
    intro c hc
    rcases List.mem_cons.1 hc with rfl | hc
    · obtain ⟨rs, -, -, hbatch, -⟩ := hs.inserted
      exact mintedBy_eq_worth hbatch
    · exact ih c hc

theorem sum_rewards {reports : List Report} (h : ∀ c ∈ reports, mintedBy A cfg c = reward cfg) :
    (reports.map (mintedBy A cfg)).sum = reports.length * reward cfg := by
  induction reports with
  | nil => simp
  | cons c reports ih =>
    rw [List.map_cons, List.sum_cons, h c List.mem_cons_self, ih fun c hc => h c (List.mem_cons_of_mem _ hc),
      List.length_cons, Int.natCast_add, Int.natCast_one, Int.add_mul, Int.one_mul, Int.add_comm]

/-- **The bound, from the requests alone.** -/
theorem mintBounded_iff {reports : List Report} (hworth : ∀ c ∈ reports, mintedBy A cfg c = reportWorth A cfg c) :
    MintBounded A cfg reports ↔ WithinBudget A cfg reports := by
  have hfair : (∀ c ∈ reports, mintedBy A cfg c = reward cfg) ↔
      ∀ c ∈ reports, reportWorth A cfg c = reward cfg :=
    forall₂_congr fun c hc => by rw [hworth c hc]
  rw [MintBounded, WithinBudget, ← hfair]
  refine and_congr_right fun hrew => forall₂_congr fun cap _ => ⟨fun h => ?_, fun h first hfirst => ?_⟩
  · rw [← sum_rewards hrew]
    exact h reports List.prefix_rfl
  · rw [sum_rewards fun c hc => hrew c (hfirst.subset hc)]
    have hlen := hfirst.length_le
    -- a negative reward only lowers the total
    by_cases hpos : 0 ≤ reward cfg
    · exact le_trans (Int.mul_le_mul_of_nonneg_right (by exact_mod_cast hlen) hpos) h
    · exact le_trans (Int.mul_nonpos_of_nonneg_of_nonpos (Int.natCast_nonneg _) (by omega)) (Int.natCast_nonneg _)

/-! ### In the ledger -/

theorem Redis.weight_of_not_claimed {t : Redis.Tokens} {k : String} (h : ¬ Redis.Claimed t k) :
    FMap.weight (fun _ => Redis.storedAmount) t k = 0 := by
  rw [Redis.Claimed, Redis.hget] at h
  rw [FMap.weight]
  cases hk : t.lookup k with
  | none => rfl
  | some f =>
    have hnone : f.lookup "amount_wats" = none := by simpa [hk] using h
    simp [Redis.storedAmount, readAmount, hnone]

/-- **An accepted batch adds its amounts to the ledger.** -/
theorem Redis.ledgerTotal_insert {cfg : StoreConfig ρ} {rs : List ρ} {db : Redis.Db}
    (hok : (Redis.insertTokens cfg rs db).1 = .ok ()) : Redis.ledgerTotal (Redis.insertTokens cfg rs db).2.tokens =
      Redis.ledgerTotal db.tokens + (rs.map fun r => (cfg.codec.amountWats r).val).sum := by
  obtain ⟨c, -, hnd, hun, -, hst, hiff⟩ := Redis.insertTokens_spec cfg rs db
  obtain rfl : c = rs := hiff.1 hok
  rw [hst]
  have hframe : ∀ k, k ∉ (c.map cfg.recordKey).toFinset →
      (FMap.putAll db.tokens (c.map (Redis.overlay cfg db.tokens))).lookup k = db.tokens.lookup k := fun k hk =>
    FMap.lookup_putAll_of_notMem (by rwa [Redis.overlay_keys, ← List.mem_toFinset]) _
  have hacc := FMap.total_add_of_agree (fun _ => Redis.storedAmount) hframe
  have hbefore : ∑ k ∈ (c.map cfg.recordKey).toFinset, FMap.weight (fun _ => Redis.storedAmount) db.tokens k = 0 :=
    Finset.sum_eq_zero fun k hk => by
      obtain ⟨r, hr, rfl⟩ := List.mem_map.1 (List.mem_toFinset.1 hk)
      exact Redis.weight_of_not_claimed (hun r hr)
  have hafter : ∑ k ∈ (c.map cfg.recordKey).toFinset, FMap.weight (fun _ => Redis.storedAmount)
      (FMap.putAll db.tokens (c.map (Redis.overlay cfg db.tokens))) k =
        (c.map fun r => (cfg.codec.amountWats r).val).sum := by
    rw [List.sum_toFinset _ hnd, List.map_map]
    refine congrArg List.sum (List.map_congr_left fun r hr => ?_)
    have hget := Redis.present_overlay (t := db.tokens) hnd hr _ (cfg.codec.amount_mem r)
    obtain ⟨f, hf, hamount⟩ := Option.bind_eq_some_iff.1 hget
    simp [FMap.weight, hf, Redis.storedAmount, readAmount, hamount, I64.ofText_toText]
  rw [hbefore, hafter, Int.add_zero] at hacc
  exact hacc

end

/-- **The mint is bounded, exactly when.** For every splittable flavour, configuration and
backend and every run of accepted reports: each report mints its reward and the total stays
below the cap if and only if each asks for its reward and the cap has room for all; on Redis
the total is what the ledger gained. -/
theorem mint_bounded_iff {σ ρ : Type} (A : SplittableAsset σ ρ) (cfg : ServeConfig) (keys : KeyStrategy)
    (chrono : Codec) (serviceError : String) :
    (∀ (b : Backend) (db db' : b.Db) (reports : List Report),
      Run (AcceptedReport A cfg keys chrono serviceError b) db reports db' →
      (MintBounded A cfg reports ↔ WithinBudget A cfg reports)) ∧
    (∀ (db db' : Redis.Db) (reports : List Report),
      Run (AcceptedReport A cfg keys chrono serviceError .redis) db reports db' →
      Redis.ledgerTotal db'.tokens = Redis.ledgerTotal db.tokens + (reports.map (mintedBy A cfg)).sum) := by
  refine ⟨fun b db db' reports h => mintBounded_iff (mintedBy_of_run h), fun db db' reports h => ?_⟩
  induction h with
  | nil => simp
  | @cons s t u c reports hs _ ih =>
    obtain ⟨rs, db₁, state, hbatch, hins, hnext⟩ := hs.inserted
    have hok : (Redis.insertTokens (A.storeConfig keys chrono serviceError) rs s).1 = .ok () := congrArg Prod.fst hins
    have htokens : t.tokens = (Redis.insertTokens (A.storeConfig keys chrono serviceError) rs s).2.tokens := by
      rw [hnext, show (Redis.insertTokens (A.storeConfig keys chrono serviceError) rs s).2 =
        db₁ from congrArg Prod.snd hins]
      rfl
    have hminted : mintedBy A cfg c = (rs.map fun r => (A.codec.amountWats r).val).sum := by rw [mintedBy, hbatch]
    rw [ih, htokens, Redis.ledgerTotal_insert hok, List.map_cons, List.sum_cons, hminted, Int.add_assoc]
    rfl

namespace Sample

/-- A report of one token on a server that grants 1 per report and 1 in all. -/
def reportOf (amount : String) : Report := ⟨env, .calm, .ok ⟨preimageOf (token amount 'a'), some true⟩⟩

/-- What it leaves in an empty ledger. -/
def mintOf (amount : String) : Response × Redis.Db :=
  miningReport (webcash .atEpoch) (serveConfig (token amount 'a'))
    (Redis.store ((webcash .atEpoch).storeConfig .webcashLegacyKeys .atEpoch "service error") ⟨0⟩) env
    (.ok ⟨preimageOf (token amount 'a'), some true⟩) .empty

end Sample

/-- The first report mints a thousand times its reward and the cap, and is accepted. -/
theorem report_beyond_cap :
    (mintOf "1000").1 = success ∧ Redis.ledgerTotal (mintOf "1000").2.tokens = 100000000000 ∧
    reward (serveConfig (token "1000" 'a')) = 100000000 ∧
    ¬ MintBounded (webcash .atEpoch) (serveConfig (token "1000" 'a')) [reportOf "1000"] := by
  have hrun : (mintOf "1000").1 = success ∧ Redis.ledgerTotal (mintOf "1000").2.tokens = 100000000000 ∧
      reward (serveConfig (token "1000" 'a')) = 100000000 ∧
      mintedBy (webcash .atEpoch) (serveConfig (token "1000" 'a')) (reportOf "1000") = 100000000000 := by
    decide +kernel
  refine And.intro hrun.1 (And.intro hrun.2.1 (And.intro hrun.2.2.1 fun h => ?_))
  have hbound := h.1 (reportOf "1000") (List.mem_singleton_self _)
  rw [hrun.2.2.1, hrun.2.2.2] at hbound
  exact absurd hbound (by decide)

/-- A report of exactly its reward. -/
theorem report_within_cap :
    (mintOf "1").1 = success ∧ MintBounded (webcash .atEpoch) (serveConfig (token "1" 'a')) [reportOf "1"] := by
  have hok : (mintOf "1").1 = success := by decide +kernel
  have hworth : reportWorth (webcash .atEpoch) (serveConfig (token "1" 'a')) (reportOf "1") =
      reward (serveConfig (token "1" 'a')) := by decide +kernel
  have hreward : reward (serveConfig (token "1" 'a')) = 100000000 := by decide
  have hbudget : WithinBudget (webcash .atEpoch) (serveConfig (token "1" 'a')) [reportOf "1"] := by
    refine ⟨fun c hc => ?_, fun cap hcap => ?_⟩
    · rw [List.mem_singleton.1 hc]
      exact hworth
    · obtain rfl : 100000000 = cap := Option.some.inj hcap
      rw [hreward, List.length_singleton]
      decide
  have hrun : Run (AcceptedReport (webcash .atEpoch)
    (serveConfig (token "1" 'a')) .webcashLegacyKeys .atEpoch "service error"
      .redis) Redis.Db.empty [reportOf "1"] (mintOf "1").2 := .cons ⟨_, answered hok⟩ (.nil _)
  exact And.intro hok (((mint_bounded_iff (webcash .atEpoch) (serveConfig (token "1" 'a')) .webcashLegacyKeys .atEpoch
    "service error").1 .redis _ _ _ hrun).2 hbudget)

end Webycash
