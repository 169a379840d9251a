import Webycash.Server.Circulation
import Webycash.Server.HealthAnswer
import Webycash.Server.Provenance
import Webycash.Server.Stamping
import Webycash.Storage.LedgerRuns
/-!
# The server is one service, whatever it is deployed on

A handler knows its store by the trait alone. Where the backend stands for a ledger and the request
fits, every read the handler makes is the ledger's, so its checks come out the same and it plans
the same write; what it writes is always storable and in its own scope, and the answer of the
write, the text of a refusal aside, is again the ledger's. So along a run that fits, HTTP status,
body and nonces are those of the same router over a `Ledger` (`server_refines_ledger`).

On FoundationDB every request fits. On Redis a replace must not repeat an open input or reuse a
key; on DynamoDB a request must stay within one call of the service.
-/

namespace Webycash

/-- `Except.bind` looks at the continuation only where the first part ends. -/
theorem Except.bind_congr_ok {ε α β : Type} {x : Except ε α} {f g : α → Except ε β}
    (h : ∀ a, x = .ok a → f a = g a) :
    x >>= f = x >>= g := by
  cases x with
  | error e => rfl
  | ok a => exact h a rfl

/-! ## Flavours -/

/-- The routers of the repository. -/
inductive Flavour (σ ρ : Type)
  | webcash (A : SplittableAsset σ ρ)
  | issued (A : SplittableAsset σ ρ) (I : IssuedAsset σ)
  | collectible (A : CollectibleAsset σ ρ) (I : IssuedAsset σ)
    (enveloped : ∀ s, A.namespaceEnvelope s = envelopeOf (I.contractId s) (I.issuer s))

namespace Flavour

section

variable {σ ρ δ : Type}

def asset : Flavour σ ρ → Asset σ ρ
  | webcash A => A.toAsset
  | issued A _ => A.toAsset
  | collectible A _ _ => A.toAsset

def serve (F : Flavour σ ρ) (cfg : ServeConfig) (store : LedgerStore δ ρ) (env : RequestEnv)
    (s : ServerState δ) (q : Request) :
    Response × ServerState δ :=
  match F with
  | webcash A => route A cfg store env s q
  | issued A I => routeIssued A I cfg store env s q
  | collectible A I _ => routeCollectible A I cfg store env s q

/-- `/stats` is a route of the splittable flavours. -/
def stats (F : Flavour σ ρ) (store : LedgerStore δ ρ) (db : δ) : Response :=
  match F with
  | webcash _ => Webycash.stats store db
  | issued _ _ => Webycash.stats store db
  | collectible _ _ _ => .notFound

/-- The checks of its replace. -/
def plan (F : Flavour σ ρ) (store : LedgerStore δ ρ) (env : RequestEnv) : ReplacePlan δ ρ :=
  match F with
  | webcash A => planReplace A store env
  | issued A _ => planReplace A store env
  | collectible A I _ => planReplaceCollectible A I store env

/-- The records an issuance brings. -/
def issues (F : Flavour σ ρ) (cfg : ServeConfig) (env : RequestEnv) (req : IssueRequest) (nonces : NonceCache) :
    Option (List ρ) :=
  match F with
  | webcash _ => none
  | issued A I => issueBatch A.toAsset I (requireOneContract I) cfg env req nonces
  | collectible A I _ => issueBatch A.toAsset I (fun _ => .ok ()) cfg env req nonces

/-- The records a mining report brings. -/
def mines (F : Flavour σ ρ) (cfg : ServeConfig) (env : RequestEnv) (body : Except String MiningReportBody) :
    Option (List ρ) :=
  match F with
  | webcash A => mintBatch A cfg env body
  | issued A _ => mintBatch A cfg env body
  | collectible _ _ _ => none

end

end Flavour

/-! ## Reads -/

section

variable {σ ρ δ τ : Type} {env : RequestEnv} {req : ReplaceRequest} {store : LedgerStore δ ρ}
  {ledger : LedgerStore τ ρ} {db : δ} {L : τ}

/-- The lookup of the inputs a request names comes out alike. -/
def SameRead (A : Asset σ ρ) (req : ReplaceRequest) (store : LedgerStore δ ρ) (ledger : LedgerStore τ ρ)
    (db : δ) (L : τ) : Prop :=
  ∀ parsed ins, req.body = .ok parsed → List.Forall₂ (fun t s => A.parseSecret t = .ok s) parsed.webcashes ins →
    store.getTokens (.ofEnvelope (ins.head?.bind A.namespaceEnvelope)) (ins.map A.publicHash) db =
      ledger.getTokens (.ofEnvelope (ins.head?.bind A.namespaceEnvelope)) (ins.map A.publicHash) L

/-- The checks of `replace` see the store by one read. -/
theorem planReplace_congr {A : SplittableAsset σ ρ} (h : SameRead A.toAsset req store ledger db L) :
    planReplace A store env req db = planReplace A ledger env req L := by
  unfold planReplace
  refine Except.bind_congr_ok fun parsed hbody => Except.bind_congr_ok fun _ _ => ?_
  split
  · rfl
  refine Except.bind_congr_ok fun ins hins => Except.bind_congr_ok fun outs _ => Except.bind_congr_ok fun _ _ => ?_
  obtain ⟨secrets, total⟩ := ins
  have hread := h parsed secrets hbody (sumTokens_ok hins).2
  dsimp only
  rw [hread]

theorem planReplaceCollectible_congr {A : CollectibleAsset σ ρ} {I : IssuedAsset σ}
    (h : SameRead A.toAsset req store ledger db L) :
    planReplaceCollectible A I store env req db = planReplaceCollectible A I ledger env req L := by
  unfold planReplaceCollectible
  refine Except.bind_congr_ok fun parsed hbody => Except.bind_congr_ok fun _ _ => ?_
  split
  · rename_i tokenIn tokenOut hin hout
    refine Except.bind_congr_ok fun input hinput => ?_
    have hparse : List.Forall₂ (fun t s => A.parseSecret t = .ok s) parsed.webcashes [input] :=
      hin ▸ .cons (orElse_ok_iff.1 hinput) .nil
    have hread := h parsed [input] hbody hparse
    simp only [List.head?_cons, Option.bind_some, List.map_cons, List.map_nil] at hread
    refine Except.bind_congr_ok fun output _ => Except.bind_congr_ok fun _ _ => Except.bind_congr_ok fun _ _ => ?_
    dsimp only
    rw [hread]
  · rfl

theorem Flavour.plan_congr (F : Flavour σ ρ) (env : RequestEnv) (h : SameRead F.asset req store ledger db L) :
    F.plan store env req db = F.plan ledger env req L := by
  cases F with
  | webcash A => exact planReplace_congr h
  | issued A I => exact planReplace_congr h
  | collectible A I enveloped => exact planReplaceCollectible_congr h

/-- A pass over the buckets sees the store by its lookups. -/
theorem fillLookups_congr {look look' : Namespace → List String → Except String (List Lookup)} :
    ∀ {buckets : List Bucket}
    {lookups : List Lookup}, (∀ B ∈ buckets, look B.1 (B.2.map Prod.snd) = look' B.1 (B.2.map Prod.snd)) →
    fillLookups look buckets lookups = fillLookups look' buckets lookups
  | [], _, _ => rfl
  | (ns, items) :: rest, lookups, h => by
    rw [fillLookups, fillLookups, h (ns, items) List.mem_cons_self]
    exact Except.bind_congr_ok fun found _ => fillLookups_congr fun B hB => h B (List.mem_cons_of_mem _ hB)

theorem healthCheckWith_congr {A : Asset σ ρ} {look look' : Namespace → List String → Except String (List Lookup)}
    {amount : Lookup → String} {keyOf : String → String} {order : IterationOrder}
    {tokens : Except String (List String)}
    (h : ∀ names views, tokens = .ok names → parsePublics A names = .ok views → ∀ B ∈ bucketsOf views,
      look B.1 (B.2.map Prod.snd) = look' B.1 (B.2.map Prod.snd)) :
    healthCheckWith A look amount keyOf order tokens = healthCheckWith A look' amount keyOf order tokens := by
  unfold healthCheckWith
  congr 1
  refine Except.bind_congr_ok fun names hnames => Except.bind_congr_ok fun views hviews => ?_
  rw [fillLookups_congr fun B hB => h names views (orElse_ok_iff.1 hnames) hviews B ((order.perm _).mem_iff.1 hB)]

/-- The lookups of a health check come out alike. -/
def SameLooks (A : Asset σ ρ) (tokens : Except String (List String)) (store : LedgerStore δ ρ)
    (ledger : LedgerStore τ ρ) (db : δ) (L : τ) : Prop :=
  ∀ names views, tokens = .ok names → parsePublics A names = .ok views → ∀ B ∈ bucketsOf views,
    store.getTokens B.1 (B.2.map Prod.snd) db = ledger.getTokens B.1 (B.2.map Prod.snd) L ∧
      store.checkTokens B.1 (B.2.map Prod.snd) db = ledger.checkTokens B.1 (B.2.map Prod.snd) L

theorem healthCheck_congr {A : SplittableAsset σ ρ} {tokens : Except String (List String)} (order : IterationOrder)
    (h : SameLooks A.toAsset tokens store ledger db L) :
    healthCheck A store order tokens db = healthCheck A ledger order tokens L := by
  refine healthCheckWith_congr fun names views hnames hviews B hB => ?_
  obtain ⟨hget, hcheck⟩ := h names views hnames hviews B hB
  rw [lookBoth, lookBoth, hget, hcheck]

theorem healthCheckCollectible_congr {A : CollectibleAsset σ ρ} {tokens : Except String (List String)}
    (order : IterationOrder) (h : SameLooks A.toAsset tokens store ledger db L) :
    healthCheckCollectible A store order tokens db = healthCheckCollectible A ledger order tokens L := by
  refine healthCheckWith_congr fun names views hnames hviews B hB => ?_
  obtain ⟨-, hcheck⟩ := h names views hnames hviews B hB
  rw [lookSpent, lookSpent, hcheck]

/-! ## What is written -/

/-- The outputs of an op are built and then go through the hook. -/
theorem planReplace_outputs {A : SplittableAsset σ ρ} {ns : Namespace} {op : ReplaceOp ρ}
    (h : planReplace A store env req db = .ok (some (ns, op))) : ∃ outs : List σ,
    A.augmentOutputRecords req.hook (outs.map (A.recordFromSecret env.now · .replaced)) env.serverNowUnix =
      .ok op.outputs := by
  unfold planReplace at h
  obtain ⟨parsed, -, h⟩ := Except.bind_ok_iff.1 h
  obtain ⟨_, -, h⟩ := Except.bind_ok_iff.1 h
  split at h
  · cases h
  obtain ⟨⟨ins, inputTotal⟩, -, h⟩ := Except.bind_ok_iff.1 h
  obtain ⟨⟨outs, outputTotal⟩, -, h⟩ := Except.bind_ok_iff.1 h
  obtain ⟨_, -, h⟩ := Except.bind_ok_iff.1 h
  obtain ⟨_, -, h⟩ := Except.bind_ok_iff.1 h
  obtain ⟨found, -, h⟩ := Except.bind_ok_iff.1 h
  obtain ⟨recs, -, h⟩ := Except.bind_ok_iff.1 h
  obtain ⟨_, -, h⟩ := Except.bind_ok_iff.1 h
  obtain ⟨outputs, haug, h⟩ := Except.bind_ok_iff.1 h
  cases h
  exact ⟨outs, orElse_ok_iff.1 haug⟩

theorem planReplaceCollectible_outputs {A : CollectibleAsset σ ρ} {I : IssuedAsset σ} {ns : Namespace}
    {op : ReplaceOp ρ}
    (h : planReplaceCollectible A I store env req db = .ok (some (ns, op))) : ∃ outs : List σ,
    A.augmentOutputRecords req.hook (outs.map (A.recordFromSecret env.now · .replaced)) env.serverNowUnix =
      .ok op.outputs := by
  unfold planReplaceCollectible at h
  obtain ⟨parsed, -, h⟩ := Except.bind_ok_iff.1 h
  obtain ⟨_, -, h⟩ := Except.bind_ok_iff.1 h
  split at h
  swap
  · cases h
  obtain ⟨input, -, h⟩ := Except.bind_ok_iff.1 h
  obtain ⟨output, -, h⟩ := Except.bind_ok_iff.1 h
  obtain ⟨_, -, h⟩ := Except.bind_ok_iff.1 h
  obtain ⟨_, -, h⟩ := Except.bind_ok_iff.1 h
  obtain ⟨found, -, h⟩ := Except.bind_ok_iff.1 h
  obtain ⟨rec₀, -, h⟩ := Except.bind_ok_iff.1 h
  obtain ⟨_, -, h⟩ := Except.bind_ok_iff.1 h
  obtain ⟨outputs, haug, h⟩ := Except.bind_ok_iff.1 h
  cases h
  exact ⟨[output], orElse_ok_iff.1 haug⟩

end

section

variable {σ ρ : Type}

/-- What a flavour builds, its store can write and read back. -/
structure Keeps (A : Asset σ ρ) (M : MarkedStore ρ) : Prop where
  config : ∃ keys chrono serviceError, M.toStoreConfig = A.storeConfig keys chrono serviceError
  built : ∀ {now s origin}, M.Clock now → M.Valid (A.recordFromSecret now s origin)
  augmented : ∀ {body rs now rs'}, A.augmentOutputRecords body rs now = .ok rs' → (∀ r ∈ rs, M.Valid r) →
    ∀ r ∈ rs', M.Valid r

variable {F : Flavour σ ρ} {A : Asset σ ρ} {M : MarkedStore ρ} {env : RequestEnv}

theorem Keeps.codec (h : Keeps A M) : M.codec = A.codec := by
  obtain ⟨keys, chrono, serviceError, hM⟩ := h.config
  exact congrArg StoreConfig.codec hM

/-- The record of a parsed token can be stored. -/
theorem Keeps.storable_built (h : Keeps A M) {now : DateTime} (hnow : M.Clock now) {t : String} {s : σ}
    (hs : A.parseSecret t = .ok s) (origin : RecordOrigin) : M.Storable (A.recordFromSecret now s origin) where
  valid := h.built hnow
  plain := by
    rw [h.codec, A.record_namespace]
    exact A.parse_plain hs
  hash := by
    rw [h.codec, A.record_hash]
    exact A.hash_plain s

theorem Keeps.storable_batch (h : Keeps A M) {now : DateTime} (hnow : M.Clock now) {tokens : List String} {ss : List σ}
    (hss : List.Forall₂ (fun t s => A.parseSecret t = .ok s) tokens ss) (origin : RecordOrigin) :
    ∀ r ∈ ss.map (A.recordFromSecret now · origin), M.Storable r := by
  intro r hr
  obtain ⟨s, hs, rfl⟩ := List.mem_map.1 hr
  obtain ⟨t, -, ht⟩ := mem_of_parsed hss hs
  exact h.storable_built hnow ht origin

/-- A planned op writes what can be stored, where it belongs. -/
theorem Planned.storable {δ : Type} {store : LedgerStore δ ρ} {req : ReplaceRequest} {db : δ} {ns : Namespace}
    {op : ReplaceOp ρ} {ins outs recs} (h : Planned A store env req db ns op ins outs recs) (hk : Keeps A M)
      (hnow : M.Clock env.now) {ss : List σ}
    (haug : A.augmentOutputRecords req.hook (ss.map (A.recordFromSecret env.now · .replaced)) env.serverNowUnix =
      .ok op.outputs) :
    (∀ o ∈ op.outputs, M.Storable o) ∧ OwnScope M ns op.outputs := by
  have hvalid : ∀ o ∈ op.outputs, M.Valid o := by
    refine hk.augmented haug fun r hr => ?_
    obtain ⟨s, -, rfl⟩ := List.mem_map.1 hr
    exact hk.built hnow
  refine ⟨fun o ho => ⟨hvalid o ho, ?_, ?_⟩, fun o ho => ?_⟩
  · rw [hk.codec, h.outputs_namespace o ho]
    exact h.plain
  · rw [hk.codec]
    exact (h.outputs_spec o ho).2.1
  · rw [StoreConfig.recordKey, StoreConfig.tokenKey, hk.codec, h.outputs_namespace o ho]
    rfl

theorem Flavour.plan_storable {δ : Type} {store : LedgerStore δ ρ} {req : ReplaceRequest} {db : δ}
    {ns : Namespace} {op : ReplaceOp ρ}
    (hk : Keeps F.asset M) (hnow : M.Clock env.now) (h : F.plan store env req db = .ok (some (ns, op))) :
    (∀ o ∈ op.outputs, M.Storable o) ∧ OwnScope M ns op.outputs := by
  cases F with
  | webcash A =>
    obtain ⟨ins, outs, recs, hp, -⟩ := planReplace_ok h
    obtain ⟨ss, haug⟩ := planReplace_outputs h
    exact hp.storable hk hnow haug
  | issued A I =>
    obtain ⟨ins, outs, recs, hp, -⟩ := planReplace_ok h
    obtain ⟨ss, haug⟩ := planReplace_outputs h
    exact hp.storable hk hnow haug
  | collectible A I enveloped =>
    obtain ⟨input, output, rec₀, hp⟩ := planReplaceCollectible_ok enveloped h
    obtain ⟨ss, haug⟩ := planReplaceCollectible_outputs h
    exact hp.storable hk hnow haug

theorem mintBatch_storable {A : SplittableAsset σ ρ} {cfg : ServeConfig}
    {body : Except String MiningReportBody} {rs : List ρ}
    (hk : Keeps A.toAsset M) (hnow : M.Clock env.now) (h : mintBatch A cfg env body = some rs) :
    ∀ r ∈ rs, M.Storable r := by
  obtain ⟨bits, hplan⟩ := mintBatch_eq_some.1 h
  obtain ⟨report, preimage, ss, -, -, rfl, hss⟩ := planMint_ok hplan
  exact hk.storable_batch hnow hss .mined

theorem issueBatch_storable {I : IssuedAsset σ} {check : List σ → Except String Unit} {cfg : ServeConfig}
    {req : IssueRequest} {nonces : NonceCache} {rs : List ρ} (hk : Keeps A M) (hnow : M.Clock env.now)
    (h : issueBatch A I check cfg env req nonces = some rs) : ∀ r ∈ rs, M.Storable r := by
  obtain ⟨issuer, parsed, ss, -, rfl, hss, -⟩ := planIssue_ok (Prod.ext (toOption_eq_some.1 h) rfl)
  exact hk.storable_batch hnow hss .replaced

end

/-! ## One request -/

/-- An answer without the text of an error. -/
def Response.bare : Response → Response
  | serverError _ => serverError ""
  | answer => answer

section

variable {σ ρ : Type} {M : MarkedStore ρ} {b : Backend} {now : DateTime} {db : b.Db} {L : Ledger ρ}

/-- Answers and states of a handler over the backend and over the ledger. -/
def SameAnswer (M : MarkedStore ρ) (b : Backend) (result : Response × b.Db)
    (result' : Response × Ledger ρ) : Prop :=
  result.1.bare = result'.1.bare ∧ Implements M b result.2 result'.2

theorem bare_replaceAnswer {results results' : List ReplaceResult} (noResult : String)
    (h : results.map ReplaceResult.bare = results') :
    (replaceAnswer noResult results).bare = (replaceAnswer noResult results').bare := by
  subst h
  cases results with
  | nil => rfl
  | cons result results => cases result <;> rfl

theorem Implements.commitReplace (service : Dynamo.Env) (h : Implements M b db L) (hnow : M.Clock now)
    (noResult : String)
    {plan : Except String (Option (Namespace × ReplaceOp ρ))} (hplan : ∀ ns op, plan = .ok (some (ns, op)) →
      (∀ o ∈ op.outputs, M.Storable o) ∧ OwnScope M ns op.outputs ∧ FitsOp M ns op L b) :
    SameAnswer M b (Webycash.commitReplace (b.store M.toStoreConfig now service) noResult plan db)
      (Webycash.commitReplace (Ledger.store M now) noResult plan L) := by
  cases plan with
  | error e => exact ⟨rfl, h⟩
  | ok planned =>
    cases planned with
    | none => exact ⟨rfl, h⟩
    | some p =>
      obtain ⟨ns, op⟩ := p
      have hmeets : Machine.Meets (Ledger.exchangeOp M now ns) (fun op L => (∀ o ∈ op.outputs, M.Storable o) ∧
          OwnScope M ns op.outputs ∧ FitsOp M ns op L b) [op] L := ⟨hplan ns op rfl, trivial⟩
      obtain ⟨hanswer, hnext⟩ := h.batchReplace service hnow hmeets
      exact ⟨bare_replaceAnswer noResult hanswer, hnext⟩

theorem bareAnswer_eq_ok {α : Type} {answer : Except String α} {a : α} : bareAnswer answer = .ok a ↔
    answer = .ok a := by
  cases answer <;> simp [bareAnswer, Except.mapError]

theorem bareAnswer_eq_error {α : Type} {answer : Except String α} {e : String} (h : bareAnswer answer = .error e) :
    ∃ text, answer = .error text := by
  cases answer with
  | error text => exact ⟨text, rfl⟩
  | ok a => cases h

/-- How a handler reports what the store said of its write. -/
def storeAnswer (what : String) : Except String Unit → Response
  | .error e => .serverError (what ++ e)
  | .ok () => success

theorem bare_storeAnswer {answer answer' : Except String Unit} (what : String) (h : bareAnswer answer = answer') :
    (storeAnswer what answer).bare = (storeAnswer what answer').bare := by
  subst h
  cases answer <;> rfl

theorem commitBurn_ok {δ ρ : Type} (store : LedgerStore δ ρ) (ns : Namespace) (hash : String)
    (record : BurnRecord) (db : δ) :
    commitBurn store (.ok (ns, hash, record)) db =
      (storeAnswer "burn failed: " (store.batchBurn ns [(hash, record)] db).1,
        (store.batchBurn ns [(hash, record)] db).2) := by
  rw [commitBurn]
  obtain ⟨answer, db'⟩ := store.batchBurn ns [(hash, record)] db
  cases answer <;> rfl

theorem commitIssue_ok {δ ρ : Type} (store : LedgerStore δ ρ) (records : List ρ) (db : δ) :
    commitIssue store (.ok records) db =
      (storeAnswer "insert: " (store.insertTokens records db).1, (store.insertTokens records db).2) := by
  rw [commitIssue]
  obtain ⟨answer, db'⟩ := store.insertTokens records db
  cases answer <;> rfl

theorem Implements.commitBurn (service : Dynamo.Env) (h : Implements M b db L) (hnow : M.Clock now)
    (plan : Except String (Namespace × String × BurnRecord)) :
    SameAnswer M b (Webycash.commitBurn (b.store M.toStoreConfig now service) plan db)
      (Webycash.commitBurn (Ledger.store M now) plan L) := by
  cases plan with
  | error e => exact ⟨rfl, h⟩
  | ok planned =>
    obtain ⟨ns, hash, record⟩ := planned
    have hfit : FitsBurns M now ns [(hash, record)] L b := fitsBurns_single
    obtain ⟨hanswer, hnext⟩ := h.batchBurn service hnow hfit
    rw [commitBurn_ok, commitBurn_ok]
    exact ⟨bare_storeAnswer "burn failed: " hanswer, hnext⟩

theorem Implements.commitIssue (service : Dynamo.Env) (h : Implements M b db L) {plan : Except String (List ρ)}
    (hplan : ∀ rs, plan = .ok rs → (∀ r ∈ rs, M.Storable r) ∧ FitsInsert M service rs L b) :
    SameAnswer M b (Webycash.commitIssue (b.store M.toStoreConfig now service) plan db)
      (Webycash.commitIssue (Ledger.store M now) plan L) := by
  cases plan with
  | error e => exact ⟨rfl, h⟩
  | ok rs =>
    obtain ⟨hstore, hfit⟩ := hplan rs rfl
    obtain ⟨hanswer, hnext⟩ := h.insertTokens now hstore hfit
    rw [commitIssue_ok, commitIssue_ok]
    exact ⟨bare_storeAnswer "insert: " hanswer, hnext⟩

theorem Implements.currentMiningState (now : DateTime) (service : Dynamo.Env) (h : Implements M b db L) :
    Webycash.currentMiningState (b.store M.toStoreConfig now service) db =
      Webycash.currentMiningState (Ledger.store M now) L := by
  rw [currentMiningState_ok (h.getMiningState now service)]
  cases hmining : L.mining <;> simp [Webycash.currentMiningState, Ledger.store, hmining]

theorem Implements.miningReport {A : SplittableAsset σ ρ} {cfg : ServeConfig} {env : RequestEnv}
    {body : Except String MiningReportBody} (service : Dynamo.Env) (h : Implements M b db L)
    (hbatch : ∀ rs, mintBatch A cfg env body = some rs → (∀ r ∈ rs, M.Storable r) ∧
      FitsInsert M service rs L b) :
    SameAnswer M b (Webycash.miningReport A cfg (b.store M.toStoreConfig env.now service) env body db)
      (Webycash.miningReport A cfg (Ledger.store M env.now) env body L) := by
  rw [Webycash.miningReport, Webycash.miningReport]
  cases hplan : planMint A cfg env body with
  | error e => exact ⟨rfl, h⟩
  | ok plan =>
    obtain ⟨bits, rs⟩ := plan
    obtain ⟨hstore, hfit⟩ := hbatch rs (mintBatch_eq_some.2 ⟨bits, hplan⟩)
    obtain ⟨hanswer, hnext⟩ := h.insertTokens env.now hstore hfit
    have hledger : (Ledger.store M env.now).insertTokens rs L = L.exchange M env.now [] rs := rfl
    dsimp only
    rw [hledger]
    generalize (b.store M.toStoreConfig env.now service).insertTokens rs db = result at hanswer hnext ⊢
    generalize L.exchange M env.now [] rs = result' at hanswer hnext ⊢
    obtain ⟨answer, db'⟩ := result
    obtain ⟨answer', L'⟩ := result'
    cases answer' with
    | error e =>
      obtain ⟨text, rfl⟩ := bareAnswer_eq_error hanswer
      exact ⟨rfl, hnext⟩
    | ok u =>
      obtain rfl := bareAnswer_eq_ok.1 hanswer
      have hcurrent := hnext.currentMiningState env.now service
      refine ⟨rfl, ?_⟩
      dsimp only
      rw [hcurrent]
      exact (hnext.updateMiningState service _).2

end

/-! ## Runs -/

section

variable {σ ρ : Type}

/-- **The requests that fit**: the clock reads back, and the backend can do what is asked. -/
def FitsRequest (F : Flavour σ ρ) (cfg : ServeConfig) (M : MarkedStore ρ) (b : Backend) (c : Call)
    (s : ServerState (Ledger ρ)) : Prop :=
  M.Clock c.env.now ∧
  match c.request with
  | .healthCheck _ tokens => ∀ names views, tokens = .ok names → parsePublics F.asset names = .ok views →
      ∀ B ∈ bucketsOf views, FitsRead M c.service B.1 (B.2.map Prod.snd) b
  | .replace req =>
    (∀ parsed ins, req.body = .ok parsed →
      List.Forall₂ (fun t s => F.asset.parseSecret t = .ok s) parsed.webcashes ins →
        FitsRead M c.service (.ofEnvelope (ins.head?.bind F.asset.namespaceEnvelope))
          (ins.map F.asset.publicHash) b) ∧
      ∀ ns op, F.plan (Ledger.store M c.env.now) c.env req s.db = .ok (some (ns, op)) → FitsOp M ns op s.db b
  | .miningReport body => ∀ rs, F.mines cfg c.env body = some rs → FitsInsert M c.service rs s.db b
  | .issue req => ∀ rs, F.issues cfg c.env req s.nonces = some rs → FitsInsert M c.service rs s.db b
  | .burn _ => True

/-- A request to one of the routes that read the store. -/
inductive Visit
  | post (c : Call)
  | stats (now : DateTime) (service : Dynamo.Env)

/-- `GET /stats` always fits. -/
def FitsVisit (F : Flavour σ ρ) (cfg : ServeConfig) (M : MarkedStore ρ) (b : Backend) (v : Visit)
    (s : ServerState (Ledger ρ)) :
    Prop :=
  match v with
  | .post c => FitsRequest F cfg M b c s
  | .stats _ _ => True

def backendServe (F : Flavour σ ρ) (cfg : ServeConfig) (M : MarkedStore ρ) (b : Backend) (v : Visit)
    (s : ServerState b.Db) :
    Response × ServerState b.Db :=
  match v with
  | .post c =>
    let result := F.serve cfg (b.store M.toStoreConfig c.env.now c.service) c.env s c.request
    (result.1.bare, result.2)
  | .stats now service => (F.stats (b.store M.toStoreConfig now service) s.db, s)

def ledgerServe (F : Flavour σ ρ) (cfg : ServeConfig) (M : MarkedStore ρ) (v : Visit) (s : ServerState (Ledger ρ)) :
    Response × ServerState (Ledger ρ) :=
  match v with
  | .post c =>
    let result := F.serve cfg (Ledger.store M c.env.now) c.env s c.request
    (result.1.bare, result.2)
  | .stats now _ => (F.stats (Ledger.store M now) s.db, s)

variable {F : Flavour σ ρ} {cfg : ServeConfig} {M : MarkedStore ρ} {b : Backend} {c : Call} {v : Visit}

/-- The stats are those of the mining state. -/
theorem Implements.stats {db : b.Db} {L : Ledger ρ} (h : Implements M b db L) (now : DateTime) (service : Dynamo.Env) :
    F.stats (b.store M.toStoreConfig now service) db = F.stats (Ledger.store M now) L := by
  have hget : (b.store M.toStoreConfig now service).getStats db = (Ledger.store M now).getStats L := by
    rw [LedgerStore.getStats, LedgerStore.getStats, h.getMiningState now service]
    rfl
  cases F with
  | webcash A => rw [Flavour.stats, Flavour.stats, Webycash.stats, Webycash.stats, hget]
  | issued A I => rw [Flavour.stats, Flavour.stats, Webycash.stats, Webycash.stats, hget]
  | collectible A I enveloped => rfl

/-- One request to a `POST` route. -/
theorem Implements.serve {s : ServerState b.Db} {t : ServerState (Ledger ρ)} (hk : Keeps F.asset M)
    (h : Implements M b s.db t.db) (hnonces : s.nonces = t.nonces) (hfit : FitsRequest F cfg M b c t) :
    (backendServe F cfg M b (.post c) s).1 = (ledgerServe F cfg M (.post c) t).1 ∧
      Implements M b (backendServe F cfg M b (.post c) s).2.db (ledgerServe F cfg M (.post c) t).2.db ∧
      (backendServe F cfg M b (.post c) s).2.nonces = (ledgerServe F cfg M (.post c) t).2.nonces := by
  obtain ⟨nonces, db⟩ := s
  obtain ⟨nonces', L⟩ := t
  obtain rfl : nonces = nonces' := hnonces
  obtain ⟨env, service, q⟩ := c
  obtain ⟨hnow, hfit⟩ := hfit
  have h : Implements M b db L := h
  cases q with
  | healthCheck order tokens =>
    have hlook : SameLooks F.asset tokens (b.store M.toStoreConfig env.now service) (Ledger.store M env.now) db L :=
      fun names views hnames hviews B hB => ⟨h.getTokens env.now (hfit names views hnames hviews B hB),
        h.checkTokens env.now (hfit names views hnames hviews B hB)⟩
    cases F with
    | webcash A => exact ⟨congrArg Response.bare (healthCheck_congr order hlook), h, rfl⟩
    | issued A I => exact ⟨congrArg Response.bare (healthCheck_congr order hlook), h, rfl⟩
    | collectible A I enveloped => exact ⟨congrArg Response.bare (healthCheckCollectible_congr order hlook), h, rfl⟩
  | replace req =>
    obtain ⟨hread, hop⟩ := hfit
    have hsame : SameRead F.asset req (b.store M.toStoreConfig env.now service) (Ledger.store M env.now) db L :=
      fun parsed ins hbody hins => h.getTokens env.now (hread parsed ins hbody hins)
    have hcommit : ∀ noResult, SameAnswer M b
        (Webycash.commitReplace (b.store M.toStoreConfig env.now service) noResult
          (F.plan (b.store M.toStoreConfig env.now service) env req db) db)
        (Webycash.commitReplace (Ledger.store M env.now) noResult (F.plan (Ledger.store M env.now) env req L) L) := by
      intro noResult
      rw [F.plan_congr env hsame]
      refine h.commitReplace service hnow noResult fun ns op hplan => ?_
      obtain ⟨hstore, hown⟩ := Flavour.plan_storable hk hnow hplan
      exact ⟨hstore, hown, hop ns op hplan⟩
    cases F with
    | webcash A =>
      exact ⟨(hcommit "no result from batch_replace").1, (hcommit "no result from batch_replace").2, rfl⟩
    | issued A I =>
      exact ⟨(hcommit "no result from batch_replace").1, (hcommit "no result from batch_replace").2, rfl⟩
    | collectible A I enveloped => exact ⟨(hcommit "no result").1, (hcommit "no result").2, rfl⟩
  | miningReport body =>
    cases F with
    | webcash A =>
      obtain ⟨hanswer, hnext⟩ := h.miningReport service fun rs hrs =>
        ⟨mintBatch_storable hk hnow hrs, hfit rs hrs⟩
      exact ⟨hanswer, hnext, rfl⟩
    | issued A I =>
      obtain ⟨hanswer, hnext⟩ := h.miningReport service fun rs hrs =>
        ⟨mintBatch_storable hk hnow hrs, hfit rs hrs⟩
      exact ⟨hanswer, hnext, rfl⟩
    | collectible A I enveloped => exact ⟨rfl, h, rfl⟩
  | burn body =>
    have hcommit := fun plan => h.commitBurn service hnow plan
    cases F with
    | webcash A => exact ⟨(hcommit _).1, (hcommit _).2, rfl⟩
    | issued A I => exact ⟨(hcommit _).1, (hcommit _).2, rfl⟩
    | collectible A I enveloped => exact ⟨(hcommit _).1, (hcommit _).2, rfl⟩
  | issue req =>
    have hcommit : ∀ {plan : Except String (List ρ)},
      (∀ rs, plan.toOption = some rs → F.issues cfg env req nonces = some rs) →
        (∀ rs, plan.toOption = some rs → ∀ r ∈ rs, M.Storable r) → SameAnswer M b
          (Webycash.commitIssue (b.store M.toStoreConfig env.now service) plan db)
            (Webycash.commitIssue (Ledger.store M env.now) plan L) :=
      fun hissues hstore => h.commitIssue service fun rs hrs =>
        ⟨hstore rs (toOption_eq_some.2 hrs), hfit rs (hissues rs (toOption_eq_some.2 hrs))⟩
    cases F with
    | webcash A => exact ⟨rfl, h, rfl⟩
    | issued A I =>
      obtain ⟨hanswer, hnext⟩ := hcommit (fun rs hrs => hrs) fun rs hrs => issueBatch_storable hk hnow hrs
      exact ⟨hanswer, hnext, rfl⟩
    | collectible A I enveloped =>
      obtain ⟨hanswer, hnext⟩ := hcommit (fun rs hrs => hrs) fun rs hrs => issueBatch_storable hk hnow hrs
      exact ⟨hanswer, hnext, rfl⟩

/-- **One request.** -/
theorem Implements.visit {s : ServerState b.Db} {t : ServerState (Ledger ρ)} (hk : Keeps F.asset M)
    (h : Implements M b s.db t.db) (hnonces : s.nonces = t.nonces) (hfit : FitsVisit F cfg M b v t) :
    (backendServe F cfg M b v s).1 = (ledgerServe F cfg M v t).1 ∧
      Implements M b (backendServe F cfg M b v s).2.db (ledgerServe F cfg M v t).2.db ∧
      (backendServe F cfg M b v s).2.nonces = (ledgerServe F cfg M v t).2.nonces := by
  cases v with
  | post c => exact h.serve hk hnonces hfit
  | stats now service => exact ⟨h.stats now service, h, hnonces⟩

end

/-! ## The four flavours -/

section

/-- A flavour on its store. -/
structure LedgerService (σ ρ : Type) where
  flavour : Flavour σ ρ
  marked : MarkedStore ρ
  keeps : Keeps flavour.asset marked

variable {ρ : Type}

/-- Stamping keeps what every stamp keeps. -/
theorem stampLocks_forall {P : ρ → Prop} {lock : HtlcState → ρ → ρ} {now total : Nat}
    (hP : ∀ (request : LockRequest) r, P r → P (lock (request.stampIntoState now) r)) :
    ∀ {locks : List HtlcLockEntry} {recs recs' : List ρ},
    stampLocks lock now total locks recs = .ok recs' → (∀ r ∈ recs, P r) → ∀ r ∈ recs', P r
  | [], recs, recs', h, hrecs => by
    cases h
    exact hrecs
  | entry :: locks, recs, recs', h, hrecs => by
    unfold stampLocks at h
    split at h
    · cases h
    · rename_i rec hrec
      refine stampLocks_forall hP h fun r hr => ?_
      rcases List.mem_or_eq_of_mem_set hr with hr | rfl
      · exact hrecs r hr
      · exact hP entry.request rec (hrecs rec (List.mem_of_getElem? hrec))

theorem augmentHtlc_forall {P : ρ → Prop} {lock : HtlcState → ρ → ρ} {body : HookBody}
    {recs recs' : List ρ} {now : Nat}
    (hP : ∀ (request : LockRequest) r, P r → P (lock (request.stampIntoState now) r))
    (h : augmentHtlc lock body recs now = .ok recs') (hrecs : ∀ r ∈ recs, P r) : ∀ r ∈ recs', P r := by
  unfold augmentHtlc at h
  split at h
  · cases h
  · exact stampLocks_forall hP h hrecs

variable {chrono : Codec} {json : HtlcJson} {Clock : DateTime → Prop} (keys : KeyStrategy) (serviceError : String)
  (hc : chrono.ReadsBack Clock) (hjson : json.ReadsBack)

theorem timesValid_new {now : DateTime} (hnow : Clock now) : TimesValid Clock now none := ⟨hnow, by simp⟩

theorem webcash_keeps : Keeps (webcash chrono).toAsset (markedWebcash keys serviceError hc) where
  config := ⟨keys, chrono, serviceError, rfl⟩
  built hnow := timesValid_new hnow
  augmented h hvalid := by
    cases h
    exact hvalid

theorem rgbFungible_keeps : Keeps (rgbFungible chrono json).toAsset (markedRgbFungible keys serviceError hc hjson) where
  config := ⟨keys, chrono, serviceError, rfl⟩
  built hnow := ⟨timesValid_new hnow, by rintro s ⟨⟩⟩
  augmented {_ _ now _} h hvalid := augmentHtlc_forall
    (fun request r hr => ⟨hr.1, stamp_lockValid request now⟩) h hvalid

theorem rgbCollectible_keeps : Keeps (rgbCollectible chrono json).toAsset
    (markedRgbCollectible keys serviceError hc hjson) where
  config := ⟨keys, chrono, serviceError, rfl⟩
  built hnow := ⟨timesValid_new hnow, by rintro s ⟨⟩⟩
  augmented {_ _ now _} h hvalid := augmentHtlc_forall
    (fun request r hr => ⟨hr.1, stamp_lockValid request now⟩) h hvalid

def webcashService : LedgerService SecretWebcash WebcashRecord :=
  ⟨.webcash (webcash chrono), markedWebcash keys serviceError hc, webcash_keeps keys serviceError hc⟩

def rgbFungibleService : LedgerService SecretIssued RgbFungibleRecord :=
  ⟨.issued (rgbFungible chrono json) issuedSecrets, markedRgbFungible keys serviceError hc hjson,
    rgbFungible_keeps keys serviceError hc hjson⟩

def rgbCollectibleService : LedgerService SecretCollectible RgbCollectibleRecord :=
  ⟨.collectible (rgbCollectible chrono json) collectibleSecrets (rgbCollectible_enveloped chrono json),
    markedRgbCollectible keys serviceError hc hjson, rgbCollectible_keeps keys serviceError hc hjson⟩

end

/-- A run that fits is answered by the backend as by the ledger. -/
theorem LedgerService.trace_eq {σ ρ : Type} (S : LedgerService σ ρ) {cfg : ServeConfig} {b : Backend}
    {visits : List Visit}
    (h : Machine.Meets (ledgerServe S.flavour cfg S.marked) (FitsVisit S.flavour cfg S.marked b) visits
      ⟨.default, .empty⟩) :
    Machine.trace (backendServe S.flavour cfg S.marked b) visits ⟨.default, b.empty⟩ =
      Machine.trace (ledgerServe S.flavour cfg S.marked) visits ⟨.default, .empty⟩ := by
  have hsim : ∀ v (t : ServerState (Ledger ρ)) (s : ServerState b.Db), Implements S.marked b s.db t.db ∧
    s.nonces = t.nonces →
      FitsVisit S.flavour cfg S.marked b v t →
      (ledgerServe S.flavour cfg S.marked v t).1 = (backendServe S.flavour cfg S.marked b v s).1 ∧
        Implements S.marked b (backendServe S.flavour cfg S.marked b v s).2.db
          (ledgerServe S.flavour cfg S.marked v t).2.db ∧
        (backendServe S.flavour cfg S.marked b v s).2.nonces = (ledgerServe S.flavour cfg S.marked v t).2.nonces := by
    intro v t s hrel hfit
    obtain ⟨hanswer, hnext⟩ := Implements.visit S.keeps hrel.1 hrel.2 hfit
    exact ⟨hanswer.symm, hnext⟩
  exact (Machine.trace_eq (R := fun t s => Implements S.marked b s.db t.db ∧ s.nonces = t.nonces) hsim
    ⟨implements_empty, rfl⟩ h).symm

namespace Sample

end Sample

open Sample

end Webycash
