import Webycash.Server.HealthCheck
import Webycash.Server.Plans
import Webycash.Storage.Backend
/-!
# The routers, and what one request does to the ledger

`route` serves the splittable flavours, `routeIssued` adds `/issue` to it, `routeCollectible`
serves RGB21. `Effect` lists everything a request can do to a store, and a `LedgerServer` carries
the proof that its router does nothing else. The `GET` routes only read and are left out.

| here | there |
| --- | --- |
| `route`            | lib.rs:282 |
| `routeIssued`      | lib.rs:188 |
| `routeCollectible` | lib.rs:250 |
-/

namespace Webycash

inductive Request
  | healthCheck (order : IterationOrder) (tokens : Except String (List String))
  | replace (req : ReplaceRequest)
  | miningReport (body : Except String MiningReportBody)
  | burn (body : Except String BurnBody)
  | issue (req : IssueRequest)

/-- A mining report or an issuance. -/
def Request.Mints : Request → Prop
  | .miningReport _ => True
  | .issue _ => True
  | _ => False

/-- What a server keeps between requests. -/
structure ServerState (δ : Type) where
  nonces : NonceCache
  db : δ

section

variable {σ ρ δ : Type}

/-- Put a handler's answer back beside the nonces. -/
def withDb (s : ServerState δ) (answer : Response × δ) : Response × ServerState δ :=
  (answer.1, { s with db := answer.2 })

def route (A : SplittableAsset σ ρ) (cfg : ServeConfig) (store : LedgerStore δ ρ) (env : RequestEnv)
    (s : ServerState δ) :
    Request → Response × ServerState δ
  | .healthCheck order tokens => (healthCheck A store order tokens s.db, s)
  | .replace req => withDb s (replace A store env req s.db)
  | .miningReport body => withDb s (miningReport A cfg store env body s.db)
  | .burn body => withDb s (burn A store env body s.db)
  | .issue _ => (.notFound, s)

def routeIssued (A : SplittableAsset σ ρ) (I : IssuedAsset σ) (cfg : ServeConfig) (store : LedgerStore δ ρ)
    (env : RequestEnv) (s : ServerState δ) : Request → Response × ServerState δ
  | .issue req =>
    let (answer, nonces, db) := issue A I cfg store env req s.nonces s.db
    (answer, ⟨nonces, db⟩)
  | q => route A cfg store env s q

def routeCollectible (A : CollectibleAsset σ ρ) (I : IssuedAsset σ) (cfg : ServeConfig) (store : LedgerStore δ ρ)
    (env : RequestEnv) (s : ServerState δ) : Request → Response × ServerState δ
  | .healthCheck order tokens => (healthCheckCollectible A store order tokens s.db, s)
  | .replace req => withDb s (replaceCollectible A I store env req s.db)
  | .miningReport _ => (.notFound, s)
  | .burn body => withDb s (burnCollectible A store env body s.db)
  | .issue req =>
    let (answer, nonces, db) := issueCollectible A I cfg store env req s.nonces s.db
    (answer, ⟨nonces, db⟩)

/-! ## Effects -/

/-- The plan of a replace, in either variant. -/
abbrev ReplacePlan (δ ρ : Type) := ReplaceRequest → δ → Except String (Option (Namespace × ReplaceOp ρ))

/-- The records a mining report brings. -/
def mintBatch (A : SplittableAsset σ ρ) (cfg : ServeConfig) (env : RequestEnv)
    (body : Except String MiningReportBody) :
    Option (List ρ) := ((planMint A cfg env body).map Prod.snd).toOption

/-- The records an issuance brings. -/
def issueBatch (A : Asset σ ρ) (I : IssuedAsset σ) (check : List σ → Except String Unit) (cfg : ServeConfig)
    (env : RequestEnv)
    (req : IssueRequest) (nonces : NonceCache) : Option (List ρ) := (planIssue A I check cfg env req nonces).1.toOption

theorem toOption_eq_some {α : Type} {x : Except String α} {a : α} : x.toOption = some a ↔ x = .ok a := by
  cases x <;> simp [Except.toOption]

theorem mintBatch_eq_some {A : SplittableAsset σ ρ} {cfg : ServeConfig} {env : RequestEnv}
    {body : Except String MiningReportBody} {rs : List ρ} :
    mintBatch A cfg env body = some rs ↔ ∃ bits, planMint A cfg env body = .ok (bits, rs) := by
  rw [mintBatch, toOption_eq_some]
  cases planMint A cfg env body with
  | error e => simp [Except.map]
  | ok p =>
    obtain ⟨bits, rs'⟩ := p
    simp [Except.map]

/-- What a request may do to the store: nothing, one planned exchange, one planned burn, or the
insertion of the records it brings, with or without a new mining state. -/
inductive Effect (A : Asset σ ρ) (store : LedgerStore δ ρ) (env : RequestEnv) (plan : ReplacePlan δ ρ)
    (burnAmount : σ → I64) (batch : Option (List ρ)) (db : δ) : Request → δ → Prop
  | idle (q : Request) : Effect A store env plan burnAmount batch db q db
  | exchange {req : ReplaceRequest} {ns : Namespace} {op : ReplaceOp ρ} (h : plan req db = .ok (some (ns, op))) :
    Effect A store env plan burnAmount batch db (.replace req) (store.batchReplace ns [op] db).2
  | burn {body : Except String BurnBody} {ns : Namespace} {hash : String} {record : BurnRecord}
    (h : planBurn A burnAmount env body = .ok (ns, hash, record)) :
    Effect A store env plan burnAmount batch db (.burn body) (store.batchBurn ns [(hash, record)] db).2
  | insert {q : Request} {rs : List ρ} (h : batch = some rs) :
    Effect A store env plan burnAmount batch db q (store.insertTokens rs db).2
  | mint {q : Request} {rs : List ρ} (state : MiningState) (h : batch = some rs) :
    Effect A store env plan burnAmount batch db q (store.updateMiningState state (store.insertTokens rs db).2).2

variable {store : LedgerStore δ ρ} {env : RequestEnv} {plan : ReplacePlan δ ρ} {batch : Option (List ρ)} {db : δ}

theorem commitReplace_effect {A : Asset σ ρ} {burnAmount : σ → I64} (msg : String) (req : ReplaceRequest) :
    Effect A store env plan burnAmount batch db (.replace req) (commitReplace store msg (plan req db) db).2 := by
  unfold commitReplace
  split
  · exact .idle _
  · exact .idle _
  · rename_i ns op hplan
    exact .exchange hplan

theorem commitBurn_effect {A : Asset σ ρ} (burnAmount : σ → I64) (body : Except String BurnBody) :
    Effect A store env plan burnAmount batch db (.burn body)
      (commitBurn store (planBurn A burnAmount env body) db).2 := by
  unfold commitBurn
  split
  · exact .idle _
  · rename_i ns hash record hplan
    have heq : ∀ {r}, store.batchBurn ns [(hash, record)] db = r →
        Effect A store env plan burnAmount batch db (.burn body) r.2 := fun h => h ▸ .burn hplan
    split
    · rename_i h; exact heq h
    · rename_i h; exact heq h

theorem miningReport_effect {A : SplittableAsset σ ρ} {burnAmount : σ → I64} {cfg : ServeConfig}
    (body : Except String MiningReportBody) :
    Effect A.toAsset store env plan burnAmount (mintBatch A cfg env body) db (.miningReport body)
      (miningReport A cfg store env body db).2 := by
  unfold miningReport
  split
  · exact .idle _
  · rename_i bits records hplan
    have hbatch : mintBatch A cfg env body = some records := mintBatch_eq_some.2 ⟨bits, hplan⟩
    split
    · rename_i e db₁ h
      have hdb : db₁ = (store.insertTokens records db).2 := by rw [h]
      exact hdb ▸ .insert hbatch
    · rename_i db₁ h
      have hdb : db₁ = (store.insertTokens records db).2 := by rw [h]
      exact hdb ▸ .mint _ hbatch

theorem commitIssue_effect {A : Asset σ ρ} {I : IssuedAsset σ} {burnAmount : σ → I64}
    (check : List σ → Except String Unit) {cfg : ServeConfig} (req : IssueRequest) (nonces : NonceCache) :
    Effect A store env plan burnAmount (issueBatch A I check cfg env req nonces) db (.issue req)
      (commitIssue store (planIssue A I check cfg env req nonces).1 db).2 := by
  unfold commitIssue
  split
  · exact .idle _
  · rename_i records hplan
    have hbatch : issueBatch A I check cfg env req nonces = some records := toOption_eq_some.2 hplan
    split
    · rename_i e db₁ h
      have hdb : db₁ = (store.insertTokens records db).2 := by rw [h]
      exact hdb ▸ .insert hbatch
    · rename_i db₁ h
      have hdb : db₁ = (store.insertTokens records db).2 := by rw [h]
      exact hdb ▸ .insert hbatch

/-- Every minted record is built from a secret. -/
theorem mintBatch_built {A : SplittableAsset σ ρ} {cfg : ServeConfig}
    {body : Except String MiningReportBody} {rs : List ρ}
    (h : mintBatch A cfg env body = some rs) : ∃ (ss : List σ) (origin : RecordOrigin),
    rs = ss.map (A.recordFromSecret env.now · origin) := by
  obtain ⟨bits, hplan⟩ := mintBatch_eq_some.1 h
  obtain ⟨-, -, ss, -, -, rfl, -⟩ := planMint_ok hplan
  exact ⟨ss, .mined, rfl⟩

theorem issueBatch_built {A : Asset σ ρ} {I : IssuedAsset σ} {check : List σ → Except String Unit}
    {cfg : ServeConfig}
    {req : IssueRequest} {nonces : NonceCache} {rs : List ρ} (h : issueBatch A I check cfg env req nonces = some rs) :
    ∃ (ss : List σ) (origin : RecordOrigin), rs = ss.map (A.recordFromSecret env.now · origin) := by
  obtain ⟨-, -, ss, -, rfl, -, -⟩ := planIssue_ok (Prod.ext (toOption_eq_some.1 h) rfl)
  exact ⟨ss, .replaced, rfl⟩

end

/-! ## Servers -/

/-- A request as it reaches a server, with what DynamoDB does while it is served. -/
structure Call where
  env : RequestEnv
  service : Dynamo.Env
  request : Request

/-- A server of some flavour on a backend: its router, the plans and batches behind it, and that
a request has no effect but those listed. -/
structure LedgerServer (σ ρ : Type) (b : Backend) where
  asset : Asset σ ρ
  keys : KeyStrategy
  chrono : Codec
  serviceError : String
  plan : Call → ReplacePlan b.Db ρ
  burnAmount : σ → I64
  batch : Call → NonceCache → Option (List ρ)
  serve : Call → ServerState b.Db → Response × ServerState b.Db
  planned : ∀ {c req db ns op}, plan c req db = .ok (some (ns, op)) → ∃ ins outs recs,
    Planned asset (b.store (asset.storeConfig keys chrono serviceError) c.env.now c.service) c.env req db ns
      op ins outs recs
  built : ∀ {c nonces rs}, batch c nonces = some rs → ∃ (ss : List σ) (origin : RecordOrigin),
    rs = ss.map (asset.recordFromSecret c.env.now · origin)
  effect : ∀ c s, Effect asset (b.store (asset.storeConfig keys chrono serviceError) c.env.now c.service) c.env
    (plan c) burnAmount (batch c s.nonces) s.db c.request (serve c s).2.db

namespace LedgerServer

variable {σ ρ : Type} {b : Backend} (S : LedgerServer σ ρ b)

def storeConfig : StoreConfig ρ := S.asset.storeConfig S.keys S.chrono S.serviceError

/-- The store a call sees. -/
def store (c : Call) : LedgerStore b.Db ρ := b.store S.storeConfig c.env.now c.service

variable {S}

theorem batch_unspent {c : Call} {nonces : NonceCache} {rs : List ρ} (h : S.batch c nonces = some rs) :
    ∀ r ∈ rs, S.asset.codec.spent r = false := by
  obtain ⟨ss, origin, rfl⟩ := S.built h
  intro r hr
  obtain ⟨x, -, rfl⟩ := List.mem_map.1 hr
  exact S.asset.record_unspent _ _ _

end LedgerServer

section

variable {σ ρ : Type} (keys : KeyStrategy) (chrono : Codec) (serviceError : String) (cfg : ServeConfig) (b : Backend)

/-- `serve`: webcash. -/
def splittableServer (A : SplittableAsset σ ρ) : LedgerServer σ ρ b where
  asset := A.toAsset
  keys := keys
  chrono := chrono
  serviceError := serviceError
  plan c := planReplace A (b.store (A.storeConfig keys chrono serviceError) c.env.now c.service) c.env
  burnAmount s := (A.amount s).wats
  batch c _ :=
    match c.request with
    | .miningReport body => mintBatch A cfg c.env body
    | _ => none
  serve c s := route A cfg (b.store (A.storeConfig keys chrono serviceError) c.env.now c.service) c.env s c.request
  planned h := by
    obtain ⟨ins, outs, recs, hp, -⟩ := planReplace_ok h
    exact ⟨ins, outs, recs, hp⟩
  built h := by
    split at h
    · exact mintBatch_built h
    · cases h
  effect c s := by
    obtain ⟨env, service, q⟩ := c
    cases q with
    | healthCheck order tokens => exact .idle _
    | replace req => exact commitReplace_effect _ req
    | miningReport body => exact miningReport_effect body
    | burn body => exact commitBurn_effect _ body
    | issue req => exact .idle _

/-- `serve_issued`: voucher and RGB20. -/
def issuedServer (A : SplittableAsset σ ρ) (I : IssuedAsset σ) : LedgerServer σ ρ b where
  asset := A.toAsset
  keys := keys
  chrono := chrono
  serviceError := serviceError
  plan c := planReplace A (b.store (A.storeConfig keys chrono serviceError) c.env.now c.service) c.env
  burnAmount s := (A.amount s).wats
  batch c nonces :=
    match c.request with
    | .miningReport body => mintBatch A cfg c.env body
    | .issue req => issueBatch A.toAsset I (requireOneContract I) cfg c.env req nonces
    | _ => none
  serve c s := routeIssued A I cfg (b.store (A.storeConfig keys chrono serviceError) c.env.now c.service)
    c.env s c.request
  planned h := by
    obtain ⟨ins, outs, recs, hp, -⟩ := planReplace_ok h
    exact ⟨ins, outs, recs, hp⟩
  built h := by
    split at h
    · exact mintBatch_built h
    · exact issueBatch_built h
    · cases h
  effect c s := by
    obtain ⟨env, service, q⟩ := c
    cases q with
    | healthCheck order tokens => exact .idle _
    | replace req => exact commitReplace_effect _ req
    | miningReport body => exact miningReport_effect body
    | burn body => exact commitBurn_effect _ body
    | issue req => exact commitIssue_effect _ req s.nonces

theorem issuedServer_keys (A : SplittableAsset σ ρ) (I : IssuedAsset σ) :
    (issuedServer keys chrono serviceError cfg b A I).keys = keys := rfl

/-- `serve_collectible`: RGB21. -/
def collectibleServer (A : CollectibleAsset σ ρ) (I : IssuedAsset σ)
    (hI : ∀ s, A.namespaceEnvelope s = envelopeOf (I.contractId s) (I.issuer s)) : LedgerServer σ ρ b where
  asset := A.toAsset
  keys := keys
  chrono := chrono
  serviceError := serviceError
  plan c := planReplaceCollectible A I (b.store (A.storeConfig keys chrono serviceError) c.env.now c.service) c.env
  burnAmount _ := 0
  batch c nonces :=
    match c.request with
    | .issue req => issueBatch A.toAsset I (fun _ => .ok ()) cfg c.env req nonces
    | _ => none
  serve c s := routeCollectible A I cfg (b.store (A.storeConfig keys chrono serviceError) c.env.now c.service)
    c.env s c.request
  planned h := by
    obtain ⟨input, output, rec₀, hp⟩ := planReplaceCollectible_ok hI h
    exact ⟨_, _, _, hp⟩
  built h := by
    split at h
    · exact issueBatch_built h
    · cases h
  effect c s := by
    obtain ⟨env, service, q⟩ := c
    cases q with
    | healthCheck order tokens => exact .idle _
    | replace req => exact commitReplace_effect _ req
    | miningReport body => exact .idle _
    | burn body => exact commitBurn_effect _ body
    | issue req => exact commitIssue_effect _ req s.nonces

theorem collectibleServer_keys (A : CollectibleAsset σ ρ) (I : IssuedAsset σ)
    (hI : ∀ s, A.namespaceEnvelope s = envelopeOf (I.contractId s) (I.issuer s)) :
    (collectibleServer keys chrono serviceError cfg b A I hI).keys = keys := rfl

end

end Webycash
