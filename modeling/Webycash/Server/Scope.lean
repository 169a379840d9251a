import Webycash.Lib.Run
import Webycash.Server.Mint
import Webycash.Server.Nonces
import Webycash.Storage.Frame
/-!
# Namespaces do not interfere

A request whose tokens all lie in one namespace changes records of that namespace only. With
`NamespacedKeys` no other namespace, and no other asset in the same database, has a key in
common with it, so nothing that is asked about them is answered differently afterwards
(`namespaces_do_not_interfere`). `WebcashLegacyKeys` has one set of keys for all namespaces.
-/

namespace Webycash

/-- The tokens a request spells out. -/
def Request.tokens : Request → List String
  | .replace ⟨.ok body, _⟩ => body.webcashes ++ body.newWebcashes
  | .burn (.ok body) => [body.webcash]
  | .issue ⟨_, _, .ok body⟩ => body.outputs
  | _ => []

section

variable {σ ρ : Type}

/-- The request is no mining report, and its tokens, as far as they parse, lie in the namespace. -/
def Request.Confined (A : Asset σ ρ) (ns : Namespace) (q : Request) : Prop :=
  (∀ body, q ≠ .miningReport body) ∧
    ∀ t ∈ q.tokens, ∀ s, A.parseSecret t = .ok s → Namespace.ofEnvelope (A.namespaceEnvelope s) = ns

/-- A server whose keys carry the namespace, and whose issuances insert what they list. -/
structure ScopedServer (σ ρ : Type) (b : Backend) extends LedgerServer σ ρ b where
  namespaced : keys = .namespacedKeys
  name_plain : ':' ∉ asset.name.toList
  listed : ∀ {c nonces rs}, batch c nonces = some rs → (∀ body, c.request ≠ .miningReport body) →
    ∃ (ss : List σ) (origin : RecordOrigin), rs = ss.map (asset.recordFromSecret c.env.now · origin) ∧
      ∀ s ∈ ss, ∃ t ∈ c.request.tokens, asset.parseSecret t = .ok s

theorem issueBatch_listed {A : Asset σ ρ} {I : IssuedAsset σ} {check : List σ → Except String Unit}
    {cfg : ServeConfig} {env : RequestEnv} {req : IssueRequest} {nonces : NonceCache} {rs : List ρ}
    (h : issueBatch A I check cfg env req nonces = some rs) :
    ∃ (ss : List σ) (origin : RecordOrigin), rs = ss.map (A.recordFromSecret env.now · origin) ∧
      ∀ s ∈ ss, ∃ t ∈ (Request.issue req).tokens, A.parseSecret t = .ok s := by
  obtain ⟨issuer, parsed, ss, hauth, rfl, hparse, -⟩ := planIssue_ok (Prod.ext (toOption_eq_some.1 h) rfl)
  obtain ⟨sig, raw, body⟩ := req
  obtain rfl : body = .ok parsed := (authorise_ok hauth).1
  exact ⟨ss, .replaced, rfl, fun s hs => mem_of_parsed hparse hs⟩

section

variable (chrono : Codec) (serviceError : String) (cfg : ServeConfig) (b : Backend)

def scopedSplittable (A : SplittableAsset σ ρ) (hname : ':' ∉ A.name.toList) : ScopedServer σ ρ b where
  toLedgerServer := splittableServer .namespacedKeys chrono serviceError cfg b A
  namespaced := rfl
  name_plain := hname
  listed h hmint := by
    dsimp only [splittableServer] at h
    split at h
    · rename_i body hq
      exact absurd hq (hmint body)
    · cases h

def scopedIssued (A : SplittableAsset σ ρ) (I : IssuedAsset σ) (hname : ':' ∉ A.name.toList) :
    ScopedServer σ ρ b where
  toLedgerServer := issuedServer .namespacedKeys chrono serviceError cfg b A I
  namespaced := issuedServer_keys ..
  name_plain := hname
  listed h hmint := by
    dsimp only [issuedServer] at h
    split at h
    · rename_i body hq
      exact absurd hq (hmint body)
    · rename_i req hq
      rw [hq]
      exact issueBatch_listed h
    · cases h

def scopedCollectible (A : CollectibleAsset σ ρ) (I : IssuedAsset σ)
    (hI : ∀ s, A.namespaceEnvelope s = envelopeOf (I.contractId s) (I.issuer s)) (hname : ':' ∉ A.name.toList) :
    ScopedServer σ ρ b where
  toLedgerServer := collectibleServer .namespacedKeys chrono serviceError cfg b A I hI
  namespaced := collectibleServer_keys ..
  name_plain := hname
  listed h hmint := by
    dsimp only [collectibleServer] at h
    split at h
    · rename_i req hq
      rw [hq]
      exact issueBatch_listed h
    · cases h

end

namespace ScopedServer

variable {b : Backend} {S : ScopedServer σ ρ b} {c : Call} {s : ServerState b.Db} {ns ns' : Namespace} {k : String}

/-- The namespace of a confined replace is the one its tokens name, if it has any. -/
theorem planned_namespace {store : LedgerStore b.Db ρ} {req : ReplaceRequest} {op : ReplaceOp ρ}
    {ins outs : List σ} {recs : List ρ}
    (hc : (Request.replace req).Confined S.asset ns) (hp : Planned S.asset store c.env req s.db ns' op ins outs recs)
    {x : σ} (hx : x ∈ ins ++ outs) : ns' = ns := by
  obtain ⟨parsed, hbody, hins, houts⟩ := hp.tokens
  obtain ⟨t, ht, hparse⟩ := mem_of_parsed (List.rel_append hins houts) hx
  obtain ⟨body, hook⟩ := req
  obtain rfl : body = .ok parsed := hbody
  rw [← hp.namespaces x hx]
  exact hc.2 t ht x hparse

/-- **One request.** It changes records of its namespace only. -/
theorem changed_of_confined (hc : c.request.Confined S.asset ns) (h : ¬ b.AgreeAt s.db (S.serve c s).2.db k) :
    ∃ x, k = S.storeConfig.tokenKey ns x := by
  have hbatch : ∀ {rs}, S.batch c s.nonces = some rs → k ∈ rs.map S.storeConfig.recordKey →
      ∃ x, k = S.storeConfig.tokenKey ns x := by
    intro rs hrs hmem
    obtain ⟨ss, origin, rfl, hlisted⟩ := S.listed hrs hc.1
    rw [List.map_map] at hmem
    obtain ⟨x, hx, rfl⟩ := List.mem_map.1 hmem
    obtain ⟨t, ht, hparse⟩ := hlisted x hx
    refine ⟨S.storeConfig.codec.publicHash (S.asset.recordFromSecret c.env.now x origin), ?_⟩
    rw [← hc.2 t ht x hparse, ← S.asset.record_namespace c.env.now x origin]
    rfl
  have heff := S.effect c s
  generalize hq : c.request = q at heff
  rw [hq] at hc
  generalize (S.serve c s).2.db = db' at heff h
  cases heff with
  | idle => exact absurd (Backend.agreeAt_refl _ _) h
  | @exchange req ns' op hplan =>
    obtain ⟨ins, outs, recs, hp⟩ := S.planned hplan
    rcases (Backend.replace_changed hp.outputs_namespace h).2 with hmem | ⟨hmem, -⟩
    · obtain ⟨x, hin, rfl⟩ := List.mem_map.1 hmem
      rw [hp.inputs] at hin
      obtain ⟨y, hy, rfl⟩ := List.mem_map.1 hin
      obtain rfl := planned_namespace hc hp (List.mem_append_left _ hy)
      exact ⟨_, rfl⟩
    · obtain ⟨o, ho, rfl⟩ := List.mem_map.1 hmem
      obtain ⟨-, -, y, hy, -⟩ := hp.outputs_spec o ho
      obtain rfl := planned_namespace hc hp (List.mem_append_right _ hy)
      exact ⟨_, rfl⟩
  | @burn body ns' hash record hplan =>
    obtain ⟨parsed, x, rfl, hparse, rfl, rfl⟩ := planBurn_ok hplan
    rw [hc.2 parsed.webcash (List.mem_singleton_self _) x hparse] at h
    exact ⟨_, (Backend.burn_changed h).1⟩
  | insert hrs => exact hbatch hrs (Backend.insert_changed h)
  | mint state hrs => exact hbatch hrs (Backend.mint_changed h)

/-- What is asked about another namespace, or about any namespace of another asset, is answered
as before the request. -/
def Isolated (S : ScopedServer σ ρ b) : Prop :=
  ∀ (c : Call) (s : ServerState b.Db) (ns ns' : Namespace), ns.WellFormed → ns'.WellFormed →
    c.request.Confined S.asset ns →
    ∀ {τ : Type} (reader : StoreConfig τ), reader.keys = .namespacedKeys → ':' ∉ reader.name.toList →
      (reader.name = S.asset.name → ns ≠ ns') → ∀ (now : DateTime) (service : Dynamo.Env)
        (hashes : List String),
        (b.store reader now service).getTokens ns' hashes (S.serve c s).2.db =
          (b.store reader now service).getTokens ns' hashes s.db ∧
        (b.store reader now service).checkTokens ns' hashes (S.serve c s).2.db =
          (b.store reader now service).checkTokens ns' hashes s.db

theorem isolated (S : ScopedServer σ ρ b) : S.Isolated := by
  intro c s ns ns' hns hns' hc τ reader hkeys hname hne now service hashes
  refine Backend.reads_congr (fun x => not_not.1 fun hchanged => ?_) hashes
  obtain ⟨h, he⟩ := changed_of_confined hc hchanged
  rw [StoreConfig.tokenKey, StoreConfig.tokenKey, hkeys, show S.storeConfig.keys =
    .namespacedKeys from S.namespaced] at he
  have hroles : KeyStrategy.namespacedKeys.roleKey reader.name ns' .token x =
      KeyStrategy.namespacedKeys.roleKey S.asset.name ns .token h := he
  rw [KeyStrategy.roleKey_inj hname S.name_plain hns' hns] at hroles
  rcases hroles.2.2 with hmining | ⟨hsame, -⟩
  · cases hmining
  · exact hne hroles.1 hsame.symm

/-- A request of one namespace is served. -/
def ConfinedStep (S : ScopedServer σ ρ b) (ns : Namespace) (s : ServerState b.Db) (c : Call)
    (s' : ServerState b.Db) : Prop :=
  s' = (S.serve c s).2 ∧ c.request.Confined S.asset ns

/-- **Whole runs.** However long a namespace is worked on, the others do not notice. -/
theorem isolated_run {s s' : ServerState b.Db} {calls : List Call} (hns : ns.WellFormed) (hns' : ns'.WellFormed)
    (hne : ns ≠ ns')
    (h : Run (S.ConfinedStep ns) s calls s') (now : DateTime) (service : Dynamo.Env) (hashes : List String) :
    (b.store S.storeConfig now service).getTokens ns' hashes s'.db =
      (b.store S.storeConfig now service).getTokens ns' hashes s.db := by
  refine Run.const (f := fun s => (b.store S.storeConfig now service).getTokens ns' hashes s.db) ?_ h
  rintro s c _ ⟨rfl, hc⟩
  exact (S.isolated c s ns ns' hns hns' hc S.storeConfig S.namespaced S.name_plain (fun _ => hne) now service hashes).1

end ScopedServer

end

/-! ## The four flavours -/

section

variable (chrono : Codec) (json : HtlcJson) (serviceError : String) (cfg : ServeConfig) (b : Backend)

def scopedWebcash : ScopedServer SecretWebcash WebcashRecord b :=
  scopedSplittable chrono serviceError cfg b (webcash chrono) (show ':' ∉ "webcash".toList by decide)

def scopedVoucher : ScopedServer SecretIssued VoucherRecord b :=
  scopedIssued chrono serviceError cfg b (voucher chrono) issuedSecrets (show ':' ∉ "voucher".toList by decide)

def scopedRgb20 : ScopedServer SecretIssued RgbFungibleRecord b :=
  scopedIssued chrono serviceError cfg b (rgbFungible chrono json) issuedSecrets
    (show ':' ∉ "rgb-fungible".toList by decide)

def scopedRgb21 : ScopedServer SecretCollectible RgbCollectibleRecord b :=
  scopedCollectible chrono serviceError cfg b (rgbCollectible chrono json) collectibleSecrets
    (rgbCollectible_enveloped chrono json) (show ':' ∉ "rgb-collectible".toList by decide)

/-- `A::NAME` of each flavour. -/
def assetNames : List String :=
  [(webcash chrono).name, (voucher chrono).name, (rgbFungible chrono json).name, (rgbCollectible chrono json).name]

theorem assetNames_plain : ∀ a ∈ assetNames chrono json, ':' ∉ a.toList ∧ a ∉ KeyStrategy.legacyHeads := by
  simp only [assetNames, webcash, voucher, rgbFungible, rgbCollectible]
  decide

/-- **Namespaces do not interfere.** With `NamespacedKeys`, for each of the four flavours and on
every backend, a request whose tokens lie in one namespace changes no answer about another
namespace, nor about any namespace of another asset. Two keys of the strategy are equal only if
asset and role are, and, the mining state apart, namespace and id as well; none is a key of
`WebcashLegacyKeys`, for which all namespaces are one. -/
theorem namespaces_do_not_interfere :
    ((scopedWebcash chrono serviceError cfg b).Isolated ∧ (scopedVoucher chrono serviceError cfg b).Isolated ∧
      (scopedRgb20 chrono json serviceError cfg b).Isolated ∧
        (scopedRgb21 chrono json serviceError cfg b).Isolated) ∧
    (∀ a ∈ assetNames chrono json, ∀ a' ∈ assetNames chrono json, ∀ ns ns' : Namespace, ns.WellFormed →
      ns'.WellFormed →
      ∀ (r r' : KeyRole) (id id' : String),
        (KeyStrategy.namespacedKeys.roleKey a ns r id = KeyStrategy.namespacedKeys.roleKey a' ns' r' id' ↔
          a = a' ∧ r = r' ∧ (r = .miningState ∨ (ns = ns' ∧ id = id'))) ∧
        KeyStrategy.namespacedKeys.roleKey a ns r id ≠ KeyStrategy.webcashLegacyKeys.roleKey a' ns' r' id') ∧
    (∀ {ρ : Type} (store : StoreConfig ρ), store.keys = .webcashLegacyKeys →
      ∀ (ns ns' : Namespace) (now : DateTime)
      (service : Dynamo.Env) (hashes : List String) (db : b.Db),
        (b.store store now service).getTokens ns hashes db = (b.store store now service).getTokens ns' hashes db ∧
        (b.store store now service).checkTokens ns hashes db =
          (b.store store now service).checkTokens ns' hashes db) := by
  refine ⟨⟨ScopedServer.isolated _, ScopedServer.isolated _, ScopedServer.isolated _,
    ScopedServer.isolated _⟩, ?_, ?_⟩
  · intro a ha a' ha' ns ns' hns hns' r r' id id'
    have hplain := assetNames_plain chrono json
    exact ⟨KeyStrategy.roleKey_inj (hplain a ha).1 (hplain a' ha').1 hns hns',
      KeyStrategy.roleKey_ne_legacy (hplain a ha).1 (hplain a ha).2⟩
  · rintro ρ ⟨name, keys, codec, chrono, serviceError⟩ hkeys ns ns' now service hashes db
    obtain rfl : keys = .webcashLegacyKeys := hkeys
    cases b <;> exact ⟨rfl, rfl⟩

end

namespace Sample

/-- The namespace of the voucher issuer. -/
def cafeNs : Namespace := .scopedTo ⟨"cafe-2026"⟩ cafe

theorem cafeNs_wellFormed : cafeNs.WellFormed :=
  Or.inr ⟨_, _, rfl, List.all_eq_true.1 (by decide +kernel), by decide +kernel,
    List.all_eq_true.1 (by decide +kernel)⟩

def afterMineA : ServerState Redis.Db := ((webcashServer .redis).serve mineA ⟨.default, .empty⟩).2

def publicA : String := sha256HexOfAscii (hex 'a')

/-- The voucher server, a voucher issued there, and its burn. -/
def voucherServer : ScopedServer SecretIssued VoucherRecord .redis :=
  scopedVoucher .atEpoch "service error" issuerConfig .redis

def issueCall : Call := ⟨env, .calm, .issue issueRequest⟩

def burnVoucher : Call := ⟨env, .calm, .burn (.ok ⟨voucherToken "1" 'a', some true⟩)⟩

def afterIssue : ServerState Redis.Db := (voucherServer.serve issueCall ⟨.default, .empty⟩).2

end Sample

open Sample

/-- The burn of an unscoped webcash token is seen in a scoped namespace: legacy keys have no room
for one. And the mining state has one key for all namespaces, also among `NamespacedKeys`. -/
theorem legacy_namespaces_shared :
    Namespace.unscoped.WellFormed ∧ cafeNs.WellFormed ∧ Namespace.unscoped ≠ cafeNs ∧
    burnA.request.Confined (webcashServer .redis).asset .unscoped ∧
    Redis.checkTokens (webcashServer .redis).storeConfig cafeNs [publicA] afterMineA.db =
      .ok [(publicA, some false)] ∧
    Redis.checkTokens (webcashServer .redis).storeConfig cafeNs [publicA]
      ((webcashServer .redis).serve burnA afterMineA).2.db = .ok [(publicA, some true)] ∧
    Redis.getTokens (webcashServer .redis).storeConfig ⟨0⟩ cafeNs [publicA]
      ((webcashServer .redis).serve burnA afterMineA).2.db ≠
      Redis.getTokens (webcashServer .redis).storeConfig ⟨0⟩ cafeNs [publicA] afterMineA.db ∧
    KeyStrategy.namespacedKeys.roleKey "voucher" cafeNs .miningState "a" =
      KeyStrategy.namespacedKeys.roleKey "voucher" .unscoped .miningState "b" := by
  have hconf : burnA.request.Confined (webcashServer .redis).asset .unscoped := ⟨nofun, fun _ _ _ _ => rfl⟩
  have hrun : Redis.checkTokens (webcashServer .redis).storeConfig cafeNs [publicA] afterMineA.db =
    .ok [(publicA, some false)] ∧
      Redis.checkTokens (webcashServer .redis).storeConfig cafeNs [publicA]
        ((webcashServer .redis).serve burnA afterMineA).2.db = .ok [(publicA, some true)] ∧
      Redis.getTokens (webcashServer .redis).storeConfig ⟨0⟩ cafeNs [publicA]
          ((webcashServer .redis).serve burnA afterMineA).2.db ≠
        Redis.getTokens (webcashServer .redis).storeConfig ⟨0⟩ cafeNs [publicA] afterMineA.db := by decide +kernel
  exact And.intro (Or.inl rfl) (And.intro cafeNs_wellFormed (And.intro (by decide) (And.intro hconf
    (And.intro hrun.1 (And.intro hrun.2.1 (And.intro hrun.2.2 rfl))))))

/-- A voucher is issued and burned; the unscoped namespace does not notice. -/
theorem voucher_burn_isolated :
    (voucherServer.serve burnVoucher afterIssue).1 = success ∧
    (Redis.store voucherServer.storeConfig ⟨0⟩).checkTokens .unscoped
      [publicA] (voucherServer.serve burnVoucher afterIssue).2.db =
      (Redis.store voucherServer.storeConfig ⟨0⟩).checkTokens .unscoped [publicA] afterIssue.db ∧
    KeyStrategy.namespacedKeys.roleKey "voucher" cafeNs .token "h" ≠
      KeyStrategy.webcashLegacyKeys.roleKey "voucher" cafeNs .burn "h" := by
  have hrun : (voucherServer.serve burnVoucher afterIssue).1 = success := by decide +kernel
  have hconf : burnVoucher.request.Confined voucherServer.asset cafeNs := by
    refine ⟨nofun, fun t ht x hx => ?_⟩
    obtain rfl : t = voucherToken "1" 'a' := List.mem_singleton.1 ht
    have hparse : ((voucher .atEpoch).parseSecret (voucherToken "1" 'a')).map
        (fun x => Namespace.ofEnvelope ((voucher .atEpoch).namespaceEnvelope x)) = .ok cafeNs := by decide +kernel
    rw [show (voucher .atEpoch).parseSecret (voucherToken "1" 'a') = .ok x from hx] at hparse
    exact Except.ok.inj hparse
  have hall := namespaces_do_not_interfere .atEpoch (.ofState ⟨"", 0, "", ""⟩) "service error" issuerConfig .redis
  have hreads := hall.1.2.1 burnVoucher afterIssue cafeNs .unscoped cafeNs_wellFormed (Or.inl rfl) hconf
    voucherServer.storeConfig rfl (by decide) (fun _ => by decide) ⟨0⟩ .calm [publicA]
  exact And.intro hrun (And.intro hreads.2 (hall.2.1 "voucher" (by simp [assetNames, voucher]) "voucher"
    (by simp [assetNames, voucher]) cafeNs cafeNs cafeNs_wellFormed cafeNs_wellFormed .token .burn "h" "h").2)

end Webycash
