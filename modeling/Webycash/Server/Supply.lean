import Webycash.Lib.Census
import Webycash.Server.AuditTrail
import Webycash.Server.Issuance
import Webycash.Server.Provenance
/-!
# A collectible is never multiplied

A replace of the collectible router takes one token and makes one. So whatever is sent to it, and
whatever is refused half-way, the unspent records of a namespace are, with the burned ones, never
more than the records its issuer has signed for: `collectible_never_multiplied`, over whole runs
from an empty ledger. No amounts are compared, so nothing is needed about them.
-/

namespace Webycash

/-- A server of a collectible: a replace takes one token for one, and records come in by issuance
alone. -/
structure CollectibleServer (σ ρ : Type) (cfg : ServeConfig) (b : Backend) extends IssuerServer σ ρ cfg b,
    AuditedServer σ ρ b where
  single : ∀ {c req db ns op}, plan c req db = .ok (some (ns, op)) → op.inputs.length = 1 ∧ op.outputs.length = 1
  issuance : ∀ {c nonces rs}, batch c nonces = some rs → ∃ req issuer parsed ss, c.request = .issue req ∧
    authorise cfg req = .ok (issuer, parsed) ∧ rs = ss.map (asset.recordFromSecret c.env.now · .replaced) ∧
    List.Forall₂ (fun t s => asset.parseSecret t = .ok s) parsed.outputs ss ∧ ∀ s ∈ ss, issued.issuer s = issuer

section

variable {σ ρ : Type} (chrono : Codec) (serviceError : String) (cfg : ServeConfig) (b : Backend)

/-- `serve_collectible` over `NamespacedKeys`. -/
def singleCollectible (A : CollectibleAsset σ ρ) (I : IssuedAsset σ)
    (hI : ∀ s, A.namespaceEnvelope s = envelopeOf (I.contractId s) (I.issuer s)) : CollectibleServer σ ρ cfg b where
  toIssuerServer := issuerCollectible chrono serviceError cfg b A I hI
  noResult := (auditedCollectible .namespacedKeys chrono serviceError cfg b A I hI).noResult
  recorded := (auditedCollectible .namespacedKeys chrono serviceError cfg b A I hI).recorded
  replaces := (auditedCollectible .namespacedKeys chrono serviceError cfg b A I hI).replaces
  burns := (auditedCollectible .namespacedKeys chrono serviceError cfg b A I hI).burns
  mints := (auditedCollectible .namespacedKeys chrono serviceError cfg b A I hI).mints
  single h := by
    obtain ⟨input, output, rec₀, hp⟩ := planReplaceCollectible_ok hI h
    have hout := congrArg List.length hp.outputs
    rw [List.length_map, List.length_map] at hout
    rw [hp.inputs]
    exact ⟨rfl, hout⟩
  issuance {c nonces rs} h := by
    obtain ⟨env, service, q⟩ := c
    cases q with
    | issue req =>
      obtain ⟨issuer, parsed, ss, hissue⟩ := planIssue_ok (Prod.ext (toOption_eq_some.1 h) rfl)
      exact ⟨req, issuer, parsed, ss, rfl, hissue⟩
    | healthCheck _ _ => cases h
    | replace _ => cases h
    | miningReport _ => cases h
    | burn _ => cases h

end

namespace CollectibleServer

variable {σ ρ : Type} {cfg : ServeConfig} {b : Backend} (S : CollectibleServer σ ρ cfg b)

/-- How many records of the namespace the request brings in, if the store takes them. -/
def brings (ns : Namespace) (c : Call) (s : ServerState b.Db) : Nat :=
  ((S.batch c s.nonces).getD []).countP fun r => S.asset.codec.namespaceOf r = ns

/-- The namespace of the token that a burn names. -/
def burnScope (c : Call) : Option Namespace :=
  match c.request with
  | .burn body => (planBurn S.asset S.burnAmount c.env body).toOption.map Prod.fst
  | _ => none

/-- How many tokens of the namespace are burned. -/
def burned (ns : Namespace) (c : Call) (s : ServerState b.Db) : Nat :=
  if S.burnScope c = some ns ∧ (S.serve c s).1 = success then 1 else 0

/-- The sum of a quantity over the requests of a run. -/
def total (f : Call → ServerState b.Db → Nat) : ServerState b.Db → List Call → Nat
  | _, [] => 0
  | s, c :: calls => f c s + total f (S.serve c s).2 calls

/-- The key is one of the namespace. -/
def InScope (ns : Namespace) (k : String) : Prop := ∃ hash, k = S.storeConfig.tokenKey ns hash

variable {S} {c : Call} {s : ServerState b.Db} {contract : ContractId} {fp : PgpFingerprint} {gone supply : Nat}

/-- What is brought in was signed for by the issuer of the namespace. -/
theorem signedBy_of_brings (h : S.brings (.scopedTo contract fp) c s ≠ 0) : ∃ req, c.request = .issue req ∧
    SignedBy cfg req fp := by
  obtain ⟨r, hr, hns⟩ := List.countP_pos_iff.1 (Nat.pos_of_ne_zero h)
  cases hbatch : S.batch c s.nonces with
  | none => simp [hbatch] at hr
  | some rs =>
    obtain ⟨req, issuer, parsed, ss, hq, hauth, rfl, -, hissuer⟩ := S.issuance hbatch
    rw [hbatch, Option.getD_some] at hr
    obtain ⟨x, hx, rfl⟩ := List.mem_map.1 hr
    have hscope : Namespace.ofEnvelope (S.asset.namespaceEnvelope x) = .scopedTo contract fp := by
      rw [← S.asset.record_namespace c.env.now x .replaced]
      simpa using hns
    rw [S.enveloped] at hscope
    have hfp : S.issued.issuer x = fp := congrArg PgpFingerprint.mk (congrArg Namespace.issuerText hscope)
    refine ⟨req, hq, ?_⟩
    rw [← hfp, hissuer x hx]
    exact (authorise_ok hauth).2

/-! ## One request -/

/-- A burn opens nothing. -/
theorem open_before_burn {ns : Namespace} {hash k : String} {record : BurnRecord}
    (h : b.seals ((S.store c).batchBurn ns [(hash, record)] s.db).2 k = some false) : b.seals s.db k = some false := by
  by_cases hagree : b.AgreeAt s.db ((S.store c).batchBurn ns [(hash, record)] s.db).2 k
  · exact hagree.seals.symm.trans h
  · obtain ⟨hkey, hcloses⟩ : k = S.storeConfig.tokenKey ns hash ∧ (b.seals s.db).Closes
        (b.seals ((S.store c).batchBurn ns [(hash, record)] s.db).2) [S.storeConfig.tokenKey ns hash] :=
          Backend.burn_changed hagree
    rw [(hcloses k (List.mem_singleton.2 hkey)).2] at h
    cases h

/-- A burned token was open. -/
theorem within_burned (h : Seals.Within (S.InScope (.scopedTo contract fp)) (b.seals s.db) gone supply)
    (hburn : S.burnScope c = some (.scopedTo contract fp)) (hok : (S.serve c s).1 = success) :
    Seals.Within (S.InScope (.scopedTo contract fp)) (b.seals (S.serve c s).2.db) (gone + 1) supply := by
  unfold burnScope at hburn
  split at hburn
  swap
  · cases hburn
  rename_i body hq
  obtain ⟨⟨ns, hash, record⟩, hplan, hns⟩ := Option.map_eq_some_iff.1 hburn
  obtain rfl : ns = .scopedTo contract fp := hns
  obtain ⟨hdb, hans⟩ := AuditedServer.serve_burn (S := S.toAuditedServer) (s := s) hq (toOption_eq_some.1 hplan)
  have hspends : Seals.Spends (b.seals s.db)
    (b.seals ((S.store c).batchBurn (.scopedTo contract fp) [(hash, record)] s.db).2)
      [S.storeConfig.tokenKey (.scopedTo contract fp) hash] (decide (((S.store c).batchBurn (.scopedTo contract fp)
        [(hash, record)] s.db).1 = .ok ())) := Backend.burn_close hash record
  rw [hdb]
  refine h.step [S.storeConfig.tokenKey (.scopedTo contract fp) hash] [] (List.nodup_singleton _) ?_
    (hspends.opened (decide_eq_true (hans.1 hok))) ?_ ?_ ?_
  · intro k hk
    exact ⟨hash, List.mem_singleton.1 hk⟩
  · intro k hk
    rw [(hspends.closed k).2 (Or.inr ⟨decide_eq_true (hans.1 hok), hk⟩)]
    simp
  · intro k _ hk
    exact Or.inl (open_before_burn hk)
  · simp only [List.length_nil, List.length_singleton]
    omega

/-- A key of the namespace that was written for a parsed token is of that namespace. -/
theorem scope_of_written {ns : Namespace} {key hash : String} (hplain : KeyStrategy.PlainNamespace ns)
    (hh : ':' ∉ hash.toList) {x : σ}
    (hx : Namespace.ofEnvelope (S.asset.namespaceEnvelope x) = ns) (hkey : S.InScope (.scopedTo contract fp) key)
    (he : key = S.storeConfig.tokenKey ns hash) : ns = .scopedTo contract fp := by
  obtain ⟨hash', rfl⟩ := hkey
  exact IssuerServer.scope_of_key (S := S.toIssuerServer) hplain hh hx.symm he

/-- The batch of an issuance pays for what it opens. -/
theorem within_inserted (h : Seals.Within (S.InScope (.scopedTo contract fp)) (b.seals s.db) gone supply)
    {rs : List ρ} {db' : b.Db} (hbatch : S.batch c s.nonces = some rs)
    (hchanged : ∀ k, ¬ b.AgreeAt s.db db' k → k ∈ rs.map S.storeConfig.recordKey) :
    Seals.Within (S.InScope (.scopedTo contract fp)) (b.seals db') gone
      (supply + S.brings (.scopedTo contract fp) c s) := by
  refine h.step [] ((rs.filter fun r => S.asset.codec.namespaceOf r = .scopedTo contract fp).map
    S.storeConfig.recordKey) .nil
    (by simp) (by simp [Seals.Open]) (by simp) (fun k hscope hk => ?_) ?_
  · by_cases hagree : b.AgreeAt s.db db' k
    · exact Or.inl (hagree.seals.symm.trans hk)
    · obtain ⟨r, hr, he⟩ := List.mem_map.1 (hchanged _ hagree)
      refine Or.inr (List.mem_map.2 ⟨r, List.mem_filter.2 ⟨hr, ?_⟩, he⟩)
      obtain ⟨req, issuer, parsed, ss, -, -, rfl, hparse, -⟩ := S.issuance hbatch
      obtain ⟨x, hx, rfl⟩ := List.mem_map.1 hr
      obtain ⟨t, -, htx⟩ := mem_of_parsed hparse hx
      have hns := S.asset.record_namespace c.env.now x .replaced
      have hhash := S.asset.record_hash c.env.now x .replaced
      have hkey : k = S.storeConfig.tokenKey (.ofEnvelope (S.asset.namespaceEnvelope x)) (S.asset.publicHash x) := by
        rw [← he, ← hns, ← hhash]
        rfl
      have hscope' := scope_of_written (S.asset.parse_plain htx) (S.asset.hash_plain x) rfl hscope hkey
      simpa [hns] using hscope'
  · rw [brings, hbatch, Option.getD_some, List.length_map, List.countP_eq_length_filter]
    simp only [List.length_nil]
    omega

/-- A replace takes one token of its namespace for one. -/
theorem within_exchanged (h : Seals.Within (S.InScope (.scopedTo contract fp)) (b.seals s.db) gone supply)
    {req : ReplaceRequest} {ns : Namespace} {op : ReplaceOp ρ} (hplan : S.plan c req s.db = .ok (some (ns, op))) :
    Seals.Within (S.InScope (.scopedTo contract fp))
      (b.seals ((S.store c).batchReplace ns [op] s.db).2) gone supply := by
  obtain ⟨ins, outs, recs, hp⟩ := S.planned hplan
  have hchanged : ∀ k, ¬ b.AgreeAt s.db ((S.store c).batchReplace ns [op] s.db).2 k →
      (b.seals s.db).Closes (b.seals ((S.store c).batchReplace ns [op] s.db).2) (inputKeys S.storeConfig ns op) ∧
      (k ∈ inputKeys S.storeConfig ns op ∨ (k ∈ outputKeys S.storeConfig ns op ∧ b.seals s.db k = none)) :=
    fun k hk => Backend.replace_changed hp.outputs_namespace hk
  by_cases hall : ∀ k, S.InScope (.scopedTo contract fp) k →
    b.AgreeAt s.db ((S.store c).batchReplace ns [op] s.db).2 k
  · exact h.mono fun k hscope hk => (hall k hscope).seals.symm.trans hk
  -- something in the namespace changes, so the request is one of the namespace, and its input is spent
  simp only [not_forall] at hall
  obtain ⟨k₀, hscope₀, hne₀⟩ := hall
  obtain ⟨hcloses, hwhere⟩ := hchanged k₀ hne₀
  obtain rfl : ns = .scopedTo contract fp := by
    rcases hwhere with hin | ⟨hout, -⟩
    · obtain ⟨hash, hhash, rfl⟩ := List.mem_map.1 hin
      rw [hp.inputs] at hhash
      obtain ⟨x, hx, rfl⟩ := List.mem_map.1 hhash
      exact scope_of_written hp.plain (S.asset.hash_plain x) (hp.namespaces x (List.mem_append_left _ hx)) hscope₀ rfl
    · obtain ⟨o, ho, rfl⟩ := List.mem_map.1 hout
      obtain ⟨-, hh, x, hx, -⟩ := hp.outputs_spec o ho
      exact scope_of_written hp.plain hh (hp.namespaces x (List.mem_append_right _ hx)) hscope₀ rfl
  obtain ⟨hone, hone'⟩ := S.single hplan
  obtain ⟨i, hi⟩ := List.length_eq_one_iff.1 hone
  refine h.step (inputKeys S.storeConfig (.scopedTo contract fp) op)
    (outputKeys S.storeConfig (.scopedTo contract fp) op) ?_ ?_ (fun k hk => (hcloses k hk).1) ?_ ?_ ?_
  · rw [inputKeys, hi]
    exact List.nodup_singleton _
  · intro k hk
    obtain ⟨hash, -, rfl⟩ := List.mem_map.1 hk
    exact ⟨hash, rfl⟩
  · intro k hk
    rw [(hcloses k hk).2]
    simp
  · intro k _ hk
    by_cases hagree : b.AgreeAt s.db ((S.store c).batchReplace (.scopedTo contract fp) [op] s.db).2 k
    · exact Or.inl (hagree.seals.symm.trans hk)
    · rcases (hchanged k hagree).2 with hin | ⟨hout, -⟩
      · rw [(hcloses k hin).2] at hk
        cases hk
      · exact Or.inr hout
  · rw [inputKeys, outputKeys, List.length_map, List.length_map, hone, hone']

/-- **One request** keeps the bound. -/
theorem within_serve (h : Seals.Within (S.InScope (.scopedTo contract fp)) (b.seals s.db) gone supply) :
    Seals.Within (S.InScope (.scopedTo contract fp)) (b.seals (S.serve c s).2.db)
      (gone + S.burned (.scopedTo contract fp) c s) (supply + S.brings (.scopedTo contract fp) c s) := by
  by_cases hburn : S.burnScope c = some (.scopedTo contract fp) ∧ (S.serve c s).1 = success
  · rw [burned, if_pos hburn]
    exact (within_burned h hburn.1 hburn.2).weaken (Nat.le_add_right _ _)
  rw [burned, if_neg hburn, Nat.add_zero]
  have heff := S.effect c s
  generalize c.request = q at heff
  generalize (S.serve c s).2.db = db' at heff ⊢
  cases heff with
  | idle => exact h.weaken (Nat.le_add_right _ _)
  | exchange hplan => exact (within_exchanged h hplan).weaken (Nat.le_add_right _ _)
  | burn hplan =>
    exact (h.mono fun k _ hk => open_before_burn hk).weaken (Nat.le_add_right _ _)
  | insert hbatch => exact within_inserted h hbatch fun k hk => Backend.insert_changed hk
  | mint state hbatch => exact within_inserted h hbatch fun k hk => Backend.mint_changed hk

/-! ## Whole runs -/

/-- In a run from an empty ledger: the unspent tokens of a namespace, whichever one lists, and the
burned ones are no more than what was brought in; and what was brought in came by issuances whose
body bytes verify under the key registered for the issuer. -/
def NeverMultiplied (S : CollectibleServer σ ρ cfg b) : Prop :=
  ∀ (nonces : NonceCache) (calls : List Call) (s : ServerState b.Db),
    Run S.toIssuerServer.Step ⟨nonces, b.empty⟩ calls s →
    ∀ (contract : ContractId) (fp : PgpFingerprint),
      (∀ hashes : List String, hashes.Nodup →
        (∀ h ∈ hashes, b.seals s.db (S.storeConfig.tokenKey (.scopedTo contract fp) h) = some false) →
        hashes.length + S.total (S.burned (.scopedTo contract fp)) ⟨nonces, b.empty⟩ calls ≤
          S.total (S.brings (.scopedTo contract fp)) ⟨nonces, b.empty⟩ calls) ∧
      ∀ c s', S.brings (.scopedTo contract fp) c s' ≠ 0 → ∃ req, c.request = .issue req ∧ SignedBy cfg req fp

theorem within_of_run {calls : List Call} {t : ServerState b.Db} (hrun : Run S.toIssuerServer.Step s calls t)
    (h : Seals.Within (S.InScope (.scopedTo contract fp)) (b.seals s.db) gone supply) :
    Seals.Within (S.InScope (.scopedTo contract fp)) (b.seals t.db)
      (gone + S.total (S.burned (.scopedTo contract fp)) s calls)
      (supply + S.total (S.brings (.scopedTo contract fp)) s calls) := by
  induction hrun generalizing gone supply with
  | nil => exact h
  | @cons s u t c calls hs _ ih =>
    obtain rfl : u = (S.serve c s).2 := hs
    simp only [total, ← Nat.add_assoc]
    exact ih (within_serve h)

theorem neverMultiplied (S : CollectibleServer σ ρ cfg b) : S.NeverMultiplied := by
  intro nonces calls s hrun contract fp
  refine ⟨fun hashes hnd hopen => ?_, fun c s' h => signedBy_of_brings h⟩
  have hempty : Seals.Within (S.InScope (.scopedTo contract fp)) (b.seals b.empty) 0 0 :=
    .empty fun _ => Backend.seals_empty
  have hwithin := within_of_run hrun hempty
  have hbound := hwithin (hashes.map (S.storeConfig.tokenKey (.scopedTo contract fp)))
    (hnd.map fun _ _ he => KeyStrategy.tokenKey_inj he) ?_ ?_
  · simpa using hbound
  · intro k hk
    obtain ⟨h, -, rfl⟩ := List.mem_map.1 hk
    exact ⟨h, rfl⟩
  · intro k hk
    obtain ⟨h, hh, rfl⟩ := List.mem_map.1 hk
    exact hopen h hh

end CollectibleServer

/-- **A collectible is never multiplied**, on any backend and whatever the signature check is. -/
theorem collectible_never_multiplied (chrono : Codec) (json : HtlcJson) (serviceError : String)
    (cfg : ServeConfig) (b : Backend) :
    (singleCollectible chrono serviceError cfg b (rgbCollectible chrono json) collectibleSecrets
      (rgbCollectible_enveloped chrono json)).NeverMultiplied :=
  CollectibleServer.neverMultiplied _

/-! ## Two works of art, one moved and one burned -/

namespace Sample

def artServer : CollectibleServer SecretCollectible RgbCollectibleRecord artConfig .redis :=
  singleCollectible .atEpoch "service error" artConfig .redis art collectibleSecrets (rgbCollectible_enveloped _ _)

def artNs : Namespace := .scopedTo ⟨"rgb21-art"⟩ cafe

def artCalls : List Call :=
  [⟨env, .calm, .issue pairRequest⟩,
    ⟨env, .calm, .replace (swap [artToken 'a' "rgb21-art"] [artToken 'c' "rgb21-art"])⟩,
    ⟨env, .calm, .burn (.ok ⟨artToken 'b' "rgb21-art", some true⟩)⟩]

/-- The state after the first requests of the three. -/
def artState (n : Nat) : ServerState Redis.Db :=
  (artCalls.take n).foldl (fun s c => (artServer.serve c s).2) ⟨.default, .empty⟩

end Sample

open Sample

/-- Two are issued and one is burned, so of the namespace at most one is left. -/
theorem one_work_of_art_left : Run artServer.toIssuerServer.Step ⟨.default, .empty⟩ artCalls (artState 3) ∧
    ∀ hashes : List String, hashes.Nodup →
      (∀ h ∈ hashes, Redis.seals (artState 3).db.tokens (artServer.storeConfig.tokenKey artNs h) =
        some false) → hashes.length ≤ 1 := by
  have hrun : Run artServer.toIssuerServer.Step ⟨.default, .empty⟩ artCalls (artState 3) :=
    .cons rfl (.cons rfl (.cons rfl (.nil _)))
  refine ⟨hrun, fun hashes hnd hopen => ?_⟩
  have hbound := (collectible_never_multiplied .atEpoch
    (.ofState ⟨"", 0, "", ""⟩) "service error" artConfig .redis _ _ _ hrun
    ⟨"rgb21-art"⟩ cafe).1 hashes hnd hopen
  have hbrought : artServer.total (artServer.brings artNs) ⟨.default, .empty⟩ artCalls = 2 := by decide +kernel
  have hburned : artServer.total (artServer.burned artNs) ⟨.default, .empty⟩ artCalls = 1 := by decide +kernel
  have hleft : hashes.length + artServer.total (artServer.burned artNs) ⟨.default, .empty⟩ artCalls ≤
      artServer.total (artServer.brings artNs) ⟨.default, .empty⟩ artCalls := hbound
  omega

end Webycash
