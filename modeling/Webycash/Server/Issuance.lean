import Webycash.Server.Nonces
import Webycash.Storage.Redis
/-!
# One issuance, one namespace

An issuance mints into one `(contract_id, issuer_fp)`: the issuance types document it
(asset-voucher/src/lib.rs:135, asset-rgb/src/lib.rs:287, asset-rgb/src/lib.rs:296). Five places accept
a batch. `issue` and `verify_issuance` of the voucher and the RGB20 flavour keep the rule.
The collectible ones do not: `verify_issuance` of RGB21 looks at nothing, and `issue_collectible` is
a copy of `issue` that lacks the check for one contract id.

| here | there |
| --- | --- |
| `VoucherIssuance`, `Voucher.verifyIssuance` | asset-voucher/src/lib.rs:134, asset-voucher/src/lib.rs:201 |
| `RgbFungibleIssuance`, `RgbFungible.verifyIssuance` | asset-rgb/src/lib.rs:286, asset-rgb/src/lib.rs:362 |
| `RgbCollectibleIssuance`, `RgbCollectible.verifyIssuance` | asset-rgb/src/lib.rs:295, asset-rgb/src/lib.rs:670 |
-/

namespace Webycash

/-! ## `verify_issuance` -/

section

variable {ρ : Type} (contractId : ρ → ContractId) (issuerFp : ρ → PgpFingerprint)

/-- The loop over the records after the first. -/
def verifyAgainst (first : ρ) : List ρ → Except AssetError Unit
  | [] => .ok ()
  | r :: rest =>
    if contractId r ≠ contractId first then
      .error (.invariant ("issuance batch crosses contract_id: " ++ (contractId first).id ++ " vs " ++
        (contractId r).id))
    else if issuerFp r ≠ issuerFp first then
      .error (.invariant ("issuance batch crosses issuer_fp: " ++ (issuerFp first).hex ++ " vs " ++ (issuerFp r).hex))
    else verifyAgainst first rest

/-- The check the voucher and the RGB20 flavour make; an empty batch passes. -/
def verifySingleNamespace : List ρ → Except AssetError Unit
  | [] => .ok ()
  | first :: rest => verifyAgainst contractId issuerFp first rest

/-- All records share one contract id and one issuer. -/
def OneNamespace (records : List ρ) : Prop :=
  ∀ r ∈ records, ∀ r' ∈ records, contractId r = contractId r' ∧ issuerFp r = issuerFp r'

variable {contractId issuerFp}

theorem verifyAgainst_ok_iff {first : ρ} : ∀ {rest : List ρ},
    verifyAgainst contractId issuerFp first rest = .ok () ↔ ∀ r ∈ rest, contractId r = contractId first ∧
      issuerFp r = issuerFp first
  | [] => by simp [verifyAgainst]
  | r :: rest => by
    rw [List.forall_mem_cons, verifyAgainst]
    by_cases hcontract : contractId r = contractId first
    · by_cases hissuer : issuerFp r = issuerFp first
      · rw [if_neg (not_not.2 hcontract), if_neg (not_not.2 hissuer), verifyAgainst_ok_iff]
        exact (and_iff_right ⟨hcontract, hissuer⟩).symm
      · rw [if_neg (not_not.2 hcontract), if_pos hissuer]
        exact iff_of_false nofun fun h => hissuer h.1.2
    · rw [if_pos hcontract]
      exact iff_of_false nofun fun h => hcontract h.1.1

/-- Comparing with the first record is enough. -/
theorem oneNamespace_cons_iff {first : ρ} {rest : List ρ} : OneNamespace contractId issuerFp (first :: rest) ↔
    ∀ r ∈ rest, contractId r = contractId first ∧ issuerFp r = issuerFp first := by
  constructor
  · exact fun h r hr => h r (List.mem_cons_of_mem _ hr) first List.mem_cons_self
  · intro h
    have hall : ∀ r ∈ first :: rest, contractId r = contractId first ∧ issuerFp r = issuerFp first :=
      List.forall_mem_cons.2 ⟨⟨rfl, rfl⟩, h⟩
    exact fun r hr r' hr' => ⟨(hall r hr).1.trans (hall r' hr').1.symm, (hall r hr).2.trans (hall r' hr').2.symm⟩

/-- **The check is the rule.** -/
theorem verifySingleNamespace_ok_iff : ∀ {records : List ρ},
    verifySingleNamespace contractId issuerFp records = .ok () ↔ OneNamespace contractId issuerFp records
  | [] => by simp [verifySingleNamespace, OneNamespace]
  | first :: rest => by rw [verifySingleNamespace, verifyAgainst_ok_iff, oneNamespace_cons_iff]

end

structure VoucherIssuance where
  records : List VoucherRecord

structure RgbFungibleIssuance where
  records : List RgbFungibleRecord

structure RgbCollectibleIssuance where
  records : List RgbCollectibleRecord

def Voucher.verifyIssuance (ctx : VoucherIssuance) : Except AssetError Unit :=
  verifySingleNamespace VoucherRecord.contractId VoucherRecord.issuerFp ctx.records

def RgbFungible.verifyIssuance (ctx : RgbFungibleIssuance) : Except AssetError Unit :=
  verifySingleNamespace RgbFungibleRecord.contractId RgbFungibleRecord.issuerFp ctx.records

/-- The context is not looked at. -/
def RgbCollectible.verifyIssuance (_ctx : RgbCollectibleIssuance) : Except AssetError Unit := .ok ()

/-! ## `issue` and `issue_collectible` -/

section

variable {σ ρ δ : Type} {A : Asset σ ρ} {I : IssuedAsset σ} {contractId : ρ → ContractId}
  {issuerFp : ρ → PgpFingerprint}
  {cfg : ServeConfig} {env : RequestEnv} {req : IssueRequest} {nonces : NonceCache} {records : List ρ}

/-- A record carries the namespace of its token. -/
def KeepsNamespace (A : Asset σ ρ) (I : IssuedAsset σ) (contractId : ρ → ContractId)
    (issuerFp : ρ → PgpFingerprint) : Prop :=
  ∀ now s origin, contractId (A.recordFromSecret now s origin) = I.contractId s ∧
    issuerFp (A.recordFromSecret now s origin) = I.issuer s

/-- The output tokens of the request name one contract. -/
def OneContract (A : Asset σ ρ) (I : IssuedAsset σ) (req : IssueRequest) : Prop :=
  ∀ parsed, req.body = .ok parsed → ∀ t ∈ parsed.outputs, ∀ t' ∈ parsed.outputs, ∀ s s',
    A.parseSecret t = .ok s →
    A.parseSecret t' = .ok s' → I.contractId s = I.contractId s'

/-- The planned batch, and the tokens it stands for. -/
theorem planIssue_tokens {check : List σ → Except String Unit}
    (h : (planIssue A I check cfg env req nonces).1 = .ok records) :
    ∃ parsed issuer ss, req.body = .ok parsed ∧
      List.Forall₂ (fun t s => A.parseSecret t = .ok s) parsed.outputs ss ∧
      (∀ s ∈ ss, I.issuer s = issuer) ∧ check ss = .ok () ∧
        records = ss.map (A.recordFromSecret env.now · .replaced) := by
  unfold planIssue at h
  split at h
  · cases h
  · rename_i issuer parsed hauth
    split at h
    · cases h
    · obtain ⟨ss, hss, h⟩ := Except.bind_ok_iff.1 h
      obtain ⟨⟨⟩, hcheck, h⟩ := Except.bind_ok_iff.1 h
      cases h
      obtain ⟨hparse, hissuer⟩ := issuedOutputs_ok hss
      exact ⟨parsed, issuer, ss, (authorise_ok hauth).1, hparse, hissuer, hcheck, rfl⟩

/-- A request answered with success has inserted a batch with `P`. -/
def Issues (store : LedgerStore δ ρ) (plan : Except String (List ρ)) (db : δ) (answer : Response)
    (P : List ρ → Prop) : Prop :=
  answer = success → ∃ records, plan = .ok records ∧ (store.insertTokens records db).1 = .ok () ∧ P records

theorem commitIssue_issues {store : LedgerStore δ ρ} {plan : Except String (List ρ)} {db : δ} {P : List ρ → Prop}
    (h : ∀ records, plan = .ok records → P records) : Issues store plan db (commitIssue store plan db).1 P := by
  intro hanswer
  cases plan with
  | error e => cases hanswer
  | ok records =>
    refine ⟨records, rfl, ?_, h records rfl⟩
    rw [commitIssue] at hanswer
    split at hanswer
    · cases hanswer
    · rename_i db₁ hinsert
      rw [hinsert]

/-- The issuer is the envelope's, so the contract ids are what is left. -/
theorem oneNamespace_map_iff (hkeeps : KeepsNamespace A I contractId issuerFp) {ss : List σ} {issuer : PgpFingerprint}
    (hissuer : ∀ s ∈ ss, I.issuer s = issuer) {now : DateTime} {origin : RecordOrigin} :
    OneNamespace contractId issuerFp (ss.map (A.recordFromSecret now · origin)) ↔
      ∀ s ∈ ss, ∀ s' ∈ ss, I.contractId s = I.contractId s' := by
  unfold OneNamespace
  simp only [List.forall_mem_map]
  refine forall₂_congr fun s hs => forall₂_congr fun s' hs' => ?_
  rw [(hkeeps now s origin).1, (hkeeps now s' origin).1, (hkeeps now s origin).2,
    (hkeeps now s' origin).2, hissuer s hs,
    hissuer s' hs']
  exact and_iff_left rfl

theorem requireOneContract_ok {ss : List σ} (h : requireOneContract I ss = .ok ()) :
    ∀ s ∈ ss, ∀ s' ∈ ss, I.contractId s = I.contractId s' := fun s hs s' hs' =>
  Option.some.inj ((require_ok_iff.1 h s hs).symm.trans (require_ok_iff.1 h s' hs'))

/-- A batch that `issue` plans. -/
theorem planIssue_oneNamespace (hkeeps : KeepsNamespace A I contractId issuerFp)
    (h : (planIssue A I (requireOneContract I) cfg env req nonces).1 = .ok records) :
    OneNamespace contractId issuerFp records := by
  obtain ⟨parsed, issuer, ss, -, -, hissuer, hcheck, rfl⟩ := planIssue_tokens h
  exact (oneNamespace_map_iff hkeeps hissuer).2 (requireOneContract_ok hcheck)

/-- A batch that `issue_collectible` plans. -/
theorem planIssue_oneNamespace_iff (hkeeps : KeepsNamespace A I contractId issuerFp)
    (h : (planIssue A I (fun _ => .ok ()) cfg env req nonces).1 = .ok records) :
    OneNamespace contractId issuerFp records ↔ OneContract A I req := by
  obtain ⟨parsed, issuer, ss, hbody, hparse, hissuer, -, rfl⟩ := planIssue_tokens h
  rw [oneNamespace_map_iff hkeeps hissuer]
  constructor
  · intro hone parsed' hbody' t ht t' ht' s s' hs hs'
    obtain rfl : parsed = parsed' := Except.ok.inj (hbody.symm.trans hbody')
    exact hone s (parsed_of_mem hparse ht hs) s' (parsed_of_mem hparse ht' hs')
  · intro hone s hs s' hs'
    obtain ⟨t, ht, hp⟩ := mem_of_parsed hparse hs
    obtain ⟨t', ht', hp'⟩ := mem_of_parsed hparse hs'
    exact hone parsed hbody t ht t' ht' s s' hp hp'

end

/-- **Who keeps to one namespace.** The voucher and the RGB20 paths always do; `issue_collectible` does exactly for
outputs of one contract, and RGB21's `verify_issuance` exactly for the batches its siblings accept. -/
theorem issuance_oneNamespace_iff (chrono : Codec) (json : HtlcJson) (δ : Type) :
    (∀ (cfg : ServeConfig) (store : LedgerStore δ VoucherRecord) (env : RequestEnv) (req : IssueRequest)
      (nonces : NonceCache) (db : δ),
      Issues store (planIssue (voucher chrono).toAsset issuedSecrets
        (requireOneContract issuedSecrets) cfg env req nonces).1 db
        (issue (voucher chrono) issuedSecrets cfg store env req nonces db).1
        (OneNamespace VoucherRecord.contractId VoucherRecord.issuerFp)) ∧
    (∀ (cfg : ServeConfig) (store : LedgerStore δ RgbFungibleRecord) (env : RequestEnv) (req : IssueRequest)
      (nonces : NonceCache) (db : δ),
      Issues store
        (planIssue (rgbFungible chrono json).toAsset issuedSecrets
          (requireOneContract issuedSecrets) cfg env req nonces).1 db
        (issue (rgbFungible chrono json) issuedSecrets cfg store env req nonces db).1
        (OneNamespace RgbFungibleRecord.contractId RgbFungibleRecord.issuerFp)) ∧
    (∀ (cfg : ServeConfig) (store : LedgerStore δ RgbCollectibleRecord) (env : RequestEnv) (req : IssueRequest)
      (nonces : NonceCache) (db : δ),
      Issues store (planIssue (rgbCollectible chrono json).toAsset collectibleSecrets
        (fun _ => .ok ()) cfg env req nonces).1 db
        (issueCollectible (rgbCollectible chrono json) collectibleSecrets cfg store env req nonces db).1 fun records =>
          (OneNamespace RgbCollectibleRecord.contractId RgbCollectibleRecord.issuerFp records ↔
            OneContract (rgbCollectible chrono json).toAsset collectibleSecrets req)) ∧
    (∀ ctx, Voucher.verifyIssuance ctx = .ok () →
      OneNamespace VoucherRecord.contractId VoucherRecord.issuerFp ctx.records) ∧
    (∀ ctx, RgbFungible.verifyIssuance ctx = .ok () →
      OneNamespace RgbFungibleRecord.contractId RgbFungibleRecord.issuerFp ctx.records) ∧
    ∀ ctx, RgbCollectible.verifyIssuance ctx = .ok () →
      (OneNamespace RgbCollectibleRecord.contractId RgbCollectibleRecord.issuerFp ctx.records ↔
        verifySingleNamespace RgbCollectibleRecord.contractId RgbCollectibleRecord.issuerFp ctx.records = .ok ()) :=
  ⟨fun _ _ _ _ _ _ => commitIssue_issues fun _ h => planIssue_oneNamespace (fun _ _ _ => ⟨rfl, rfl⟩) h,
    fun _ _ _ _ _ _ => commitIssue_issues fun _ h => planIssue_oneNamespace (fun _ _ _ => ⟨rfl, rfl⟩) h,
    fun _ _ _ _ _ _ => commitIssue_issues fun _ h => planIssue_oneNamespace_iff (fun _ _ _ => ⟨rfl, rfl⟩) h,
    fun _ => verifySingleNamespace_ok_iff.1, fun _ => verifySingleNamespace_ok_iff.1,
    fun _ _ => verifySingleNamespace_ok_iff.symm⟩

/-! ## A batch of two contracts -/

namespace Sample

def artToken (c : Char) (contract : String) : String := "secret:" ++ hex c ++ ":" ++ contract ++ ":" ++ cafe.hex

/-- The request body for two collectibles. -/
def artText (second nonce : String) : String :=
  "\x7b\"issuer_fp\":\"" ++ cafe.hex ++ "\",\"outputs\":[\"" ++ artToken 'a' "rgb21-art" ++ "\",\"" ++
    artToken 'b' second ++
    "\"],\"nonce\":\"" ++ nonce ++ "\",\"legalese\":\x7b\"terms\":true\x7d\x7d"

/-- The issuer's signatures of the two bodies below. -/
def mixedSignature : String :=
  "0e29cdbed31f1dc759f3ef2d0a3aa67454d2c35827ae795a48d4b0862bb2ae77" ++
    "4f61c293518e8eaf42eaa011416585fce181787ede38dea997f610c99f97a10d"

def pairSignature : String :=
  "85ca6a882e503042580a0d86ade6ef78b5b835ab7f1b7fa57a03db5e47a18e9c" ++
    "14fc746e38915759140e13fc49cb41d79ba5a717dae691785130e78bcee7f806"

def artRequest (second nonce signature : String) : IssueRequest :=
  ⟨some signature, asBytes (artText second nonce),
    .ok ⟨cafe.hex, [artToken 'a' "rgb21-art", artToken 'b' second], nonce, some true⟩⟩

/-- One work of art and one of music, in one request. -/
def mixedRequest : IssueRequest := artRequest "rgb21-music" "n-1" mixedSignature

/-- Two works of art. -/
def pairRequest : IssueRequest := artRequest "rgb21-art" "n-2" pairSignature

/-- Only these two signatures are known to be good. -/
def artRegistry : IssuerRegistry where
  keys := registry.keys
  verifies key body sig := decide (Except.ok key = Hex.decode (asBytes issuerKey) ∧
    ((body = asBytes (artText "rgb21-music" "n-1") ∧ Except.ok sig = Hex.decode (asBytes mixedSignature)) ∨
      (body = asBytes (artText "rgb21-art" "n-2") ∧ Except.ok sig = Hex.decode (asBytes pairSignature))))
  toLowercase := String.toLower

def artConfig : ServeConfig := { issuerConfig with issuers := some artRegistry }

def art : CollectibleAsset SecretCollectible RgbCollectibleRecord :=
  rgbCollectible .atEpoch (.ofState ⟨"", 0, "", ""⟩)

def artStore : LedgerStore Redis.Db RgbCollectibleRecord :=
  Redis.store (art.storeConfig .namespacedKeys .atEpoch "service error") ⟨0⟩

/-- The record a token of `art` is issued as. -/
def artRecord (c : Char) (contract : String) : RgbCollectibleRecord :=
  ⟨sha256HexOfAscii (hex c), false, ⟨0⟩, none, .replaced, ⟨contract⟩, cafe, none⟩

end Sample

open Sample

/-- The request is accepted with these records. -/
def ArtIssued (req : IssueRequest) (records : List RgbCollectibleRecord) : Prop :=
  (issueCollectible art collectibleSecrets artConfig artStore env req .default .empty).1 = success ∧
    (planIssue art.toAsset collectibleSecrets (fun _ => .ok ()) artConfig env req .default).1 = .ok records

/-- Both collectible paths accept a batch of two contracts. -/
theorem collectibles_of_two_contracts : ArtIssued mixedRequest [artRecord 'a' "rgb21-art",
    artRecord 'b' "rgb21-music"] ∧
    RgbCollectible.verifyIssuance ⟨[artRecord 'a' "rgb21-art", artRecord 'b' "rgb21-music"]⟩ = .ok () ∧
    ¬ OneNamespace RgbCollectibleRecord.contractId RgbCollectibleRecord.issuerFp
      [artRecord 'a' "rgb21-art", artRecord 'b' "rgb21-music"] := by
  refine ⟨?_, rfl, fun h => ?_⟩
  · unfold ArtIssued
    decide +kernel
  · have hcontract := (oneNamespace_cons_iff.1 h (artRecord 'b' "rgb21-music") (by simp)).1
    exact absurd (congrArg ContractId.id hcontract) (by decide)

/-- A batch of one contract. -/
theorem collectibles_of_one_contract : ArtIssued pairRequest [artRecord 'a' "rgb21-art", artRecord 'b' "rgb21-art"] ∧
    ∃ records, (planIssue art.toAsset collectibleSecrets (fun _ => .ok ()) artConfig env pairRequest .default).1 =
      .ok records ∧
      OneNamespace RgbCollectibleRecord.contractId RgbCollectibleRecord.issuerFp records := by
  have hgo : ArtIssued pairRequest [artRecord 'a' "rgb21-art", artRecord 'b' "rgb21-art"] := by
    unfold ArtIssued
    decide +kernel
  obtain ⟨records, hplan, -, hiff⟩ :=
    (issuance_oneNamespace_iff .atEpoch (.ofState ⟨"", 0, "", ""⟩) Redis.Db).2.2.1 artConfig
    artStore env pairRequest .default .empty hgo.1
  refine ⟨hgo, records, hplan, hiff.2 fun parsed hbody t ht t' ht' s s' hs hs' => ?_⟩
  have hcontract : ∀ t ∈ [artToken 'a' "rgb21-art", artToken 'b' "rgb21-art"], ∀ s, art.parseSecret t = .ok s →
      s.contractId = ⟨"rgb21-art"⟩ := by
    have ha : art.parseSecret (artToken 'a' "rgb21-art") = .ok ⟨hex 'a', ⟨"rgb21-art"⟩, cafe⟩ :=
      by decide +kernel
    have hb : art.parseSecret (artToken 'b' "rgb21-art") = .ok ⟨hex 'b', ⟨"rgb21-art"⟩, cafe⟩ :=
      by decide +kernel
    intro t ht s hs
    rcases List.mem_pair.1 ht with rfl | rfl
    · rw [← Except.ok.inj (ha.symm.trans hs)]
    · rw [← Except.ok.inj (hb.symm.trans hs)]
  cases hbody
  exact (hcontract t ht s hs).trans (hcontract t' ht' s' hs').symm

end Webycash
