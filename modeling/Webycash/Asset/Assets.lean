import Webycash.Asset.Records
/-!
# The asset traits and the four flavours

`Asset` collects what the handlers call through the traits `Asset`, `RecordBuilder` (or
`CollectibleRecordBuilder`) and `ReplaceHook` of asset-core/src/lib.rs; `SplittableAsset` and
`CollectibleAsset` add the rest. What every implementation does alike is stated as fields, so
the results about handlers hold for all flavours: a built record carries the secret's hash and
namespace and is unspent, the hook changes none of that, and parsed tokens hold no key
separator.

| here | there |
| --- | --- |
| `webcash`        | asset-webcash/src/lib.rs:137 |
| `voucher`        | asset-voucher/src/lib.rs:142 |
| `rgbFungible`    | asset-rgb/src/lib.rs:309 |
| `rgbCollectible` | asset-rgb/src/lib.rs:545 |
| `validateHtlc`, `augmentHtlc` | asset-rgb/src/lib.rs:470, asset-rgb/src/lib.rs:492 |
-/

namespace Webycash

/-- What the hook reads off the request body: `parse_htlc_witnesses`, `parse_htlc_locks`. -/
structure HookBody where
  witnesses : Except AssetError (List HtlcWitnessEntry)
  locks : Except AssetError (List HtlcLockEntry)

/-- A parsed public token: its hash and its `public_namespace_envelope`. -/
structure PublicView where
  publicHash : String
  envelope : Option (String × String)

namespace HashRecord

variable {ρ : Type} (H : HashRecord ρ)

/-- What the ledger laws look at in a record. -/
def face (r : ρ) : String × I64 × Namespace × Bool := (H.publicHash r, H.amountWats r, H.namespaceOf r, H.spent r)

end HashRecord

structure Asset (σ ρ : Type) where
  name : String
  codec : HashRecord ρ
  parseSecret : String → Except AssetError σ
  parsePublic : String → Except AssetError PublicView
  publicHash : σ → String
  namespaceEnvelope : σ → Option (String × String)
  recordFromSecret : DateTime → σ → RecordOrigin → ρ
  validateReplaceRequest : HookBody → List ρ → List σ → Nat → Except AssetError Unit
  augmentOutputRecords : HookBody → List ρ → Nat → Except AssetError (List ρ)
  record_hash : ∀ t s o, codec.publicHash (recordFromSecret t s o) = publicHash s
  record_namespace : ∀ t s o, codec.namespaceOf (recordFromSecret t s o) = .ofEnvelope (namespaceEnvelope s)
  record_unspent : ∀ t s o, codec.spent (recordFromSecret t s o) = false
  augment_face : ∀ {b rs now rs'}, augmentOutputRecords b rs now = .ok rs' → rs'.map codec.face = rs.map codec.face
  parse_plain : ∀ {text s}, parseSecret text = .ok s →
    KeyStrategy.PlainNamespace (.ofEnvelope (namespaceEnvelope s))
  hash_plain : ∀ s, ':' ∉ (publicHash s).toList

structure SplittableAsset (σ ρ : Type) extends Asset σ ρ where
  amount : σ → Amount
  record_amount : ∀ t s o, codec.amountWats (recordFromSecret t s o) = (amount s).wats

structure CollectibleAsset (σ ρ : Type) extends Asset σ ρ where
  validateTransfer : σ → σ → Except AssetError Unit

/-- `IssuedAsset`. -/
structure IssuedAsset (σ : Type) where
  issuer : σ → PgpFingerprint
  contractId : σ → ContractId

/-- The store of a flavour: its name and codec, with a key strategy and the client library's texts. -/
def Asset.storeConfig {σ ρ : Type} (A : Asset σ ρ) (keys : KeyStrategy) (chrono : Codec) (serviceError : String) :
    StoreConfig ρ := ⟨A.name, keys, A.codec, chrono, serviceError⟩

/-! ## Hooks -/

section

variable {ρ : Type} (htlcState : ρ → Option HtlcState) (setHtlcState : HtlcState → ρ → ρ)

/-- `validate_replace_request` of the two RGB flavours. -/
def validateHtlc (body : HookBody) (recs : List ρ) (now : Nat) : Except AssetError Unit :=
  match body.witnesses with
  | .error e => .error e
  | .ok witnesses => validateFrom htlcState witnesses now 0 recs

/-- `augment_output_records` of the two RGB flavours. -/
def augmentHtlc (body : HookBody) (recs : List ρ) (now : Nat) : Except AssetError (List ρ) :=
  match body.locks with
  | .error e => .error e
  | .ok locks => stampLocks setHtlcState now recs.length locks recs

/-- **Every locked input is opened.** An accepted request has, for each locked input, a witness
whose predicate run succeeded at the server's clock. -/
theorem validateHtlc_ok {body : HookBody} {recs : List ρ} {now : Nat}
    (h : validateHtlc htlcState body recs now = .ok ()) :
    ∃ witnesses, body.witnesses = .ok witnesses ∧ ∀ (j : Nat) (hj : j < recs.length) (state : HtlcState),
      htlcState recs[j] = some state → ∃ entry, witnesses.find? (fun w => w.inputIndex = j) = some entry ∧
        ∃ path, executePredicate state entry.witness now = .ok path := by
  unfold validateHtlc at h
  split at h
  · cases h
  · rename_i witnesses hw
    refine ⟨witnesses, hw, fun j hj state hs => ?_⟩
    simpa only [Nat.zero_add] using validateFrom_ok htlcState h j hj state hs

theorem augmentHtlc_map {β : Type} {f : ρ → β} (hf : ∀ s r, f (setHtlcState s r) = f r) {body : HookBody}
    {recs recs' : List ρ} {now : Nat} (h : augmentHtlc setHtlcState body recs now = .ok recs') :
    recs'.map f = recs.map f := by
  unfold augmentHtlc at h
  split at h
  · cases h
  · exact stampLocks_map setHtlcState hf h

end

/-- A parser's failure, as the flavours report it. -/
def parseOr {α : Type} (what format text : String) : Option α → Except AssetError α
  | some a => .ok a
  | none => .error (.parse (what ++ ": " ++ format ++ ": " ++ text))

theorem parseOr_ok {α : Type} {what format text : String} {o : Option α} {a : α}
    (h : parseOr what format text o = .ok a) :
    o = some a := by
  cases o with
  | none => cases h
  | some b => cases h; rfl

/-! ## The flavours -/

section

variable (chrono : Codec) (json : HtlcJson)

def webcash : SplittableAsset SecretWebcash WebcashRecord where
  name := "webcash"
  codec := webcashCodec chrono
  parseSecret t := parseOr "webcash secret" "invalid token format" t (SecretWebcash.parse t)
  parsePublic t := (parseOr "webcash public" "invalid token format" t (PublicWebcash.parse t)).map fun p =>
    ⟨p.hash, none⟩
  publicHash s := s.toPublic.hash
  namespaceEnvelope _ := none
  recordFromSecret now s origin := ⟨s.toPublic.hash, s.amount.wats, false, now, none,
    match origin with | .mined => .mined | .replaced => .replaced⟩
  validateReplaceRequest _ _ _ _ := .ok ()
  augmentOutputRecords _ recs _ := .ok recs
  amount s := s.amount
  record_hash _ _ _ := rfl
  record_namespace _ _ _ := rfl
  record_unspent _ _ _ := rfl
  augment_face h := by cases h; rfl
  parse_plain _ := plainNamespace_unscoped
  hash_plain _ := colon_notMem_sha256HexOfAscii _
  record_amount _ _ _ := rfl

/-- `RecordOrigin` as the issued flavours store it. -/
def IssuedOrigin.ofRecord : RecordOrigin → IssuedOrigin
  | .mined => .mined
  | .replaced => .replaced

/-- `namespace_envelope` of the issued flavours. -/
def envelopeOf (c : ContractId) (i : PgpFingerprint) : Option (String × String) := some (c.id, i.hex)

def voucher : SplittableAsset SecretIssued VoucherRecord where
  name := "voucher"
  codec := voucherCodec chrono
  parseSecret t := parseOr "voucher secret" "invalid voucher token format" t (SecretIssued.parse t)
  parsePublic t := (parseOr "voucher public" "invalid voucher token format" t (PublicIssued.parse t)).map fun p =>
    ⟨p.hash, envelopeOf p.contractId p.issuerFp⟩
  publicHash s := s.toPublic.hash
  namespaceEnvelope s := envelopeOf s.contractId s.issuerFp
  recordFromSecret now s origin :=
    ⟨s.toPublic.hash, s.amount.wats, false, now, none, .ofRecord origin, s.contractId, s.issuerFp⟩
  validateReplaceRequest _ _ _ _ := .ok ()
  augmentOutputRecords _ recs _ := .ok recs
  amount s := s.amount
  record_hash _ _ _ := rfl
  record_namespace _ _ _ := rfl
  record_unspent _ _ _ := rfl
  augment_face h := by cases h; rfl
  parse_plain h := plainNamespace_scopedTo (SecretIssued.parse_colonFree (parseOr_ok h))
  hash_plain _ := colon_notMem_sha256HexOfAscii _
  record_amount _ _ _ := rfl

def RgbFungibleRecord.lock (s : HtlcState) (r : RgbFungibleRecord) : RgbFungibleRecord := { r with htlcState := some s }

def RgbCollectibleRecord.lock (s : HtlcState) (r : RgbCollectibleRecord) : RgbCollectibleRecord :=
  { r with htlcState := some s }

def rgbFungible : SplittableAsset SecretIssued RgbFungibleRecord where
  name := "rgb-fungible"
  codec := rgbFungibleCodec chrono json
  parseSecret t := parseOr "rgb20 secret" "invalid RGB token format" t (SecretIssued.parse t)
  parsePublic t := (parseOr "rgb20 public" "invalid RGB token format" t (PublicIssued.parse t)).map fun p =>
    ⟨p.hash, envelopeOf p.contractId p.issuerFp⟩
  publicHash s := s.toPublic.hash
  namespaceEnvelope s := envelopeOf s.contractId s.issuerFp
  recordFromSecret now s origin :=
    ⟨s.toPublic.hash, s.amount.wats, false, now, none, .ofRecord origin, s.contractId, s.issuerFp, none⟩
  validateReplaceRequest body recs _ now := validateHtlc RgbFungibleRecord.htlcState body recs now
  augmentOutputRecords := augmentHtlc RgbFungibleRecord.lock
  amount s := s.amount
  record_hash _ _ _ := rfl
  record_namespace _ _ _ := rfl
  record_unspent _ _ _ := rfl
  augment_face h := augmentHtlc_map RgbFungibleRecord.lock (fun _ _ => rfl) h
  parse_plain h := plainNamespace_scopedTo (SecretIssued.parse_colonFree (parseOr_ok h))
  hash_plain _ := colon_notMem_sha256HexOfAscii _
  record_amount _ _ _ := rfl

/-- `validate_transfer` of RGB21. -/
def validateTransfer (input output : SecretCollectible) : Except AssetError Unit :=
  if input.contractId ≠ output.contractId then
    .error (.invariant ("contract_id mismatch: " ++ input.contractId.id ++ " vs " ++ output.contractId.id))
  else if input.issuerFp ≠ output.issuerFp then
    .error (.invariant ("issuer_fp mismatch: " ++ input.issuerFp.hex ++ " vs " ++ output.issuerFp.hex))
  else .ok ()

def rgbCollectible : CollectibleAsset SecretCollectible RgbCollectibleRecord where
  name := "rgb-collectible"
  codec := rgbCollectibleCodec chrono json
  parseSecret t := parseOr "rgb21 secret" "invalid RGB token format" t (SecretCollectible.parse t)
  parsePublic t := (parseOr "rgb21 public" "invalid RGB token format" t (PublicCollectible.parse t)).map fun p =>
    ⟨p.hash, envelopeOf p.contractId p.issuerFp⟩
  publicHash s := s.toPublic.hash
  namespaceEnvelope s := envelopeOf s.contractId s.issuerFp
  recordFromSecret now s origin :=
    ⟨s.toPublic.hash, false, now, none, .ofRecord origin, s.contractId, s.issuerFp, none⟩
  validateReplaceRequest body recs _ now := validateHtlc RgbCollectibleRecord.htlcState body recs now
  augmentOutputRecords := augmentHtlc RgbCollectibleRecord.lock
  validateTransfer := validateTransfer
  record_hash _ _ _ := rfl
  record_namespace _ _ _ := rfl
  record_unspent _ _ _ := rfl
  augment_face h := augmentHtlc_map RgbCollectibleRecord.lock (fun _ _ => rfl) h
  parse_plain h := plainNamespace_scopedTo (SecretCollectible.parse_colonFree (parseOr_ok h))
  hash_plain _ := colon_notMem_sha256HexOfAscii _

end

def issuedSecrets : IssuedAsset SecretIssued := ⟨SecretIssued.issuerFp, SecretIssued.contractId⟩

def collectibleSecrets : IssuedAsset SecretCollectible := ⟨SecretCollectible.issuerFp, SecretCollectible.contractId⟩

theorem rgbCollectible_enveloped (chrono : Codec) (json : HtlcJson) (s : SecretCollectible) :
    (rgbCollectible chrono json).namespaceEnvelope s = envelopeOf (collectibleSecrets.contractId s)
      (collectibleSecrets.issuer s) := rfl

end Webycash
