import Webycash.Asset.Htlc
import Webycash.Storage.Types
/-!
# The record types and their codecs

Four record types implement `HashRecord`. They share the fields from `amount_wats` to
`origin`; the issued ones add the namespace, the RGB ones the lock. `fieldsOf` and `docOf`
are the shared writers, each record type applies them to its own values. The laws `HashRecord`
asks for (every name once, amount and spent flag present) are proved for the shared writers
and inherited.

| here | there |
| --- | --- |
| `WebcashRecord`        | asset-webcash/src/lib.rs:32, codec asset-webcash/src/lib.rs:72 |
| `VoucherRecord`        | asset-voucher/src/lib.rs:50, codec asset-voucher/src/lib.rs:72 |
| `RgbFungibleRecord`    | asset-rgb/src/lib.rs:69, codec asset-rgb/src/lib.rs:96 |
| `RgbCollectibleRecord` | asset-rgb/src/lib.rs:187, codec asset-rgb/src/lib.rs:212 |
| `HtlcJson`             | serde's JSON text of `HtlcState` |
-/

namespace Webycash

/-- `serde_json::to_string` and `from_str` at `HtlcState`. -/
structure HtlcJson where
  toJson : HtlcState → String
  fromJson : String → Option HtlcState

/-- serde's text of a lock made of hex digits, and its reading back; for fixed inputs. -/
def HtlcJson.ofState (s : HtlcState) : HtlcJson :=
  let text := "\x7b\"committed_h_hex\":\"" ++ s.committedHHex ++ "\",\"refund_after_unix\":" ++
    toString s.refundAfterUnix ++ ",\"claim_owner_hash_hex\":\"" ++ s.claimOwnerHashHex ++
    "\",\"refund_owner_hash_hex\":\"" ++ s.refundOwnerHashHex ++ "\"\x7d"
  ⟨fun _ => text, fun t => if t = text then some s else none⟩

/-! ## Shared writers and readers -/

section Shared

variable (chrono : Codec)

/-- The optional field `spent_at` or `htlc_state`. -/
def optField (name : String) (value : Option String) : List (String × String) :=
  (value.map fun v => [(name, v)]).getD []

/-- The `fields.insert` calls of every `to_fields`, in order; `tail` holds the flavour's own. -/
def fieldsOf (amount : String) (spent : Bool) (createdAt : DateTime) (spentAt : Option DateTime) (origin : String)
    (tail : List (String × String)) : List (String × String) :=
  ("amount_wats", amount) :: ("spent", if spent then "1" else "0") :: ("created_at", chrono.toRfc3339 createdAt) ::
    (optField "spent_at" (spentAt.map chrono.toRfc3339) ++ ("origin", origin) :: tail)

/-- The namespace and lock fields of an issued record. -/
def issuedTail (contractId : ContractId) (issuerFp : PgpFingerprint) (htlc : Option String) : List (String × String) :=
  ("contract_id", contractId.id) :: ("issuer_fp", issuerFp.hex) :: optField "htlc_state" htlc

/-- Field names written before the tail. -/
def baseNames : List String := ["amount_wats", "spent", "created_at", "spent_at", "origin"]

theorem fieldsOf_names_nodup {amount : String} {spent : Bool} {createdAt : DateTime} {spentAt : Option DateTime}
    {origin : String} {tail : List (String × String)} (hnd : (tail.map Prod.fst).Nodup)
    (hdisj : ∀ n ∈ tail.map Prod.fst, n ∉ baseNames) :
    ((fieldsOf chrono amount spent createdAt spentAt origin tail).map Prod.fst).Nodup := by
  have hbase : ∀ n, n ∈ baseNames → n ∉ tail.map Prod.fst := fun n hn ht => hdisj n ht hn
  cases spentAt with
  | none =>
    simp only [fieldsOf, optField, Option.map_none, Option.getD_none, List.nil_append, List.map_cons, List.nodup_cons,
      List.mem_cons, not_or]
    exact ⟨⟨by decide, by decide, by decide, hbase _ (by decide)⟩,
      ⟨by decide, by decide, hbase _ (by decide)⟩,
      ⟨by decide, hbase _ (by decide)⟩, hbase _ (by decide), hnd⟩
  | some ts =>
    simp only [fieldsOf, optField, Option.map_some, Option.getD_some, List.cons_append, List.nil_append, List.map_cons,
      List.nodup_cons, List.mem_cons, not_or]
    exact ⟨⟨by decide, by decide, by decide, by decide, hbase _ (by decide)⟩,
      ⟨by decide, by decide, by decide, hbase _ (by decide)⟩, ⟨by decide, by decide, hbase _ (by decide)⟩,
      ⟨by decide, hbase _ (by decide)⟩, hbase _ (by decide), hnd⟩

theorem issuedTail_names (c : ContractId) (i : PgpFingerprint) (htlc : Option String) :
    ((issuedTail c i htlc).map Prod.fst).Nodup ∧ ∀ n ∈ (issuedTail c i htlc).map Prod.fst, n ∉ baseNames := by
  cases htlc <;> simp [issuedTail, optField, baseNames]

/-- `fields.get("spent").map(|s| s == "1").unwrap_or(false)`. -/
def readSpent (fields : Fields) : Bool := ((fields.lookup "spent").map (· == "1")).getD false

/-- `created_at`, defaulting to the current time. -/
def readCreatedAt (now : DateTime) (fields : Fields) : DateTime :=
  ((fields.lookup "created_at").bind chrono.parseFromRfc3339).getD now

def readSpentAt (fields : Fields) : Option DateTime := (fields.lookup "spent_at").bind chrono.parseFromRfc3339

/-- `fields.get("amount_wats")?.parse().ok()?`. -/
def readAmount (fields : Fields) : Option I64 := (fields.lookup "amount_wats").bind I64.ofText

/-! ## JSON documents -/

/-- The shared members of serde's object; `spent_at` is `null` when absent. -/
def docOf (publicHash : String) (spent : Bool) (createdAt : DateTime) (spentAt : Option DateTime) (origin : String)
    (tail : List (String × Json)) : Doc :=
  FMap.putAll ∅ (tail ++ [("public_hash", .str publicHash), ("spent", .bool spent),
    ("created_at", .str (chrono.serialize createdAt)),
    ("spent_at", (spentAt.map fun t => Json.str (chrono.serialize t)).getD .null), ("origin", .str origin)])

theorem lookup_docOf_spent (publicHash : String) (spent : Bool) (createdAt : DateTime) (spentAt : Option DateTime)
    (origin : String) (tail : List (String × Json)) :
    (docOf chrono publicHash spent createdAt spentAt origin tail).lookup "spent" = some (.bool spent) := by
  rw [docOf, FMap.putAll_append]
  simp only [FMap.putAll_cons, FMap.putAll_nil, FMap.lookup_insert_ite]
  simp

def docStr (doc : Doc) (name : String) : Option String := (doc.lookup name).bind Json.asStr

/-- A field of type `DateTime<Utc>`. -/
def docTime (doc : Doc) (name : String) : Option DateTime := (docStr doc name).bind chrono.deserialize

/-- A field of type `Option<DateTime<Utc>>`: absent and `null` both read as `None`. -/
def docOptTime (doc : Doc) (name : String) : Option (Option DateTime) :=
  match doc.lookup name with
  | none | some .null => some none
  | some v => (v.asStr.bind chrono.deserialize).map some

def docBool (doc : Doc) (name : String) : Option Bool := (doc.lookup name).bind Json.asBool

def docI64 (doc : Doc) (name : String) : Option I64 := ((doc.lookup name).bind Json.asInt).bind I64.ofInt?

def HtlcState.toDoc (s : HtlcState) : Json :=
  .obj [("committed_h_hex", .str s.committedHHex), ("refund_after_unix", .num s.refundAfterUnix),
    ("claim_owner_hash_hex", .str s.claimOwnerHashHex), ("refund_owner_hash_hex", .str s.refundOwnerHashHex)]

def HtlcState.ofDoc (v : Json) : Option HtlcState := do
  let h ← (v.field "committed_h_hex").bind Json.asStr
  let n ← (v.field "refund_after_unix").bind Json.asInt
  let c ← (v.field "claim_owner_hash_hex").bind Json.asStr
  let r ← (v.field "refund_owner_hash_hex").bind Json.asStr
  if 0 ≤ n ∧ n < 18446744073709551616 then return ⟨h, n.toNat, c, r⟩ else none

/-- `#[serde(default)] htlc_state`: an absent member is `None`, a malformed one an error. -/
def docHtlc (doc : Doc) : Option (Option HtlcState) :=
  match doc.lookup "htlc_state" with
  | none | some .null => some none
  | some v => (HtlcState.ofDoc v).map some

end Shared

/-! ## Webcash -/

inductive WebcashOrigin
  | mined
  | replaced
  deriving DecidableEq

def WebcashOrigin.display : WebcashOrigin → String
  | mined => "mined"
  | replaced => "replaced"

/-- Anything but `replaced` reads as mined. -/
def WebcashOrigin.ofText (s : Option String) : WebcashOrigin := if s = some "replaced" then replaced else mined

structure WebcashRecord where
  publicHash : String
  amountWats : I64
  spent : Bool
  createdAt : DateTime
  spentAt : Option DateTime
  origin : WebcashOrigin
  deriving DecidableEq

def webcashCodec (chrono : Codec) : HashRecord WebcashRecord where
  publicHash := WebcashRecord.publicHash
  amountWats := WebcashRecord.amountWats
  namespaceOf _ := .unscoped
  spent := WebcashRecord.spent
  toFields r := fieldsOf chrono r.amountWats.toText r.spent r.createdAt r.spentAt r.origin.display []
  fromFields now hash fields := do
    let amount ← readAmount fields
    return ⟨hash, amount, readSpent fields, readCreatedAt chrono now fields, readSpentAt chrono fields,
      WebcashOrigin.ofText (fields.lookup "origin")⟩
  toJson r := docOf chrono r.publicHash r.spent r.createdAt r.spentAt r.origin.display
    [("amount_wats", .num r.amountWats.val)]
  fromJson doc := do
    let hash ← docStr doc "public_hash"
    let amount ← docI64 doc "amount_wats"
    let spent ← docBool doc "spent"
    let createdAt ← docTime chrono doc "created_at"
    let spentAt ← docOptTime chrono doc "spent_at"
    let origin ← docStr doc "origin"
    if origin = "mined" ∨ origin = "replaced" then
      return ⟨hash, amount, spent, createdAt, spentAt, WebcashOrigin.ofText (some origin)⟩
    else none
  names_nodup _ := fieldsOf_names_nodup chrono (by simp) (by simp)
  amount_mem _ := by simp [fieldsOf]
  spent_mem _ := by simp [fieldsOf]
  json_spent _ := lookup_docOf_spent _ _ _ _ _ _ _

/-! ## Voucher and RGB -/

/-- `VoucherOrigin` and `RgbOrigin`. -/
inductive IssuedOrigin
  | mined
  | issued
  | replaced
  deriving DecidableEq

def IssuedOrigin.display : IssuedOrigin → String
  | mined => "mined"
  | issued => "issued"
  | replaced => "replaced"

/-- The voucher reading of `origin`. -/
def voucherOrigin (s : Option String) : IssuedOrigin :=
  if s = some "issued" then .issued else if s = some "replaced" then .replaced else .mined

/-- The RGB reading also knows the legacy spelling `transferred`. -/
def rgbOrigin (s : Option String) : IssuedOrigin :=
  if s = some "issued" then .issued
  else if s = some "replaced" ∨ s = some "transferred" then .replaced else .mined

/-- serde's derived reading of a lowercase variant name. -/
def docOrigin (doc : Doc) : Option IssuedOrigin :=
  (docStr doc "origin").bind fun s =>
    if s = "mined" then some .mined else if s = "issued" then some .issued
    else if s = "replaced" then some .replaced else none

structure VoucherRecord where
  publicHash : String
  amountWats : I64
  spent : Bool
  createdAt : DateTime
  spentAt : Option DateTime
  origin : IssuedOrigin
  contractId : ContractId
  issuerFp : PgpFingerprint
  deriving DecidableEq

structure RgbFungibleRecord where
  publicHash : String
  amountWats : I64
  spent : Bool
  createdAt : DateTime
  spentAt : Option DateTime
  origin : IssuedOrigin
  contractId : ContractId
  issuerFp : PgpFingerprint
  htlcState : Option HtlcState
  deriving DecidableEq

structure RgbCollectibleRecord where
  publicHash : String
  spent : Bool
  createdAt : DateTime
  spentAt : Option DateTime
  origin : IssuedOrigin
  contractId : ContractId
  issuerFp : PgpFingerprint
  htlcState : Option HtlcState
  deriving DecidableEq

/-- The JSON members an issued record adds. -/
def issuedDoc (c : ContractId) (i : PgpFingerprint) (htlc : Option HtlcState) : List (String × Json) :=
  ("contract_id", .str c.id) :: ("issuer_fp", .str i.hex) ::
    ((htlc.map fun s => [("htlc_state", s.toDoc)]).getD [])

def voucherCodec (chrono : Codec) : HashRecord VoucherRecord where
  publicHash := VoucherRecord.publicHash
  amountWats := VoucherRecord.amountWats
  namespaceOf r := .scopedTo r.contractId r.issuerFp
  spent := VoucherRecord.spent
  toFields r := fieldsOf chrono r.amountWats.toText r.spent r.createdAt r.spentAt r.origin.display
    (issuedTail r.contractId r.issuerFp none)
  fromFields now hash fields := do
    let amount ← readAmount fields
    let contract ← fields.lookup "contract_id"
    let issuer ← fields.lookup "issuer_fp"
    return ⟨hash, amount, readSpent fields, readCreatedAt chrono now fields, readSpentAt chrono fields,
      voucherOrigin (fields.lookup "origin"), ⟨contract⟩, ⟨issuer⟩⟩
  toJson r := docOf chrono r.publicHash r.spent r.createdAt r.spentAt r.origin.display
    (("amount_wats", .num r.amountWats.val) :: issuedDoc r.contractId r.issuerFp none)
  fromJson doc := do
    let hash ← docStr doc "public_hash"
    let amount ← docI64 doc "amount_wats"
    let spent ← docBool doc "spent"
    let createdAt ← docTime chrono doc "created_at"
    let spentAt ← docOptTime chrono doc "spent_at"
    let origin ← docOrigin doc
    let contract ← docStr doc "contract_id"
    let issuer ← docStr doc "issuer_fp"
    return ⟨hash, amount, spent, createdAt, spentAt, origin, ⟨contract⟩, ⟨issuer⟩⟩
  names_nodup r := fieldsOf_names_nodup chrono (issuedTail_names _ _ _).1 (issuedTail_names _ _ _).2
  amount_mem _ := by simp [fieldsOf]
  spent_mem _ := by simp [fieldsOf]
  json_spent _ := lookup_docOf_spent _ _ _ _ _ _ _

def rgbFungibleCodec (chrono : Codec) (json : HtlcJson) : HashRecord RgbFungibleRecord where
  publicHash := RgbFungibleRecord.publicHash
  amountWats := RgbFungibleRecord.amountWats
  namespaceOf r := .scopedTo r.contractId r.issuerFp
  spent := RgbFungibleRecord.spent
  toFields r := fieldsOf chrono r.amountWats.toText r.spent r.createdAt r.spentAt r.origin.display
    (issuedTail r.contractId r.issuerFp (r.htlcState.map json.toJson))
  fromFields now hash fields := do
    let amount ← readAmount fields
    let contract ← fields.lookup "contract_id"
    let issuer ← fields.lookup "issuer_fp"
    return ⟨hash, amount, readSpent fields, readCreatedAt chrono now fields, readSpentAt chrono fields,
      rgbOrigin (fields.lookup "origin"), ⟨contract⟩, ⟨issuer⟩,
        (fields.lookup "htlc_state").bind json.fromJson⟩
  toJson r := docOf chrono r.publicHash r.spent r.createdAt r.spentAt r.origin.display
    (("amount_wats", .num r.amountWats.val) :: issuedDoc r.contractId r.issuerFp r.htlcState)
  fromJson doc := do
    let hash ← docStr doc "public_hash"
    let amount ← docI64 doc "amount_wats"
    let spent ← docBool doc "spent"
    let createdAt ← docTime chrono doc "created_at"
    let spentAt ← docOptTime chrono doc "spent_at"
    let origin ← docOrigin doc
    let contract ← docStr doc "contract_id"
    let issuer ← docStr doc "issuer_fp"
    let htlc ← docHtlc doc
    return ⟨hash, amount, spent, createdAt, spentAt, origin, ⟨contract⟩, ⟨issuer⟩, htlc⟩
  names_nodup r := fieldsOf_names_nodup chrono (issuedTail_names _ _ _).1 (issuedTail_names _ _ _).2
  amount_mem _ := by simp [fieldsOf]
  spent_mem _ := by simp [fieldsOf]
  json_spent _ := lookup_docOf_spent _ _ _ _ _ _ _

/-- The collectible stores `amount_wats = 0` and does not read it back. -/
def rgbCollectibleCodec (chrono : Codec) (json : HtlcJson) : HashRecord RgbCollectibleRecord where
  publicHash := RgbCollectibleRecord.publicHash
  amountWats _ := 0
  namespaceOf r := .scopedTo r.contractId r.issuerFp
  spent := RgbCollectibleRecord.spent
  toFields r := fieldsOf chrono "0" r.spent r.createdAt r.spentAt r.origin.display
    (issuedTail r.contractId r.issuerFp (r.htlcState.map json.toJson))
  fromFields now hash fields := do
    let contract ← fields.lookup "contract_id"
    let issuer ← fields.lookup "issuer_fp"
    return ⟨hash, readSpent fields, readCreatedAt chrono now fields, readSpentAt chrono fields,
      rgbOrigin (fields.lookup "origin"), ⟨contract⟩, ⟨issuer⟩,
        (fields.lookup "htlc_state").bind json.fromJson⟩
  toJson r := docOf chrono r.publicHash r.spent r.createdAt r.spentAt r.origin.display
    (issuedDoc r.contractId r.issuerFp r.htlcState)
  fromJson doc := do
    let hash ← docStr doc "public_hash"
    let spent ← docBool doc "spent"
    let createdAt ← docTime chrono doc "created_at"
    let spentAt ← docOptTime chrono doc "spent_at"
    let origin ← docOrigin doc
    let contract ← docStr doc "contract_id"
    let issuer ← docStr doc "issuer_fp"
    let htlc ← docHtlc doc
    return ⟨hash, spent, createdAt, spentAt, origin, ⟨contract⟩, ⟨issuer⟩, htlc⟩
  names_nodup r := fieldsOf_names_nodup chrono (issuedTail_names _ _ _).1 (issuedTail_names _ _ _).2
  amount_mem _ := by simp only [fieldsOf, List.mem_cons]; left; rfl
  spent_mem _ := by simp [fieldsOf]
  json_spent _ := lookup_docOf_spent _ _ _ _ _ _ _

/-! ## Reading locks back -/

def lockOfFields (json : HtlcJson) (fields : Fields) : Option HtlcState :=
  (fields.lookup "htlc_state").bind json.fromJson

def lockOfDoc (doc : Doc) : Option HtlcState := (docHtlc doc).getD none

/-- A record type with a lock. Whatever else a codec reads, the spent flag and the lock come from
their own fields. -/
structure LockCodec {ρ : Type} (H : HashRecord ρ) (json : HtlcJson) where
  htlcState : ρ → Option HtlcState
  ofFields : ∀ {now hash fields r}, H.fromFields now hash fields = some r →
    H.spent r = readSpent fields ∧ htlcState r = lockOfFields json fields
  ofDoc : ∀ {doc r}, H.fromJson doc = some r → docBool doc "spent" = some (H.spent r) ∧
    htlcState r = lockOfDoc doc

def rgbFungibleLocks (chrono : Codec) (json : HtlcJson) : LockCodec (rgbFungibleCodec chrono json) json where
  htlcState := RgbFungibleRecord.htlcState
  ofFields h := by
    simp only [rgbFungibleCodec, bind, pure, Option.bind_eq_some_iff, Option.some.injEq] at h
    obtain ⟨_, -, _, -, _, -, rfl⟩ := h
    exact ⟨rfl, rfl⟩
  ofDoc h := by
    simp only [rgbFungibleCodec, bind, pure, Option.bind_eq_some_iff, Option.some.injEq] at h
    obtain ⟨_, -, _, -, _, hs, _, -, _, -, _, -, _, -, _, -, _, hl, rfl⟩ := h
    exact ⟨hs, by rw [lockOfDoc, hl]; rfl⟩

def rgbCollectibleLocks (chrono : Codec) (json : HtlcJson) : LockCodec (rgbCollectibleCodec chrono json) json where
  htlcState := RgbCollectibleRecord.htlcState
  ofFields h := by
    simp only [rgbCollectibleCodec, bind, pure, Option.bind_eq_some_iff, Option.some.injEq] at h
    obtain ⟨_, -, _, -, rfl⟩ := h
    exact ⟨rfl, rfl⟩
  ofDoc h := by
    simp only [rgbCollectibleCodec, bind, pure, Option.bind_eq_some_iff, Option.some.injEq] at h
    obtain ⟨_, -, _, hs, _, -, _, -, _, -, _, -, _, -, _, hl, rfl⟩ := h
    exact ⟨hs, by rw [lockOfDoc, hl]; rfl⟩

end Webycash
