import Webycash.Lib.Represent
import Webycash.Storage.Backend
import Webycash.Storage.Cache
import Webycash.Storage.DynamoItems
/-!
# What a ledger is for

A ledger keeps records under keys. It has one write: distinct unspent records are marked spent and
records with new keys are put, or nothing happens. `Ledger.store` is the trait over that and
nothing else: no HASH, no item, no document, no script, no transaction, and no text for a refusal.
`MarkedStore` says of a record type what marking a record means in each stored form.
-/

namespace Webycash

/-- `mark` marks a record spent, to the same effect in every stored form. -/
structure MarksSpent {ρ : Type} (H : HashRecord ρ) (chrono : Codec) (Clock : DateTime → Prop)
    (mark : DateTime → ρ → ρ) : Prop where
  hash : ∀ now r, H.publicHash (mark now r) = H.publicHash r
  scope : ∀ now r, H.namespaceOf (mark now r) = H.namespaceOf r
  spent : ∀ now r, H.spent (mark now r) = true
  fields : ∀ now r, Redis.spentFields (chrono.toRfc3339 now) (H.fieldMap r) = H.fieldMap (mark now r)
  json : ∀ {now doc r}, Clock now → H.fromJson doc = some r →
    H.fromJson (Fdb.spendDoc (chrono.toRfc3339 now) doc) = some (mark now r)
  flag : ∀ {doc r}, H.fromJson doc = some r → docBool doc "spent" = some (H.spent r)

/-- A store whose records can be marked. -/
structure MarkedStore (ρ : Type) extends FaithfulStore ρ where
  markSpent : DateTime → ρ → ρ
  marks : MarksSpent codec chrono Clock markSpent
  mark_valid : ∀ {now r}, Clock now → Valid r → Valid (markSpent now r)
  takesHash : Dynamo.TakesHash codec

/-! ## The four record types -/

section

variable {chrono : Codec} {json : HtlcJson} {Clock : DateTime → Prop}

/-- A spend overwrites two fields. -/
theorem spentFields_fieldsOf (chrono : Codec) (now : DateTime) {amount origin : String} {spent : Bool}
    {createdAt : DateTime} {spentAt : Option DateTime} {tail : List (String × String)}
    (hdisj : ∀ n ∈ tail.map Prod.fst, n ∉ baseNames) :
    Redis.spentFields (chrono.toRfc3339 now)
      (FMap.ofPairs (fieldsOf chrono amount spent createdAt spentAt origin tail)) =
      FMap.ofPairs (fieldsOf chrono amount true createdAt (some now) origin tail) := by
  have hspent : FMap.lastPut tail "spent" = none := FMap.lastPut_eq_none_iff.2 fun h => hdisj _ h (by decide)
  have hat : FMap.lastPut tail "spent_at" = none := FMap.lastPut_eq_none_iff.2 fun h => hdisj _ h (by decide)
  refine Finmap.ext_lookup fun name => ?_
  rw [Redis.lookup_spentFields, FMap.lookup_ofPairs, FMap.lookup_ofPairs]
  by_cases hname : name = "spent_at"
  · subst hname
    simp [fieldsOf, optField, FMap.lastPut, hat]
  by_cases hname' : name = "spent"
  · subst hname'
    simp [fieldsOf, optField, FMap.lastPut, hspent]
  rw [if_neg hname, if_neg hname']
  cases spentAt <;> simp [fieldsOf, optField, FMap.lastPut, hname, hname']

theorem TimesValid.mark {now createdAt : DateTime} {spentAt : Option DateTime}
    (h : TimesValid Clock createdAt spentAt) (hnow : Clock now) :
    TimesValid Clock createdAt (some now) := by
  refine ⟨h.1, fun t ht => ?_⟩
  cases ht
  exact hnow

theorem webcash_marksSpent (hc : chrono.ReadsBack Clock) :
    MarksSpent (webcashCodec chrono) chrono Clock fun now r => { r with spent := true, spentAt := some now } where
  hash _ _ := rfl
  scope _ _ := rfl
  spent _ _ := rfl
  fields now _ := spentFields_fieldsOf chrono now (by simp)
  json {now old r} hnow h := by
    generalize hdoc : Fdb.spendDoc (chrono.toRfc3339 now) old = doc
    obtain ⟨hspent, hat, hrest⟩ := read_spendDoc hc hnow hdoc.symm
    obtain ⟨hhash', hamount', hcreated', horigin'⟩ := read_spendDoc_rest chrono hrest
    simp only [webcashCodec, bind, pure, Option.bind_eq_some_iff] at h
    obtain ⟨hash, hhash, amount, hamount, _, -, createdAt, hcreated, _, -, origin, horigin, h⟩ := h
    split at h
    · rename_i hknown
      cases h
      simp [webcashCodec, hhash', hhash, hamount', hamount, hspent, hcreated', hcreated, hat, horigin', horigin, hknown]
    · cases h
  flag {doc r} h := by
    simp only [webcashCodec, bind, pure, Option.bind_eq_some_iff] at h
    obtain ⟨_, -, _, -, _, hs, _, -, _, -, _, -, h⟩ := h
    split at h
    · cases h
      exact hs
    · cases h

theorem rgbFungible_marksSpent (hc : chrono.ReadsBack Clock) :
    MarksSpent (rgbFungibleCodec chrono json) chrono Clock fun now r =>
      { r with spent := true, spentAt := some now } where
  hash _ _ := rfl
  scope _ _ := rfl
  spent _ _ := rfl
  fields now _ := spentFields_fieldsOf chrono now (issuedTail_names _ _ _).2
  json {now old r} hnow h := by
    generalize hdoc : Fdb.spendDoc (chrono.toRfc3339 now) old = doc
    obtain ⟨hspent, hat, hrest⟩ := read_spendDoc hc hnow hdoc.symm
    obtain ⟨hhash', hamount', hcreated', -⟩ := read_spendDoc_rest chrono hrest
    obtain ⟨hcontract', hissuer', horigin', hhtlc'⟩ := read_spendDoc_issued hrest
    simp only [rgbFungibleCodec, bind, pure, Option.bind_eq_some_iff, Option.some.injEq] at h
    obtain ⟨hash, hhash, amount, hamount, _, -, createdAt, hcreated, _, -, origin, horigin, contract,
      hcontract, issuer,
      hissuer, htlc, hhtlc, rfl⟩ := h
    simp [rgbFungibleCodec, hhash', hhash, hamount', hamount, hspent, hcreated', hcreated, hat, horigin',
      horigin, hcontract',
      hcontract, hissuer', hissuer, hhtlc', hhtlc]
  flag h := ((rgbFungibleLocks chrono json).ofDoc h).1

theorem rgbCollectible_marksSpent (hc : chrono.ReadsBack Clock) :
    MarksSpent (rgbCollectibleCodec chrono json) chrono Clock fun now r =>
      { r with spent := true, spentAt := some now } where
  hash _ _ := rfl
  scope _ _ := rfl
  spent _ _ := rfl
  fields now _ := spentFields_fieldsOf chrono now (issuedTail_names _ _ _).2
  json {now old r} hnow h := by
    generalize hdoc : Fdb.spendDoc (chrono.toRfc3339 now) old = doc
    obtain ⟨hspent, hat, hrest⟩ := read_spendDoc hc hnow hdoc.symm
    obtain ⟨hhash', -, hcreated', -⟩ := read_spendDoc_rest chrono hrest
    obtain ⟨hcontract', hissuer', horigin', hhtlc'⟩ := read_spendDoc_issued hrest
    simp only [rgbCollectibleCodec, bind, pure, Option.bind_eq_some_iff, Option.some.injEq] at h
    obtain ⟨hash, hhash, _, -, createdAt, hcreated, _, -, origin, horigin, contract, hcontract, issuer,
      hissuer, htlc, hhtlc,
      rfl⟩ := h
    simp [rgbCollectibleCodec, hhash', hhash, hspent, hcreated', hcreated, hat, horigin', horigin,
      hcontract', hcontract,
      hissuer', hissuer, hhtlc', hhtlc]
  flag h := ((rgbCollectibleLocks chrono json).ofDoc h).1

variable (keys : KeyStrategy) (serviceError : String) (hc : chrono.ReadsBack Clock) (hjson : json.ReadsBack)

def markedWebcash : MarkedStore WebcashRecord where
  toFaithfulStore := webcashStore keys serviceError hc
  markSpent now r := { r with spent := true, spentAt := some now }
  marks := webcash_marksSpent hc
  mark_valid hnow h := TimesValid.mark h hnow
  takesHash := Dynamo.webcash_takesHash

def markedRgbFungible : MarkedStore RgbFungibleRecord where
  toFaithfulStore := rgbFungibleStore keys serviceError hc hjson
  markSpent now r := { r with spent := true, spentAt := some now }
  marks := rgbFungible_marksSpent hc
  mark_valid hnow h := ⟨TimesValid.mark h.1 hnow, h.2⟩
  takesHash := Dynamo.rgbFungible_takesHash

def markedRgbCollectible : MarkedStore RgbCollectibleRecord where
  toFaithfulStore := rgbCollectibleStore keys serviceError hc hjson
  markSpent now r := { r with spent := true, spentAt := some now }
  marks := rgbCollectible_marksSpent hc
  mark_valid hnow h := ⟨TimesValid.mark h.1 hnow, h.2⟩
  takesHash := Dynamo.rgbCollectible_takesHash

end

/-! ## The ledger -/

structure Ledger (ρ : Type) where
  records : FMap String ρ
  mining : Option MiningState

namespace Ledger

section

variable {ρ : Type}

def empty : Ledger ρ := ⟨∅, none⟩

variable (M : MarkedStore ρ) (now : DateTime)

/-- Which keys hold a record, and which of them a spent one. -/
def seals (L : Ledger ρ) : Seals String := fun k => (L.records.lookup k).map M.codec.spent

/-- The records of `ins` marked and those of `outs` put. -/
def exchanged (ins : List String) (outs : List ρ) (records : FMap String ρ) : FMap String ρ :=
  FMap.putAll (FMap.through (M.markSpent now) ins records) (outs.map fun r => (M.recordKey r, r))

/-- **The write.** -/
def exchange (ins : List String) (outs : List ρ) (L : Ledger ρ) : Except String Unit × Ledger ρ :=
  if (L.seals M).Accepts ins (outs.map M.recordKey) then (.ok (),
    { L with records := exchanged M now ins outs L.records })
  else (.error "", L)

/-- One op after another, each on its own. -/
def batchReplace (ns : Namespace) : List (ReplaceOp ρ) → Ledger ρ → List ReplaceResult × Ledger ρ
  | [], L => ([], L)
  | op :: ops, L =>
    let (answer, L₁) := exchange M now (inputKeys M.toStoreConfig ns op) op.outputs L
    let (results, L₂) := batchReplace ns ops L₁
    (ReplaceResult.ofExcept answer :: results, L₂)

/-- One burn after another, up to the first that is refused. -/
def batchBurn (ns : Namespace) : List (String × BurnRecord) → Ledger ρ → Except String Unit × Ledger ρ
  | [], L => (.ok (), L)
  | (hash, _) :: ops, L =>
    match exchange M now [M.tokenKey ns hash] [] L with
    | (.error e, L₁) => (.error e, L₁)
    | (.ok (), L₁) => batchBurn ns ops L₁

def store : LedgerStore (Ledger ρ) ρ where
  insertTokens records := exchange M now [] records
  getTokens ns hashes L := .ok (hashes.map fun h => L.records.lookup (M.tokenKey ns h))
  checkTokens ns hashes L := .ok (hashes.map fun h => (h, L.seals M (M.tokenKey ns h)))
  batchReplace := batchReplace M now
  batchBurn := batchBurn M now
  getMiningState L := .ok L.mining
  updateMiningState state L := (.ok (), { L with mining := some state })

end

end Ledger

end Webycash
