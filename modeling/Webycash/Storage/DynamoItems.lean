import Webycash.Storage.Marks
/-!
# What DynamoDB gives back

An item holds every field of its record but the hash, which `item_to_record` cuts out of the
partition key: what follows the last `:token:`. That is the hash for a key of the form
`{asset}:{contract}:{issuer}:token:{hash}`. The frozen Webcash keys are `token:{hash}`, hold no
separator, and come back whole (`itemReadsBack_iff`); the fallback that would have split
them is never reached, because `rsplit` always yields a first piece.

A key that `BatchGetItem` leaves unprocessed is not asked for again, and its slot reads like that of a
token that does not exist (`getTokens_complete_iff`).
-/

namespace Webycash.Dynamo

/-! ## The hash in the key -/

theorem tag_eq_some_iff : ∀ {t cs rest : List Char}, Wire.tag t cs = some rest ↔ cs = t ++ rest
  | [], cs, rest => by rw [Wire.tag, Option.some.injEq, List.nil_append]
  | t :: ts, [], rest => by simp [Wire.tag]
  | t :: ts, c :: cs, rest => by
    rw [Wire.tag, List.cons_append, List.cons.injEq]
    by_cases h : t = c
    · rw [if_pos h, tag_eq_some_iff]
      exact (and_iff_right h.symm).symm
    · rw [if_neg h]
      exact iff_of_false nofun fun hc => h hc.1.symm

theorem tag_eq_none_iff {t cs : List Char} : Wire.tag t cs = none ↔ ¬ t <+: cs := by
  rw [Option.eq_none_iff_forall_ne_some]
  constructor
  · rintro h ⟨rest, rfl⟩
    exact h rest (tag_eq_some_iff.2 rfl)
  · intro h rest hrest
    exact h ⟨rest, (tag_eq_some_iff.1 hrest).symm⟩

section

variable {sep t : List Char}

theorem afterLast_eq_none_iff : ∀ {cs : List Char}, afterLast sep cs = none ↔ ¬ sep <:+: cs
  | [] => by rw [afterLast, tag_eq_none_iff, List.prefix_nil, List.infix_nil]
  | c :: cs => by
    rw [afterLast, Option.or_eq_none_iff, afterLast_eq_none_iff, tag_eq_none_iff, List.infix_cons_iff, not_or]
    exact And.comm

/-- What is found follows a separator. -/
theorem afterLast_spec : ∀ {cs : List Char}, afterLast sep cs = some t → ∃ p, cs = p ++ sep ++ t
  | [], h => ⟨[], (tag_eq_some_iff.1 h).trans (by rw [List.nil_append])⟩
  | c :: cs, h => by
    rcases Option.or_eq_some_iff.1 h with h | ⟨-, h⟩
    · obtain ⟨p, hp⟩ := afterLast_spec h
      exact ⟨c :: p, by rw [hp, List.cons_append, List.cons_append]⟩
    · exact ⟨[], (tag_eq_some_iff.1 h).trans (by rw [List.nil_append])⟩

/-- Text before the last separator does not count. -/
theorem afterLast_append (h : afterLast sep cs = some t) : ∀ p : List Char, afterLast sep (p ++ cs) = some t
  | [] => h
  | c :: p => by rw [List.cons_append, afterLast, afterLast_append h p, Option.some_or]

end

/-- `:token:`, as the key strategies and `item_to_record` spell it. -/
def separator : List Char := ":token:".toList

/-- The hash does not hold the separator, nor its rest behind the separator's own colon. -/
def Splits (hash : String) : Prop := ¬ separator <:+: ':' :: hash.toList

/-- The word in the separator holds no colon. -/
theorem afterLast_token (cs : List Char) : afterLast separator ("token".toList ++ cs) = afterLast separator cs := by
  simp [afterLast, separator, Wire.tag]

/-- What follows a separator within the hash is shorter than the hash. -/
theorem afterLast_ne_hash {hash t : List Char} (h : afterLast separator (':' :: hash) = some t) : t ≠ hash := by
  rintro rfl
  obtain ⟨p, hp⟩ := afterLast_spec h
  have hlen := congrArg List.length hp
  have hsep : separator.length = 7 := rfl
  rw [List.length_cons, List.length_append, List.length_append, hsep] at hlen
  omega

theorem hashOfPk_eq (pk : String) : hashOfPk pk = ((afterLast separator pk.toList).map String.ofList).getD pk := by
  rw [hashOfPk, chars_eq_toList]
  rfl

/-- **Which keys give their hash back.** -/
theorem hashOfPk_tokenKey_iff (k : KeyStrategy) (name : String) (ns : Namespace) (hash : String) :
    hashOfPk (k.tokenKey name ns hash) = hash ↔ k = .namespacedKeys ∧ Splits hash := by
  rw [Splits, ← afterLast_eq_none_iff, hashOfPk_eq]
  cases hlast : afterLast separator (':' :: hash.toList) with
  | some t =>
    -- The last separator lies in the hash, whatever the strategy puts before it.
    have hpk : ∃ p, (k.tokenKey name ns hash).toList = p ++ ':' :: hash.toList := by
      cases k with
      | webcashLegacyKeys =>
        exact ⟨"token".toList, by simp [KeyStrategy.tokenKey, KeyStrategy.tokenPrefix, KeyStrategy.scopePrefix]⟩
      | namespacedKeys =>
        exact ⟨(name ++ ":" ++ ns.contractText ++ ":" ++ ns.issuerText ++ ":token").toList,
          by simp [KeyStrategy.tokenKey, KeyStrategy.tokenPrefix, KeyStrategy.scopePrefix]⟩
    obtain ⟨p, hp⟩ := hpk
    rw [hp, afterLast_append hlast]
    refine iff_of_false (fun h => afterLast_ne_hash hlast ?_) fun h => Option.some_ne_none t h.2
    rw [← h, Option.map_some, Option.getD_some, String.toList_ofList]
  | none =>
    cases k with
    | webcashLegacyKeys =>
      have hpk : (KeyStrategy.webcashLegacyKeys.tokenKey name ns hash).toList = "token".toList ++
          ':' :: hash.toList := by
        simp [KeyStrategy.tokenKey, KeyStrategy.tokenPrefix, KeyStrategy.scopePrefix]
      rw [hpk, afterLast_token, hlast]
      refine iff_of_false (fun h => ?_) fun h => KeyStrategy.noConfusion h.1
      have hlen := congrArg String.length h
      simp [KeyStrategy.tokenKey, KeyStrategy.tokenPrefix, KeyStrategy.scopePrefix] at hlen
    | namespacedKeys =>
      have hpk : (KeyStrategy.namespacedKeys.tokenKey name ns hash).toList =
          (name ++ ":" ++ ns.contractText ++ ":" ++ ns.issuerText).toList ++
            (':' :: ("token".toList ++ ':' :: hash.toList)) := by
        simp [KeyStrategy.tokenKey, KeyStrategy.tokenPrefix, KeyStrategy.scopePrefix]
      have hhead : afterLast separator (':' :: ("token".toList ++ ':' :: hash.toList)) = some hash.toList := by
        rw [afterLast, afterLast_token, hlast, Option.none_or]
        exact tag_eq_some_iff.2 rfl
      rw [hpk, afterLast_append hhead, Option.map_some, Option.getD_some, String.ofList_toList]
      exact iff_of_true rfl ⟨rfl, rfl⟩

/-! ## The record in the item -/

section

variable {ρ : Type} {cfg : StoreConfig ρ} {now : DateTime}

/-- A codec gives the record the hash it is told, and no field takes the key's place. -/
structure TakesHash (H : HashRecord ρ) : Prop where
  hash : ∀ {now hash fields r}, H.fromFields now hash fields = some r → H.publicHash r = hash
  names : ∀ r, "pk" ∉ (H.toFields r).map Prod.fst

theorem attributeOf_names (fields : List (String × String)) :
    (fields.map attributeOf).map Prod.fst = fields.map Prod.fst := by
  rw [List.map_map]
  rfl

theorem lookup_itemFor_pk (hH : TakesHash cfg.codec) (ns : Namespace) (r : ρ) :
    (itemFor cfg ns r).lookup "pk" = some (.S (cfg.tokenKey ns (cfg.codec.publicHash r))) := by
  have hpk : "pk" ∉ ((cfg.codec.toFields r).map attributeOf).map Prod.fst := by
    rw [attributeOf_names]
    exact hH.names r
  rw [itemFor, FMap.lookup_putAll_of_notMem hpk, Finmap.lookup_singleton_eq]

/-- A field that changes its type comes back as the text it was. -/
theorem attributeText_attributeOf {r : ρ} {p : String × String} (hp : p ∈ cfg.codec.toFields r) :
    attributeText (attributeOf p).2 = p.2 := by
  obtain ⟨name, value⟩ := p
  unfold attributeOf
  dsimp only
  by_cases hamount : name = "amount_wats"
  · rw [if_pos hamount, attributeText]
  · rw [if_neg hamount]
    by_cases hspent : name = "spent"
    · rw [if_pos hspent, attributeText]
      have hvalue : value = if cfg.codec.spent r then "1" else "0" :=
        Option.some.inj ((cfg.codec.lookup_fieldMap (hspent ▸ hp)).symm.trans (cfg.codec.lookup_spent r))
      rw [hvalue]
      cases cfg.codec.spent r <;> rfl
    · rw [if_neg hspent, attributeText]

/-- **The item holds the fields of its record.** -/
theorem itemFields_itemFor (hH : TakesHash cfg.codec) (ns : Namespace) (r : ρ) :
    itemFields (itemFor cfg ns r) = cfg.codec.fieldMap r := by
  refine Finmap.ext_lookup fun name => ?_
  by_cases hpk : name = "pk"
  · subst hpk
    rw [itemFields, FMap.lookup_mapVals, Finmap.lookup_erase, Option.map_none, HashRecord.fieldMap, FMap.lookup_ofPairs]
    exact (FMap.lastPut_eq_none_iff.2 (hH.names r)).symm
  · rw [lookup_itemFields hpk, itemFor]
    by_cases hname : name ∈ (cfg.codec.toFields r).map Prod.fst
    · obtain ⟨p, hp, rfl⟩ := List.mem_map.1 hname
      have hput : (p.1, (attributeOf p).2) ∈ (cfg.codec.toFields r).map attributeOf := List.mem_map.2 ⟨p, hp, rfl⟩
      have hnames : (((cfg.codec.toFields r).map attributeOf).map Prod.fst).Nodup := by
        rw [attributeOf_names]
        exact cfg.codec.names_nodup r
      rw [FMap.lookup_putAll_of_mem hnames hput, Option.map_some, attributeText_attributeOf hp,
        cfg.codec.lookup_fieldMap hp]
    · have hput : name ∉ ((cfg.codec.toFields r).map attributeOf).map Prod.fst := by
        rw [attributeOf_names]
        exact hname
      have hkey : name ∉ (Finmap.singleton "pk" (.S (cfg.tokenKey ns (cfg.codec.publicHash r))) : Item) :=
        fun h => hpk ((Finmap.mem_singleton _ _ _).1 h)
      rw [FMap.lookup_putAll_of_notMem hput, Finmap.lookup_eq_none.2 hkey, Option.map_none, HashRecord.fieldMap,
        FMap.lookup_ofPairs, FMap.lastPut_eq_none_iff.2 hname]

end

section

variable {chrono : Codec} {json : HtlcJson}

theorem pk_notMem_fieldsOf {amount origin : String} {spent : Bool} {createdAt : DateTime} {spentAt : Option DateTime}
    {tail : List (String × String)} (htail : "pk" ∉ tail.map Prod.fst) :
    "pk" ∉ (fieldsOf chrono amount spent createdAt spentAt origin tail).map Prod.fst := by
  cases spentAt <;> simpa [fieldsOf, optField] using htail

theorem pk_notMem_issuedTail (c : ContractId) (i : PgpFingerprint) (htlc : Option String) :
    "pk" ∉ (issuedTail c i htlc).map Prod.fst := by
  cases htlc <;> simp [issuedTail, optField]

theorem webcash_takesHash : TakesHash (webcashCodec chrono) where
  hash h := by
    simp only [webcashCodec, bind, pure, Option.bind_eq_some_iff, Option.some.injEq] at h
    obtain ⟨_, -, rfl⟩ := h
    rfl
  names _ := pk_notMem_fieldsOf (by simp)

theorem voucher_takesHash : TakesHash (voucherCodec chrono) where
  hash h := by
    simp only [voucherCodec, bind, pure, Option.bind_eq_some_iff, Option.some.injEq] at h
    obtain ⟨_, -, _, -, _, -, rfl⟩ := h
    rfl
  names _ := pk_notMem_fieldsOf (pk_notMem_issuedTail _ _ _)

theorem rgbFungible_takesHash : TakesHash (rgbFungibleCodec chrono json) where
  hash h := by
    simp only [rgbFungibleCodec, bind, pure, Option.bind_eq_some_iff, Option.some.injEq] at h
    obtain ⟨_, -, _, -, _, -, rfl⟩ := h
    rfl
  names _ := pk_notMem_fieldsOf (pk_notMem_issuedTail _ _ _)

theorem rgbCollectible_takesHash : TakesHash (rgbCollectibleCodec chrono json) where
  hash h := by
    simp only [rgbCollectibleCodec, bind, pure, Option.bind_eq_some_iff, Option.some.injEq] at h
    obtain ⟨_, -, _, -, rfl⟩ := h
    rfl
  names _ := pk_notMem_fieldsOf (pk_notMem_issuedTail _ _ _)

end

section

variable {ρ : Type} (cfg : StoreConfig ρ) (now : DateTime) (r : ρ)

/-- The field codec round-trips for the record. -/
def CodecReadsBack : Prop := cfg.codec.fromFields now (cfg.codec.publicHash r) (cfg.codec.fieldMap r) = some r

/-- The item the store writes for a record decodes to it. -/
def ItemReadsBack : Prop := itemToRecord cfg now (itemFor cfg (cfg.codec.namespaceOf r) r) = some r

variable {cfg now r}

/-- **An item reads back as its record** when its key gives the hash back. -/
theorem itemReadsBack_iff (hH : TakesHash cfg.codec) (hr : CodecReadsBack cfg now r) :
    ItemReadsBack cfg now r ↔ cfg.keys = .namespacedKeys ∧ Splits (cfg.codec.publicHash r) := by
  rw [← hashOfPk_tokenKey_iff cfg.keys cfg.name (cfg.codec.namespaceOf r), ItemReadsBack, itemToRecord,
    lookup_itemFor_pk hH]
  dsimp only
  rw [itemFields_itemFor hH]
  constructor
  · exact fun h => (hH.hash h).symm
  · intro h
    rw [StoreConfig.tokenKey, h]
    exact hr

end

/-- **Items decode to the record they encode** under namespaced keys, for a hash without the separator, and
never under the frozen Webcash keys. -/
theorem items_readBack_iff (chrono : Codec) (json : HtlcJson) (now : DateTime) :
    (∀ cfg : StoreConfig WebcashRecord, cfg.codec = webcashCodec chrono → ∀ r, CodecReadsBack cfg now r →
      (ItemReadsBack cfg now r ↔ cfg.keys = .namespacedKeys ∧ Splits r.publicHash)) ∧
    (∀ cfg : StoreConfig VoucherRecord, cfg.codec = voucherCodec chrono → ∀ r, CodecReadsBack cfg now r →
      (ItemReadsBack cfg now r ↔ cfg.keys = .namespacedKeys ∧ Splits r.publicHash)) ∧
    (∀ cfg : StoreConfig RgbFungibleRecord, cfg.codec = rgbFungibleCodec chrono json →
      ∀ r, CodecReadsBack cfg now r →
      (ItemReadsBack cfg now r ↔ cfg.keys = .namespacedKeys ∧ Splits r.publicHash)) ∧
    ∀ cfg : StoreConfig RgbCollectibleRecord, cfg.codec = rgbCollectibleCodec chrono json →
      ∀ r, CodecReadsBack cfg now r →
      (ItemReadsBack cfg now r ↔ cfg.keys = .namespacedKeys ∧ Splits r.publicHash) := by
  refine ⟨fun cfg hcodec r hr => ?_, fun cfg hcodec r hr => ?_, fun cfg hcodec r hr => ?_,
    fun cfg hcodec r hr => ?_⟩
  · rw [itemReadsBack_iff (hcodec ▸ webcash_takesHash) hr, hcodec]
    exact Iff.rfl
  · rw [itemReadsBack_iff (hcodec ▸ voucher_takesHash) hr, hcodec]
    exact Iff.rfl
  · rw [itemReadsBack_iff (hcodec ▸ rgbFungible_takesHash) hr, hcodec]
    exact Iff.rfl
  · rw [itemReadsBack_iff (hcodec ▸ rgbCollectible_takesHash) hr, hcodec]
    exact Iff.rfl

namespace Sample

/-- A mined webcash, in the store of the Webcash server. -/
def minedRecord : WebcashRecord := ⟨sha256HexOfAscii "5f3a", I64.wrap 100000000, false, ⟨0⟩, none, .mined⟩

def legacyConfig : StoreConfig WebcashRecord :=
  ⟨"webcash", .webcashLegacyKeys, webcashCodec .atEpoch, .atEpoch, "service error"⟩

/-- A voucher, in the store of the voucher server. -/
def voucherRecord : VoucherRecord :=
  ⟨sha256HexOfAscii "5f3a", I64.wrap 100000000, true, ⟨0⟩, some ⟨0⟩, .issued, ⟨"cafe-2026"⟩,
    ⟨"197f6b23"⟩⟩

def voucherConfig : StoreConfig VoucherRecord :=
  ⟨"voucher", .namespacedKeys, voucherCodec .atEpoch, .atEpoch, "service error"⟩

end Sample

open Webycash.Dynamo.Sample

/-- The Webcash record comes back under the name `token:…`. -/
theorem legacy_hash_lost : CodecReadsBack legacyConfig ⟨0⟩ minedRecord ∧
    ¬ ItemReadsBack legacyConfig ⟨0⟩ minedRecord ∧
    itemToRecord legacyConfig ⟨0⟩ (itemFor legacyConfig .unscoped minedRecord) =
      some { minedRecord with publicHash := "token:" ++ minedRecord.publicHash } := by
  have hback : itemToRecord legacyConfig ⟨0⟩ (itemFor legacyConfig .unscoped minedRecord) =
      some { minedRecord with publicHash := "token:" ++ minedRecord.publicHash } := by decide +kernel
  refine ⟨by unfold CodecReadsBack; decide +kernel, fun h => ?_, hback⟩
  have hhash := congrArg (Option.map WebcashRecord.publicHash) (hback.symm.trans h)
  exact absurd hhash (by decide +kernel)

/-- The voucher comes back as it is. -/
theorem namespaced_item_readBack : ItemReadsBack voucherConfig ⟨0⟩ voucherRecord := by
  have hfields : CodecReadsBack voucherConfig ⟨0⟩ voucherRecord := by
    unfold CodecReadsBack
    decide +kernel
  have hsplits : Splits voucherRecord.publicHash := by
    unfold Splits
    decide +kernel
  exact ((items_readBack_iff .atEpoch (.ofState ⟨"", 0, "", ""⟩) ⟨0⟩).2.1 voucherConfig rfl
    voucherRecord hfields).2
    ⟨rfl, hsplits⟩

/-! ## Keys that were not processed -/

section

variable {ρ : Type} (cfg : StoreConfig ρ) (now : DateTime) (ns : Namespace) (hashes : List String) (db : Db)
  (found : List (Option ρ))

/-- The record under a key. -/
def recordAt (pk : String) : Option ρ := (db.tokens.lookup pk).bind (itemToRecord cfg now)

/-- Every slot holds the record under its hash's key, and only where there is one. -/
def Complete : Prop :=
  found.length = hashes.length ∧ ∀ (i : Nat) (h : String), hashes[i]? = some h → ∀ r,
    found[i]? = some (some r) ↔ recordAt cfg now db (cfg.tokenKey ns h) = some r

variable {cfg now ns hashes db found} {env : Env}

/-- An answer has one slot for each hash, empty for a key that was left out. -/
theorem getTokens_ok (hok : getTokens cfg now env ns hashes db = .ok found) :
    found = hashes.map fun h => if cfg.tokenKey ns h ∈ env.unprocessedKeys then none
      else recordAt cfg now db (cfg.tokenKey ns h) := by
  unfold getTokens at hok
  dsimp only at hok
  split at hok
  · rename_i hnil
    cases hok
    rw [hnil, List.map_nil]
  split at hok
  · cases hok
  cases hok
  rw [List.map_map]
  rfl

end

/-- **Lookups are complete** exactly when no key that holds a record was left unprocessed. -/
theorem getTokens_complete_iff {ρ : Type} (cfg : StoreConfig ρ) (now : DateTime) (env : Env) (ns : Namespace)
    (hashes : List String)
    (db : Db) (found : List (Option ρ)) (hok : getTokens cfg now env ns hashes db = .ok found) :
    Complete cfg now ns hashes db found ↔
      ∀ h ∈ hashes, cfg.tokenKey ns h ∈ env.unprocessedKeys →
        recordAt cfg now db (cfg.tokenKey ns h) = none := by
  rw [getTokens_ok hok]
  constructor
  · rintro ⟨-, hall⟩ h hmem hleft
    obtain ⟨i, hi, rfl⟩ := List.mem_iff_getElem.1 hmem
    have hslot := hall i hashes[i] (List.getElem?_eq_getElem hi)
    refine Option.eq_none_iff_forall_ne_some.2 fun r hr => ?_
    have hget := (hslot r).2 hr
    rw [List.getElem?_map, List.getElem?_eq_getElem hi, Option.map_some, if_pos hleft] at hget
    cases hget
  · intro hnone
    refine ⟨List.length_map _, fun i h hi r => ?_⟩
    rw [List.getElem?_map, hi, Option.map_some, Option.some.injEq]
    by_cases hleft : cfg.tokenKey ns h ∈ env.unprocessedKeys
    · rw [if_pos hleft, hnone h (List.mem_of_getElem? hi) hleft]
    · rw [if_neg hleft]

namespace Sample

/-- The voucher, stored. -/
def voucherDb : Db := (insertTokens voucherConfig .calm [voucherRecord] .empty).2

def voucherNamespace : Namespace := .scopedTo voucherRecord.contractId voucherRecord.issuerFp

def voucherKey : String := voucherConfig.tokenKey voucherNamespace voucherRecord.publicHash

end Sample

/-- Throttled, the service leaves the only key out, and the token reads as unknown. -/
theorem throttled_lookup_incomplete :
    getTokens voucherConfig ⟨0⟩ ⟨[], [voucherKey]⟩ voucherNamespace [voucherRecord.publicHash] voucherDb =
      .ok [none] ∧
    recordAt voucherConfig ⟨0⟩ voucherDb voucherKey = some voucherRecord ∧
    ¬ Complete voucherConfig ⟨0⟩ voucherNamespace [voucherRecord.publicHash] voucherDb [none] := by
  have hrecord : recordAt voucherConfig ⟨0⟩ voucherDb voucherKey = some voucherRecord := by decide +kernel
  refine ⟨by decide +kernel, hrecord, fun h => ?_⟩
  have hslot := (h.2 0 voucherRecord.publicHash rfl voucherRecord).2 hrecord
  cases hslot

namespace Sample

def otherVoucher : VoucherRecord :=
  { voucherRecord with publicHash := sha256HexOfAscii "91d0", spent := false, spentAt := none }

def twoVouchers : Db := (insertTokens voucherConfig .calm [voucherRecord, otherVoucher] .empty).2

def unknownHash : String := sha256HexOfAscii "00"

/-- Both, and a hash between them that nothing is stored under. -/
def lookedUp : List String := [voucherRecord.publicHash, unknownHash, otherVoucher.publicHash]

/-- The service leaves the unknown key out. -/
def leavesUnknown : Env := ⟨[], [voucherConfig.tokenKey voucherNamespace unknownHash]⟩

end Sample

/-- Only a key without a record is left out: the answer is complete. -/
theorem lookup_complete_without_unknown : Complete voucherConfig ⟨0⟩ voucherNamespace lookedUp twoVouchers
    [some voucherRecord, none, some otherVoucher] :=
  (getTokens_complete_iff voucherConfig ⟨0⟩ leavesUnknown voucherNamespace lookedUp twoVouchers
    [some voucherRecord, none, some otherVoucher] (by decide +kernel)).2 (by decide +kernel)

end Webycash.Dynamo
