import Webycash.Asset.Records
import Webycash.Storage.Fdb
/-!
# Records read back

A record goes to Redis as the fields of a HASH and to FoundationDB as a JSON document. `RoundTrip`
says that both forms read back as the record, and that a document marked spent still reads as a
record of the same name; the four codecs have it wherever `chrono` and serde read back what they
wrote.
-/

namespace Webycash

/-- What `chrono` documents for instants it can write: RFC 3339 text and serde's text are read
back, and serde also reads the RFC 3339 text. -/
structure Codec.ReadsBack (chrono : Codec) (Clock : DateTime → Prop) : Prop where
  rfc3339 : ∀ {t}, Clock t → chrono.parseFromRfc3339 (chrono.toRfc3339 t) = some t
  serde : ∀ {t}, Clock t → chrono.deserialize (chrono.serialize t) = some t
  stamp : ∀ {t}, Clock t → chrono.deserialize (chrono.toRfc3339 t) = some t

/-- serde reads back the lock it wrote; the timeout is a `u64`. -/
def HtlcJson.ReadsBack (json : HtlcJson) : Prop :=
  ∀ s : HtlcState, s.refundAfterUnix < 18446744073709551616 → json.fromJson (json.toJson s) = some s

/-- Both stored forms of a valid record read back as the record. -/
structure RoundTrip {ρ : Type} (H : HashRecord ρ) (chrono : Codec) (Clock : DateTime → Prop)
    (Valid : ρ → Prop) : Prop where
  fields : ∀ {r}, Valid r → ∀ now, H.fromFields now (H.publicHash r) (H.fieldMap r) = some r
  json : ∀ {r}, Valid r → H.fromJson (H.toJson r) = some r
  spend : ∀ {doc r now}, Clock now → Valid r → H.fromJson doc = some r →
    ∃ r', H.fromJson (Fdb.spendDoc (chrono.toRfc3339 now) doc) = some r' ∧ Valid r' ∧
      H.publicHash r' = H.publicHash r ∧ H.namespaceOf r' = H.namespaceOf r

section

variable {chrono : Codec} {json : HtlcJson} {Clock : DateTime → Prop}

/-- The instants of a record can be written. -/
def TimesValid (Clock : DateTime → Prop) (createdAt : DateTime) (spentAt : Option DateTime) : Prop :=
  Clock createdAt ∧ ∀ t, spentAt = some t → Clock t

/-- `chrono` parses the RFC 3339 text it printed of the instants of a record. -/
def Codec.ReadsTimes (chrono : Codec) (createdAt : DateTime) (spentAt : Option DateTime) : Prop :=
  chrono.parseFromRfc3339 (chrono.toRfc3339 createdAt) = some createdAt ∧
    ∀ t, spentAt = some t → chrono.parseFromRfc3339 (chrono.toRfc3339 t) = some t

theorem Codec.ReadsBack.times (hc : chrono.ReadsBack Clock) {createdAt : DateTime} {spentAt : Option DateTime}
    (ht : TimesValid Clock createdAt spentAt) : chrono.ReadsTimes createdAt spentAt :=
  ⟨hc.rfc3339 ht.1, fun t h => hc.rfc3339 (ht.2 t h)⟩

/-- serde parses the text it printed of a lock. -/
def HtlcJson.ReadsLock (json : HtlcJson) (htlc : Option HtlcState) : Prop :=
  ∀ s, htlc = some s → json.fromJson (json.toJson s) = some s

theorem HtlcJson.readsLock_ofState (s : HtlcState) : (HtlcJson.ofState s).ReadsLock (some s) := by
  intro s' h
  obtain rfl : s = s' := Option.some.inj h
  dsimp only [HtlcJson.ofState]
  rw [if_pos rfl]

/-- The timeout of a lock is a `u64`. -/
def LockValid (htlc : Option HtlcState) : Prop := ∀ s, htlc = some s → s.refundAfterUnix < 18446744073709551616

theorem HtlcJson.ReadsBack.lock (hjson : json.ReadsBack) {htlc : Option HtlcState} (hlock : LockValid htlc) :
    json.ReadsLock htlc :=
  fun s h => hjson s (hlock s h)

/-- The two maps hold the same under the names a decoder looks at. -/
def AgreeOn (names : List String) (f g : Fields) : Prop := ∀ n ∈ names, f.lookup n = g.lookup n

/-! ## The shared fields -/

section Fields

variable {amount origin : String} {spent : Bool} {createdAt : DateTime} {spentAt : Option DateTime}
  {tail : List (String × String)}

/-- What was put under a name. -/
theorem lookup_fieldsOf (hnd : (tail.map Prod.fst).Nodup)
    (hdisj : ∀ n ∈ tail.map Prod.fst, n ∉ baseNames) {n v : String}
    (hmem : (n, v) ∈ fieldsOf chrono amount spent createdAt spentAt origin tail) :
    (FMap.ofPairs (fieldsOf chrono amount spent createdAt spentAt origin tail)).lookup n = some v := by
  rw [FMap.lookup_ofPairs, FMap.lastPut_of_mem (fieldsOf_names_nodup chrono hnd hdisj) hmem]

/-- The readers of the shared fields give back what `fieldsOf` wrote. -/
theorem read_fieldsOf (ht : chrono.ReadsTimes createdAt spentAt) (hnd : (tail.map Prod.fst).Nodup)
    (hdisj : ∀ n ∈ tail.map Prod.fst, n ∉ baseNames) (now : DateTime) {f : Fields}
    (hf : AgreeOn baseNames f (FMap.ofPairs (fieldsOf chrono amount spent createdAt spentAt origin tail))) :
    f.lookup "amount_wats" = some amount ∧ readSpent f = spent ∧ readCreatedAt chrono now f = createdAt ∧
      readSpentAt chrono f = spentAt ∧ f.lookup "origin" = some origin := by
  have hget : ∀ {n v}, n ∈ baseNames → (n, v) ∈ fieldsOf chrono amount spent createdAt spentAt origin tail →
      f.lookup n = some v := fun hn hmem => (hf _ hn).trans (lookup_fieldsOf hnd hdisj hmem)
  refine ⟨hget (by decide) (by simp [fieldsOf]), ?_, ?_, ?_, hget (by decide) (by simp [fieldsOf])⟩
  · rw [readSpent, hget (v := if spent then "1" else "0") (by decide) (by simp [fieldsOf])]
    cases spent <;> rfl
  · rw [readCreatedAt, hget (v := chrono.toRfc3339 createdAt) (by decide) (by simp [fieldsOf]), Option.bind_some,
      ht.1, Option.getD_some]
  · cases spentAt with
    | none =>
      have hnone : f.lookup "spent_at" = none := by
        rw [hf _ (by decide), FMap.lookup_ofPairs, FMap.lastPut_eq_none_iff]
        have htail : "spent_at" ∉ tail.map Prod.fst := fun h => hdisj _ h (by decide)
        simpa [fieldsOf, optField] using htail
      rw [readSpentAt, hnone, Option.bind_none]
    | some t =>
      rw [readSpentAt, hget (v := chrono.toRfc3339 t) (by decide) (by simp [fieldsOf, optField]),
        Option.bind_some, ht.2 t rfl]

/-- The tail is read back as it was written. -/
theorem lookup_tail (hnd : (tail.map Prod.fst).Nodup)
    (hdisj : ∀ n ∈ tail.map Prod.fst, n ∉ baseNames) (name : String) (hname : name ∉ baseNames) {f : Fields}
    (hf : f.lookup name = (FMap.ofPairs (fieldsOf chrono amount spent createdAt spentAt origin tail)).lookup name) :
    f.lookup name = FMap.lastPut tail name := by
  rw [hf, FMap.lookup_ofPairs]
  cases hlast : FMap.lastPut tail name with
  | some value =>
    refine FMap.lastPut_of_mem (fieldsOf_names_nodup chrono hnd hdisj) ?_
    have := FMap.lastPut_mem hlast
    simp [fieldsOf, this]
  | none =>
    rw [FMap.lastPut_eq_none_iff] at hlast ⊢
    simp only [baseNames, List.mem_cons, List.not_mem_nil, or_false, not_or] at hname
    cases spentAt <;> simpa [fieldsOf, optField, hname] using hlast

/-- The names an issued record adds. -/
def issuedNames : List String := ["contract_id", "issuer_fp", "htlc_state"]

/-- The namespace and the lock are read back from the fields. -/
theorem read_issuedTail {c : ContractId} {i : PgpFingerprint} {htlc : Option HtlcState} (hlock : json.ReadsLock htlc)
    {f : Fields} (hf : AgreeOn issuedNames f (FMap.ofPairs (fieldsOf chrono amount spent createdAt spentAt origin
      (issuedTail c i (htlc.map json.toJson))))) :
    f.lookup "contract_id" = some c.id ∧ f.lookup "issuer_fp" = some i.hex ∧
      (f.lookup "htlc_state").bind json.fromJson = htlc := by
  obtain ⟨hnd, hdisj⟩ := issuedTail_names c i (htlc.map json.toJson)
  rw [lookup_tail hnd hdisj "contract_id" (by decide) (hf _ (by decide)),
    lookup_tail hnd hdisj "issuer_fp" (by decide) (hf _ (by decide)),
    lookup_tail hnd hdisj "htlc_state" (by decide) (hf _ (by decide))]
  cases htlc with
  | none => simp [issuedTail, optField, FMap.lastPut]
  | some s => simp [issuedTail, optField, FMap.lastPut, hlock s rfl]

/-- The origin of an issued record, as the two spellings of the reader have it. -/
theorem origin_readsBack (o : IssuedOrigin) : voucherOrigin (some o.display) = o ∧
    rgbOrigin (some o.display) = o := by
  cases o <;> exact ⟨rfl, rfl⟩

theorem WebcashOrigin.ofText_display (o : WebcashOrigin) : WebcashOrigin.ofText (some o.display) = o := by
  cases o <;> rfl

theorem AgreeOn.left {names names' : List String} {f g : Fields} (h : AgreeOn (names ++ names') f g) :
    AgreeOn names f g :=
  fun n hn => h n (List.mem_append_left _ hn)

theorem AgreeOn.right {names names' : List String} {f g : Fields} (h : AgreeOn (names ++ names') f g) :
    AgreeOn names' f g :=
  fun n hn => h n (List.mem_append_right _ hn)

/-! Each decoder gives the record back from any map that agrees with what the encoder wrote. -/

theorem webcash_fromFields {r : WebcashRecord} (ht : chrono.ReadsTimes r.createdAt r.spentAt)
    (now : DateTime) {f : Fields} (hf : AgreeOn baseNames f ((webcashCodec chrono).fieldMap r)) :
    (webcashCodec chrono).fromFields now r.publicHash f = some r := by
  obtain ⟨hamount, hspent, hcreated, hat, horigin⟩ := read_fieldsOf ht (by simp) (by simp) now hf
  simp [webcashCodec, readAmount, hamount, hspent, hcreated, hat, horigin, WebcashOrigin.ofText_display,
    I64.ofText_toText]

theorem voucher_fromFields {r : VoucherRecord} (ht : chrono.ReadsTimes r.createdAt r.spentAt)
    (now : DateTime) {f : Fields}
    (hf : AgreeOn (baseNames ++ ["contract_id", "issuer_fp"]) f ((voucherCodec chrono).fieldMap r)) :
    (voucherCodec chrono).fromFields now r.publicHash f = some r := by
  obtain ⟨hnd, hdisj⟩ := issuedTail_names r.contractId r.issuerFp none
  obtain ⟨hamount, hspent, hcreated, hat, horigin⟩ := read_fieldsOf ht hnd hdisj now hf.left
  have hcontract := lookup_tail hnd hdisj "contract_id" (by decide) (hf.right _ (by decide))
  have hissuer := lookup_tail hnd hdisj "issuer_fp" (by decide) (hf.right _ (by decide))
  simp [voucherCodec, readAmount, hamount, hspent, hcreated, hat, horigin, (origin_readsBack r.origin).1,
    hcontract, hissuer,
    issuedTail, optField, FMap.lastPut, I64.ofText_toText]

theorem rgbFungible_fromFields {r : RgbFungibleRecord} (ht : chrono.ReadsTimes r.createdAt r.spentAt)
    (hlock : json.ReadsLock r.htlcState) (now : DateTime) {f : Fields}
    (hf : AgreeOn (baseNames ++ issuedNames) f ((rgbFungibleCodec chrono json).fieldMap r)) :
    (rgbFungibleCodec chrono json).fromFields now r.publicHash f = some r := by
  obtain ⟨hnd, hdisj⟩ := issuedTail_names r.contractId r.issuerFp (r.htlcState.map json.toJson)
  obtain ⟨hamount, hspent, hcreated, hat, horigin⟩ := read_fieldsOf ht hnd hdisj now hf.left
  obtain ⟨hcontract, hissuer, hhtlc⟩ := read_issuedTail hlock hf.right
  simp [rgbFungibleCodec, readAmount, hamount, hspent, hcreated, hat, horigin, (origin_readsBack r.origin).2,
    hcontract, hissuer,
    hhtlc, I64.ofText_toText]

theorem rgbCollectible_fromFields {r : RgbCollectibleRecord} (ht : chrono.ReadsTimes r.createdAt r.spentAt)
    (hlock : json.ReadsLock r.htlcState) (now : DateTime) {f : Fields}
    (hf : AgreeOn (baseNames ++ issuedNames) f ((rgbCollectibleCodec chrono json).fieldMap r)) :
    (rgbCollectibleCodec chrono json).fromFields now r.publicHash f = some r := by
  obtain ⟨hnd, hdisj⟩ := issuedTail_names r.contractId r.issuerFp (r.htlcState.map json.toJson)
  obtain ⟨-, hspent, hcreated, hat, horigin⟩ := read_fieldsOf ht hnd hdisj now hf.left
  obtain ⟨hcontract, hissuer, hhtlc⟩ := read_issuedTail hlock hf.right
  simp [rgbCollectibleCodec, hspent, hcreated, hat, horigin, (origin_readsBack r.origin).2, hcontract, hissuer, hhtlc]

end Fields

/-! ## The shared members -/

section Docs

variable {hash origin : String} {spent : Bool} {createdAt : DateTime} {spentAt : Option DateTime}
  {tail : List (String × Json)} {doc old : Doc}

/-- The readers of the shared members give back what `docOf` wrote. -/
theorem read_docOf (hc : chrono.ReadsBack Clock) (ht : TimesValid Clock createdAt spentAt)
    (hdoc : doc = docOf chrono hash spent createdAt spentAt origin tail) :
    docStr doc "public_hash" = some hash ∧ docBool doc "spent" = some spent ∧ docTime chrono doc "created_at" =
      some createdAt ∧
      docOptTime chrono doc "spent_at" = some spentAt ∧ docStr doc "origin" = some origin := by
  have hput : doc = FMap.putAll (FMap.putAll ∅ tail) [("public_hash", .str hash), ("spent", .bool spent),
      ("created_at", .str (chrono.serialize createdAt)),
      ("spent_at", (spentAt.map fun t => Json.str (chrono.serialize t)).getD .null), ("origin", .str origin)] := by
    rw [hdoc, docOf, FMap.putAll_append]
  have hserde := hc.serde ht.1
  subst hput
  cases spentAt with
  | none => simp [docStr, docBool, docTime, docOptTime, Json.asStr, Json.asBool, hserde]
  | some t =>
    have hspent := hc.serde (ht.2 t rfl)
    simp [docStr, docBool, docTime, docOptTime, Json.asStr, Json.asBool, hserde, hspent]

/-- The tail is read back as it was written. -/
theorem lookup_docTail (name : String) (hname : name ∉ ["public_hash", "spent", "created_at", "spent_at", "origin"])
    (hdoc : doc = docOf chrono hash spent createdAt spentAt origin tail) :
    doc.lookup name = FMap.lastPut tail name := by
  rw [hdoc, docOf, FMap.putAll_append, FMap.lookup_putAll_of_notMem (by simpa using hname)]
  exact FMap.lookup_ofPairs tail name

/-- A spent mark is read as one, the other members stay. -/
theorem read_spendDoc (hc : chrono.ReadsBack Clock) {now : DateTime} (hnow : Clock now)
    (hdoc : doc = Fdb.spendDoc (chrono.toRfc3339 now) old) :
    docBool doc "spent" = some true ∧ docOptTime chrono doc "spent_at" = some (some now) ∧
      ∀ name, name ≠ "spent" → name ≠ "spent_at" → doc.lookup name = old.lookup name := by
  have hstamp := hc.stamp hnow
  subst hdoc
  refine ⟨by simp [docBool, Fdb.spendDoc, Json.asBool], by simp [docOptTime, Fdb.spendDoc, Json.asStr, hstamp],
    fun name h₁ h₂ => ?_⟩
  rw [Fdb.spendDoc, Finmap.lookup_insert_of_ne _ h₂, Finmap.lookup_insert_of_ne _ h₁]

/-- So are the members every record has. -/
theorem read_spendDoc_rest (chrono : Codec)
    (h : ∀ name, name ≠ "spent" → name ≠ "spent_at" → doc.lookup name = old.lookup name) :
    docStr doc "public_hash" = docStr old "public_hash" ∧ docI64 doc "amount_wats" = docI64 old "amount_wats" ∧
      docTime chrono doc "created_at" = docTime chrono old "created_at" ∧
        docStr doc "origin" = docStr old "origin" := by
  refine ⟨?_, ?_, ?_, ?_⟩
  · rw [docStr, docStr, h _ (by decide) (by decide)]
  · rw [docI64, docI64, h _ (by decide) (by decide)]
  · rw [docTime, docTime, docStr, docStr, h _ (by decide) (by decide)]
  · rw [docStr, docStr, h _ (by decide) (by decide)]

/-- And those of the issued ones. -/
theorem read_spendDoc_issued (h : ∀ name, name ≠ "spent" → name ≠ "spent_at" →
    doc.lookup name = old.lookup name) :
    docStr doc "contract_id" = docStr old "contract_id" ∧ docStr doc "issuer_fp" = docStr old "issuer_fp" ∧
      docOrigin doc = docOrigin old ∧ docHtlc doc = docHtlc old := by
  refine ⟨?_, ?_, ?_, ?_⟩
  · rw [docStr, docStr, h _ (by decide) (by decide)]
  · rw [docStr, docStr, h _ (by decide) (by decide)]
  · rw [docOrigin, docOrigin, docStr, docStr, h _ (by decide) (by decide)]
  · rw [docHtlc, docHtlc, h _ (by decide) (by decide)]

theorem HtlcState.ofDoc_toDoc {s : HtlcState} (h : s.refundAfterUnix < 18446744073709551616) :
    HtlcState.ofDoc s.toDoc = some s := by
  have hrange : (0 : Int) ≤ s.refundAfterUnix ∧ (s.refundAfterUnix : Int) < 18446744073709551616 := by omega
  have hcommitted : (s.toDoc.field "committed_h_hex").bind Json.asStr = some s.committedHHex := by
    simp [HtlcState.toDoc, Json.field, FMap.lastPut, Json.asStr]
  have hrefund : (s.toDoc.field "refund_after_unix").bind Json.asInt = some (s.refundAfterUnix : Int) := by
    simp [HtlcState.toDoc, Json.field, FMap.lastPut, Json.asInt]
  have hclaim : (s.toDoc.field "claim_owner_hash_hex").bind Json.asStr = some s.claimOwnerHashHex := by
    simp [HtlcState.toDoc, Json.field, FMap.lastPut, Json.asStr]
  have howner : (s.toDoc.field "refund_owner_hash_hex").bind Json.asStr = some s.refundOwnerHashHex := by
    simp [HtlcState.toDoc, Json.field, FMap.lastPut, Json.asStr]
  unfold HtlcState.ofDoc
  refine Option.bind_eq_some_iff.2 ⟨_, hcommitted,
    Option.bind_eq_some_iff.2 ⟨_, hrefund, Option.bind_eq_some_iff.2 ⟨_, hclaim,
    Option.bind_eq_some_iff.2 ⟨_, howner, ?_⟩⟩⟩⟩
  exact if_pos hrange
end Docs

/-! ## The four codecs -/

theorem webcash_roundTrip (hc : chrono.ReadsBack Clock) :
    RoundTrip (webcashCodec chrono) chrono Clock fun r => TimesValid Clock r.createdAt r.spentAt where
  fields {r} hr now := webcash_fromFields (hc.times hr) now fun _ _ => rfl
  json {r} hr := by
    have hd : (webcashCodec chrono).toJson r = docOf chrono r.publicHash r.spent r.createdAt r.spentAt r.origin.display
      [("amount_wats", .num r.amountWats.val)] := rfl
    obtain ⟨hhash, hspent, hcreated, hat, horigin⟩ := read_docOf hc hr hd
    have hamount : docI64 ((webcashCodec chrono).toJson r) "amount_wats" = some r.amountWats := by
      have hlook := lookup_docTail "amount_wats" (by decide) hd
      simp [docI64, hlook, FMap.lastPut, Json.asInt]
    have horig := WebcashOrigin.ofText_display r.origin
    have hknown : r.origin.display = "mined" ∨ r.origin.display = "replaced" := by
      cases r.origin <;> simp [WebcashOrigin.display]
    generalize (webcashCodec chrono).toJson r = doc at hhash hspent hcreated hat horigin hamount
    simp [webcashCodec, hhash, hspent, hcreated, hat, horigin, hamount, horig, hknown]
  spend {old r now} hnow hr h := by
    generalize hdoc : Fdb.spendDoc (chrono.toRfc3339 now) old = doc
    obtain ⟨hspent, hat, hrest⟩ := read_spendDoc hc hnow hdoc.symm
    obtain ⟨hhash', hamount', hcreated', horigin'⟩ := read_spendDoc_rest chrono hrest
    simp only [webcashCodec, bind, pure, Option.bind_eq_some_iff] at h
    obtain ⟨hash, hhash, amount, hamount, _, -, createdAt, hcreated, _, -, origin, horigin, h⟩ := h
    split at h
    · rename_i hknown
      cases h
      refine ⟨⟨hash, amount, true, createdAt, some now, WebcashOrigin.ofText (some origin)⟩, ?_,
        ⟨hr.1, fun t ht => by cases ht; exact hnow⟩, rfl, rfl⟩
      simp [webcashCodec, hhash', hhash, hamount', hamount, hspent, hcreated', hcreated, hat, horigin', horigin, hknown]
    · cases h

theorem docOrigin_readsBack {doc : Doc} {o : IssuedOrigin} (h : docStr doc "origin" = some o.display) :
    docOrigin doc = some o := by
  rw [docOrigin, h]
  cases o <;> rfl

/-- The namespace and the lock are read back from the document. -/
theorem read_issuedDoc {c : ContractId} {i : PgpFingerprint} {htlc : Option HtlcState} (hlock : LockValid htlc)
    {hash origin : String}
    {spent : Bool} {createdAt : DateTime} {spentAt : Option DateTime} {first : List (String × Json)} {doc : Doc}
    (hfirst : ∀ n ∈ first.map Prod.fst, n = "amount_wats")
    (hdoc : doc = docOf chrono hash spent createdAt spentAt origin (first ++ issuedDoc c i htlc)) :
    docStr doc "contract_id" = some c.id ∧ docStr doc "issuer_fp" = some i.hex ∧ docHtlc doc = some htlc := by
  have hnone : ∀ name, name ≠ "amount_wats" → FMap.lastPut first name = none := fun name hn =>
    FMap.lastPut_eq_none_iff.2 fun hmem => hn (hfirst name hmem)
  have happ : ∀ name, name ≠ "amount_wats" → FMap.lastPut (first ++ issuedDoc c i htlc) name =
      FMap.lastPut (issuedDoc c i htlc) name := by
    intro name hn
    rw [← FMap.lookup_ofPairs, FMap.ofPairs, FMap.putAll_append, FMap.lookup_putAll]
    have hfirst' : (FMap.putAll ∅ first : Doc).lookup name = none := by
      rw [← FMap.ofPairs, FMap.lookup_ofPairs, hnone name hn]
    rw [hfirst', Option.or_none]
  have hcontract := (lookup_docTail "contract_id" (by decide) hdoc).trans (happ _ (by decide))
  have hissuer := (lookup_docTail "issuer_fp" (by decide) hdoc).trans (happ _ (by decide))
  have hhtlc := (lookup_docTail "htlc_state" (by decide) hdoc).trans (happ _ (by decide))
  cases htlc with
  | none =>
    refine ⟨by simp [docStr, hcontract, issuedDoc, FMap.lastPut, Json.asStr],
      by simp [docStr, hissuer, issuedDoc, FMap.lastPut, Json.asStr], ?_⟩
    simp [docHtlc, hhtlc, issuedDoc, FMap.lastPut]
  | some s =>
    refine ⟨by simp [docStr, hcontract, issuedDoc, FMap.lastPut, Json.asStr],
      by simp [docStr, hissuer, issuedDoc, FMap.lastPut, Json.asStr], ?_⟩
    have hs := HtlcState.ofDoc_toDoc (hlock s rfl)
    have hobj : doc.lookup "htlc_state" = some s.toDoc := by simp [hhtlc, issuedDoc, FMap.lastPut]
    rw [docHtlc, hobj]
    exact congrArg (Option.map some) hs

theorem rgbFungible_roundTrip (hc : chrono.ReadsBack Clock) (hjson : json.ReadsBack) :
    RoundTrip (rgbFungibleCodec chrono json) chrono Clock fun r =>
      TimesValid Clock r.createdAt r.spentAt ∧ LockValid r.htlcState where
  fields {r} hr now := rgbFungible_fromFields (hc.times hr.1) (hjson.lock hr.2) now fun _ _ => rfl
  json {r} hr := by
    have hd : (rgbFungibleCodec chrono json).toJson r =
      docOf chrono r.publicHash r.spent r.createdAt r.spentAt r.origin.display
      ([("amount_wats", .num r.amountWats.val)] ++ issuedDoc r.contractId r.issuerFp r.htlcState) := rfl
    obtain ⟨hhash, hspent, hcreated, hat, horigin⟩ := read_docOf hc hr.1 hd
    obtain ⟨hcontract, hissuer, hhtlc⟩ := read_issuedDoc hr.2 (by simp) hd
    have horig := docOrigin_readsBack horigin
    have hamount : docI64 ((rgbFungibleCodec chrono json).toJson r) "amount_wats" = some r.amountWats := by
      have hlook := lookup_docTail "amount_wats" (by decide) hd
      cases hlock : r.htlcState <;> simp [docI64, hlook, hlock, issuedDoc, FMap.lastPut, Json.asInt]
    generalize (rgbFungibleCodec chrono json).toJson r =
      doc at hhash hspent hcreated hat horig hamount hcontract hissuer hhtlc ⊢
    simp [rgbFungibleCodec, hhash, hspent, hcreated, hat, horig, hamount, hcontract, hissuer, hhtlc]
  spend {old r now} hnow hr h := by
    generalize hdoc : Fdb.spendDoc (chrono.toRfc3339 now) old = doc
    obtain ⟨hspent, hat, hrest⟩ := read_spendDoc hc hnow hdoc.symm
    obtain ⟨hhash', hamount', hcreated', -⟩ := read_spendDoc_rest chrono hrest
    obtain ⟨hcontract', hissuer', horigin', hhtlc'⟩ := read_spendDoc_issued hrest
    simp only [rgbFungibleCodec, bind, pure, Option.bind_eq_some_iff, Option.some.injEq] at h
    obtain ⟨hash, hhash, amount, hamount, _, -, createdAt, hcreated, _, -, origin, horigin, contract,
      hcontract, issuer,
      hissuer, htlc, hhtlc, rfl⟩ := h
    refine ⟨⟨hash, amount, true, createdAt, some now, origin, ⟨contract⟩, ⟨issuer⟩, htlc⟩, ?_,
      ⟨⟨hr.1.1, fun t ht => by cases ht; exact hnow⟩, hr.2⟩, rfl, rfl⟩
    simp [rgbFungibleCodec, hhash', hhash, hamount', hamount, hspent, hcreated', hcreated, hat, horigin',
      horigin, hcontract',
      hcontract, hissuer', hissuer, hhtlc', hhtlc]

theorem rgbCollectible_roundTrip (hc : chrono.ReadsBack Clock) (hjson : json.ReadsBack) :
    RoundTrip (rgbCollectibleCodec chrono json) chrono Clock fun r =>
      TimesValid Clock r.createdAt r.spentAt ∧ LockValid r.htlcState where
  fields {r} hr now := rgbCollectible_fromFields (hc.times hr.1) (hjson.lock hr.2) now fun _ _ => rfl
  json {r} hr := by
    have hd : (rgbCollectibleCodec chrono json).toJson r = docOf chrono r.publicHash r.spent r.createdAt r.spentAt
      r.origin.display ([] ++ issuedDoc r.contractId r.issuerFp r.htlcState) := rfl
    obtain ⟨hhash, hspent, hcreated, hat, horigin⟩ := read_docOf hc hr.1 hd
    obtain ⟨hcontract, hissuer, hhtlc⟩ := read_issuedDoc hr.2 (by simp) hd
    have horig := docOrigin_readsBack horigin
    generalize (rgbCollectibleCodec chrono json).toJson r =
      doc at hhash hspent hcreated hat horig hcontract hissuer hhtlc ⊢
    simp [rgbCollectibleCodec, hhash, hspent, hcreated, hat, horig, hcontract, hissuer, hhtlc]
  spend {old r now} hnow hr h := by
    generalize hdoc : Fdb.spendDoc (chrono.toRfc3339 now) old = doc
    obtain ⟨hspent, hat, hrest⟩ := read_spendDoc hc hnow hdoc.symm
    obtain ⟨hhash', -, hcreated', -⟩ := read_spendDoc_rest chrono hrest
    obtain ⟨hcontract', hissuer', horigin', hhtlc'⟩ := read_spendDoc_issued hrest
    simp only [rgbCollectibleCodec, bind, pure, Option.bind_eq_some_iff, Option.some.injEq] at h
    obtain ⟨hash, hhash, _, -, createdAt, hcreated, _, -, origin, horigin, contract, hcontract, issuer,
      hissuer, htlc, hhtlc,
      rfl⟩ := h
    refine ⟨⟨hash, true, createdAt, some now, origin, ⟨contract⟩, ⟨issuer⟩, htlc⟩, ?_,
      ⟨⟨hr.1.1, fun t ht => by cases ht; exact hnow⟩, hr.2⟩, rfl, rfl⟩
    simp [rgbCollectibleCodec, hhash', hhash, hspent, hcreated', hcreated, hat, horigin', horigin,
      hcontract', hcontract,
      hissuer', hissuer, hhtlc', hhtlc]

/-! ## The fields of a record, whatever stands beside them -/

section

variable {ρ : Type}

/-- `r` comes back from its fields in a map that may hold more, under names its codec does not know. -/
def FieldsReadBack (H : HashRecord ρ) (known : List String) (r : ρ) : Prop :=
  ∀ (now : DateTime) (more : List (String × String)), (∀ p ∈ more, p.1 ∉ known) →
    H.fromFields now (H.publicHash r) (FMap.putAll (H.fieldMap r) more) = some r

/-- Puts under other names change nothing a decoder looks at. -/
theorem agreeOn_putAll {known : List String} {more : List (String × String)}
    (hmore : ∀ p ∈ more, p.1 ∉ known) (f : Fields) :
    AgreeOn known (FMap.putAll f more) f := by
  intro n hn
  refine FMap.lookup_putAll_of_notMem (fun hmem => ?_) f
  obtain ⟨p, hp, rfl⟩ := List.mem_map.1 hmem
  exact hmore p hp hn

end

end

/-- **The record codecs round trip.** For the four record types, spent or not, locked or not. -/
theorem fields_readBack (chrono : Codec) (json : HtlcJson) :
    (∀ r : WebcashRecord, chrono.ReadsTimes r.createdAt r.spentAt →
      FieldsReadBack (webcashCodec chrono) baseNames r) ∧
    (∀ r : VoucherRecord, chrono.ReadsTimes r.createdAt r.spentAt →
      FieldsReadBack (voucherCodec chrono) (baseNames ++ ["contract_id", "issuer_fp"]) r) ∧
    (∀ r : RgbFungibleRecord, chrono.ReadsTimes r.createdAt r.spentAt → json.ReadsLock r.htlcState →
      FieldsReadBack (rgbFungibleCodec chrono json) (baseNames ++ issuedNames) r) ∧
    ∀ r : RgbCollectibleRecord, chrono.ReadsTimes r.createdAt r.spentAt → json.ReadsLock r.htlcState →
      FieldsReadBack (rgbCollectibleCodec chrono json) (baseNames ++ issuedNames) r :=
  ⟨fun _ ht now _ hmore => webcash_fromFields ht now (agreeOn_putAll hmore _),
    fun _ ht now _ hmore => voucher_fromFields ht now (agreeOn_putAll hmore _),
    fun _ ht hlock now _ hmore => rgbFungible_fromFields ht hlock now (agreeOn_putAll hmore _),
    fun _ ht hlock now _ hmore => rgbCollectible_fromFields ht hlock now (agreeOn_putAll hmore _)⟩

namespace Sample

/-- A lock, as a swap leaves it. -/
def keptLock : HtlcState := ⟨"02d449a3", 1714003200, "ffe054fe", "92e4a0ca"⟩

/-- A spent collectible under that lock. -/
def keptCollectible : RgbCollectibleRecord :=
  ⟨"5f3a", true, ⟨0⟩, some ⟨0⟩, .replaced, ⟨"rgb21-art"⟩, ⟨"aabbccdd"⟩, some keptLock⟩

end Sample

/-- It comes back, beside a field of a later version. -/
theorem fields_readBack_locked :
    (rgbCollectibleCodec .atEpoch (.ofState Sample.keptLock)).fromFields ⟨0⟩ "5f3a"
      (FMap.putAll ((rgbCollectibleCodec .atEpoch (.ofState Sample.keptLock)).fieldMap Sample.keptCollectible)
        [("royalty_bps", "250")]) = some Sample.keptCollectible := by
  have htimes : Codec.atEpoch.ReadsTimes Sample.keptCollectible.createdAt Sample.keptCollectible.spentAt := by
    refine ⟨by decide, fun t h => ?_⟩
    cases h
    decide
  have hlock : (HtlcJson.ofState Sample.keptLock).ReadsLock Sample.keptCollectible.htlcState :=
    HtlcJson.readsLock_ofState _
  exact (fields_readBack .atEpoch (.ofState Sample.keptLock)).2.2.2 Sample.keptCollectible htimes hlock ⟨0⟩
    [("royalty_bps", "250")] (by simp [baseNames, issuedNames])

end Webycash
