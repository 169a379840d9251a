import Webycash.Lib.Scatter
import Webycash.Server.HealthCheck
import Webycash.Server.Positive
/-!
# What a health check answers

The tokens of a request leave their order: they are grouped by namespace, looked up group by group in
the order a `HashMap` gives, and put back by index. Grouping keeps every token with its index
(`flatten_bucketsOf`), so what is put back is the list of the single lookups, in the order of the
request (`fillLookups_eq`). On a Redis store that holds records, a single lookup is the record under
the token's own namespace and hash (`health_check_answers`).
-/

namespace Webycash

/-! ## Groups -/

/-- The namespace of a parsed public token. -/
def PublicView.namespace (v : PublicView) : Namespace := .ofEnvelope v.envelope

/-- What the buckets hold, one after the other. -/
def flattenBuckets (buckets : List Bucket) : List (Namespace × Nat × String) :=
  buckets.flatMap fun b => b.2.map fun item => (b.1, item)

theorem flattenBuckets_cons (b : Bucket) (buckets : List Bucket) :
    flattenBuckets (b :: buckets) = (b.2.map fun item => (b.1, item)) ++ flattenBuckets buckets := List.flatMap_cons

/-- A push adds one entry. -/
theorem flatten_pushBucket (ns : Namespace) (item : Nat × String) : ∀ buckets : List Bucket,
    (flattenBuckets (pushBucket ns item buckets)).Perm ((ns, item) :: flattenBuckets buckets)
  | [] => .refl _
  | (ns', items) :: rest => by
    unfold pushBucket
    split
    · rename_i hns
      subst hns
      rw [flattenBuckets_cons, flattenBuckets_cons, List.map_append, List.append_assoc]
      exact List.perm_middle
    · rw [flattenBuckets_cons, flattenBuckets_cons]
      exact ((flatten_pushBucket ns item rest).append_left _).trans List.perm_middle

/-- What the request asks about, with the index of each token. -/
def asked (views : List PublicView) : List (Namespace × Nat × String) :=
  views.zipIdx.map fun p => (p.1.namespace, p.2, p.1.publicHash)

/-- **Grouping loses no token and no index.** -/
theorem flatten_bucketsOf (views : List PublicView) : (flattenBuckets (bucketsOf views)).Perm (asked views) := by
  have hfold : ∀ (ps : List (PublicView × Nat)) (acc : List Bucket),
      (flattenBuckets (ps.foldl (fun acc p =>
        pushBucket (.ofEnvelope p.1.envelope) (p.2, p.1.publicHash) acc) acc)).Perm
        ((ps.map fun p => (p.1.namespace, p.2, p.1.publicHash)) ++ flattenBuckets acc) := by
    intro ps
    induction ps with
    | nil => exact fun acc => .refl _
    | cons p ps ih =>
      intro acc
      rw [List.foldl_cons, List.map_cons]
      exact (ih _).trans (((flatten_pushBucket _ _ acc).append_left _).trans List.perm_middle)
  have h := hfold views.zipIdx []
  rwa [show flattenBuckets [] = [] from rfl, List.append_nil] at h

/-- An iteration order keeps the entries. -/
theorem flatten_order (order : IterationOrder) (buckets : List Bucket) :
    (flattenBuckets (order.apply buckets)).Perm (flattenBuckets buckets) := (order.perm buckets).flatMap_right _

/-! ## Lookups -/

section

variable {look : Namespace → List String → Except String (List Lookup)} {one : Namespace → String → Lookup}

/-- Looking up a bucket looks up its hashes one by one. -/
def Pointwise (look : Namespace → List String → Except String (List Lookup))
    (one : Namespace → String → Lookup) : Prop :=
  ∀ ns hashes, look ns hashes = .ok (hashes.map (one ns))

/-- The loop over the buckets puts back one lookup for each entry. -/
theorem fillLookups_eq_scatter (hlook : Pointwise look one) : ∀ (buckets : List Bucket) (lookups : List Lookup),
    fillLookups look buckets lookups =
      .ok (Scatter.scatter lookups ((flattenBuckets buckets).map fun e => (e.2.1, one e.1 e.2.2)))
  | [], _ => rfl
  | (ns, items) :: rest, lookups => by
    have hput : ∀ (items : List (Nat × String)) (acc : List Lookup),
        (items.zip ((items.map Prod.snd).map (one ns))).foldl (fun acc p => acc.set p.1.1 p.2) acc =
          Scatter.scatter acc ((items.map fun item => (ns, item)).map fun e => (e.2.1, one e.1 e.2.2)) := by
      intro items
      induction items with
      | nil => exact fun _ => rfl
      | cons item items ih => exact fun acc => ih _
    have hstep : fillLookups look ((ns, items) :: rest) lookups =
        fillLookups look rest ((items.zip ((items.map Prod.snd).map (one ns))).foldl
          (fun acc p => acc.set p.1.1 p.2) lookups) := by
      rw [fillLookups, hlook]
      rfl
    rw [hstep, hput, fillLookups_eq_scatter hlook rest, flattenBuckets_cons, List.map_append, Scatter.scatter_append]

/-- **The lookups come back in the order of the request**, whatever the order of the groups. -/
theorem fillLookups_eq (hlook : Pointwise look one) (order : IterationOrder) (views : List PublicView) :
    fillLookups look (order.apply (bucketsOf views)) (List.replicate views.length (none, none)) =
      .ok (views.map fun v => one v.namespace v.publicHash) := by
  rw [fillLookups_eq_scatter hlook]
  have hperm : ((flattenBuckets (order.apply (bucketsOf views))).map fun e => (e.2.1, one e.1 e.2.2)).Perm
      (Scatter.places (views.map fun v => one v.namespace v.publicHash)) := by
    refine (((flatten_order order _).trans (flatten_bucketsOf views)).map _).trans (.of_eq ?_)
    rw [asked, List.map_map, Scatter.places, List.zipIdx_map, List.map_map]
    rfl
  rw [Scatter.scatter_of_perm hperm (by rw [List.length_replicate, List.length_map])]

end

/-! ## A Redis store that holds records -/

section

variable {σ ρ : Type} {cfg : StoreConfig ρ} {records : FMap String ρ} {db : Redis.Db} {now : DateTime}

/-- Every hash of the store is the field map of the record under its key. -/
def Redis.Holds (cfg : StoreConfig ρ) (records : FMap String ρ) (db : Redis.Db) : Prop :=
  ∀ key, db.tokens.lookup key = (records.lookup key).map cfg.codec.fieldMap

/-- The codec reads any record's own fields, whatever hash it is given. -/
def Decodes (H : HashRecord ρ) : Prop := ∀ now hash r, ∃ r', H.fromFields now hash (H.fieldMap r) = some r'

/-- `HGET spent`. -/
theorem Redis.hget_spent (h : Redis.Holds cfg records db) (key : String) :
    (Redis.hget db.tokens key "spent").map (· == "1") = (records.lookup key).map cfg.codec.spent := by
  rw [Redis.hget, h key]
  cases records.lookup key with
  | none => rfl
  | some r =>
    rw [Option.map_some, Option.bind_some, cfg.codec.lookup_spent, Option.map_some, Option.map_some]
    cases cfg.codec.spent r <;> rfl

/-- `HGETALL`, decoded: the record's amount is the one stored. -/
theorem Redis.read_amount (hdec : Decodes cfg.codec) (hamount : AmountCodec cfg.codec)
    (h : Redis.Holds cfg records db) (key hash : String) :
    (if Redis.hgetall db.tokens key = ∅ then none
      else cfg.codec.fromFields now hash (Redis.hgetall db.tokens key)).map
      cfg.codec.amountWats = (records.lookup key).map cfg.codec.amountWats := by
  rw [Redis.hgetall, h key]
  cases records.lookup key with
  | none => rfl
  | some r =>
    obtain ⟨r', hr'⟩ := hdec now hash r
    have hread : readAmount (cfg.codec.fieldMap r) = some (cfg.codec.amountWats r) := by
      rw [readAmount, cfg.codec.lookup_amount, Option.bind_some, I64.ofText_toText]
    rw [Option.map_some, Option.getD_some, if_neg (fieldMap_ne_empty _ r), hr', Option.map_some,
      Option.map_some, ← hread,
      hamount.ofFields hr']

theorem Redis.lookBoth_pointwise (hdec : Decodes cfg.codec) (hamount : AmountCodec cfg.codec)
    (h : Redis.Holds cfg records db) :
    Pointwise (lookBoth cfg.codec (Redis.store cfg now) db) fun ns hash =>
      ((records.lookup (cfg.tokenKey ns hash)).map cfg.codec.spent,
        (records.lookup (cfg.tokenKey ns hash)).map cfg.codec.amountWats) := by
  intro ns hashes
  have hzip : ∀ hashes : List String,
      ((hashes.map fun x => (x, (Redis.hget db.tokens (cfg.tokenKey ns x) "spent").map (· == "1"))).zip
        (hashes.map fun x => if Redis.hgetall db.tokens (cfg.tokenKey ns x) = ∅ then none
          else cfg.codec.fromFields now x (Redis.hgetall db.tokens (cfg.tokenKey ns x)))).map
            (fun p => (p.1.2, p.2.map cfg.codec.amountWats)) =
        hashes.map fun hash => ((records.lookup (cfg.tokenKey ns hash)).map cfg.codec.spent,
          (records.lookup (cfg.tokenKey ns hash)).map cfg.codec.amountWats) := by
    intro hashes
    induction hashes with
    | nil => rfl
    | cons x hashes ih =>
      rw [List.map_cons, List.map_cons, List.zip_cons_cons, List.map_cons, List.map_cons, ih]
      exact congrArg (· :: _) (Prod.ext (Redis.hget_spent h _) (Redis.read_amount hdec hamount h _ _))
  exact congrArg Except.ok (hzip hashes)

theorem Redis.lookSpent_pointwise (h : Redis.Holds cfg records db) :
    Pointwise (lookSpent (Redis.store cfg now) db) fun ns hash =>
      ((records.lookup (cfg.tokenKey ns hash)).map cfg.codec.spent, none) := by
  intro ns hashes
  refine congrArg Except.ok ((List.map_map).trans (List.map_congr_left fun x _ => ?_))
  exact congrArg (·, none) (Redis.hget_spent h _)

/-! ## The answer -/

/-- The answer, from one line for each token: its key and what follows `spent`. -/
def healthAnswer (lines : List (String × String)) : String :=
  "\x7b\"status\": \"success\", \"results\": \x7b" ++
    ", ".intercalate (lines.map fun line => "\"" ++ escapeKey line.1 ++ "\": \x7b\"spent\": " ++ line.2 ++
      "\x7d") ++ "\x7d\x7d"

/-- Spent flag and, exactly for an unspent token, the stored amount. -/
def shown (H : HashRecord ρ) : Option ρ → String
  | none => "null"
  | some r =>
    if H.spent r then "true, \"amount\": null" else "false, \"amount\": \"" ++ watsToString (H.amountWats r) ++ "\""

/-- The spent flag alone. -/
def shownSpent (H : HashRecord ρ) : Option ρ → String
  | none => "null"
  | some r => if H.spent r then "true" else "false"

/-- The line of token `t`: the record under the token's own namespace and hash. -/
def lineOf (cfg : StoreConfig ρ) (records : FMap String ρ) (keyOf : String → String)
    (text : Option ρ → String) (t : String)
    (v : PublicView) : String × String := (keyOf t, text (records.lookup (cfg.tokenKey v.namespace v.publicHash)))

/-- Two lists walked together, the second one first. -/
theorem map_zip_map {α β γ : Type} {f : Lookup × String → γ} {g : α → β → γ} {one : β → Lookup}
    {keyOf : α → String} (h : ∀ a b, f (one b, keyOf a) = g a b) : ∀ (as : List α) (bs : List β),
    ((bs.map one).zip (as.map keyOf)).map f = List.zipWith g as bs
  | [], bs => by rw [List.map_nil, List.zip_nil_right, List.map_nil, List.zipWith_nil_left]
  | _ :: _, [] => rfl
  | a :: as, b :: bs => by
    rw [List.map_cons, List.map_cons, List.zip_cons_cons, List.map_cons, List.zipWith_cons_cons, map_zip_map h, h]

/-- What the handler writes from its parallel lists. -/
theorem renderResults_eq {amount : Lookup → String} {keyOf : String → String} {one : PublicView → Lookup}
    {text : PublicView → String}
    (htext : ∀ v, spentText (one v).1 ++ amount (one v) = text v) (tokens : List String) (views : List PublicView) :
    renderResults amount (tokens.map keyOf) (views.map one) =
      healthAnswer (List.zipWith (fun t v => (keyOf t, text v)) tokens views) := by
  unfold renderResults healthAnswer
  rw [List.map_zipWith]
  have hlines : ((views.map one).zip (tokens.map keyOf)).map (fun p =>
        "\"" ++ escapeKey p.2 ++ "\": \x7b\"spent\": " ++ spentText p.1.1 ++ amount p.1 ++ "\x7d") =
      List.zipWith (fun t v => "\"" ++ escapeKey (keyOf t) ++ "\": \x7b\"spent\": " ++ text v ++ "\x7d") tokens views :=
    map_zip_map (fun t v => by rw [← htext v]; exact congrArg (· ++ "\x7d") String.append_assoc) tokens views
  exact congrArg (fun lines => "\x7b\"status\": \"success\", \"results\": \x7b" ++ ", ".intercalate lines ++
    "\x7d\x7d") hlines

theorem parsePublics_eq {A : Asset σ ρ} : ∀ {tokens : List String} {views : List PublicView},
    List.Forall₂ (fun t v => A.parsePublic t = .ok v) tokens views → parsePublics A tokens = .ok views
  | _, _, .nil => rfl
  | _, _, .cons ht htokens => by
    rw [parsePublics, ht, parsePublics_eq htokens]
    rfl

/-- **The shared course**, for lookups that go token by token. -/
theorem healthCheckWith_eq {A : Asset σ ρ} {look : Namespace → List String → Except String (List Lookup)}
    {one : Namespace → String → Lookup} (hlook : Pointwise look one) {amount : Lookup → String}
    {keyOf : String → String}
    {text : PublicView → String} (htext : ∀ v, spentText (one v.namespace v.publicHash).1 ++
      amount (one v.namespace v.publicHash) = text v)
    {tokens : List String} {views : List PublicView}
    (hparse : List.Forall₂ (fun t v => A.parsePublic t = .ok v) tokens views) (order : IterationOrder) :
    healthCheckWith A look amount keyOf order (.ok tokens) =
      .ok (healthAnswer (List.zipWith (fun t v => (keyOf t, text v)) tokens views)) := by
  have hparsed := parsePublics_eq hparse
  have hfill := fillLookups_eq hlook order views
  rw [← renderResults_eq htext, healthCheckWith]
  simp only [orElse, hparsed, hfill, bind, Except.bind, pure, Except.pure]

/-- The lines of a splittable answer. -/
theorem shown_eq (H : HashRecord ρ) : ∀ r : Option ρ, spentText (r.map H.spent) ++
    amountText (r.map H.spent, r.map H.amountWats) = shown H r
  | none => rfl
  | some r => by
    rw [Option.map_some, Option.map_some, shown]
    cases H.spent r <;> rfl

theorem shownSpent_eq (H : HashRecord ρ) : ∀ r : Option ρ, spentText (r.map H.spent) ++ "" = shownSpent H r
  | none => rfl
  | some r => by
    rw [Option.map_some, shownSpent]
    cases H.spent r <;> rfl

/-- `health_check` shows, for each token of the request in its order, the record under the token's own namespace
and hash. -/
def AnswersRight (A : SplittableAsset σ ρ) (cfg : StoreConfig ρ) : Prop :=
  ∀ (tokens : List String) (views : List PublicView),
    List.Forall₂ (fun t v => A.parsePublic t = .ok v) tokens views →
    ∀ (records : FMap String ρ) (db : Redis.Db), Redis.Holds cfg records db →
      ∀ (now : DateTime) (order : IterationOrder),
      healthCheck A (Redis.store cfg now) order (.ok tokens) db =
        .ok (healthAnswer (List.zipWith (lineOf cfg records productionNormalizePublic (shown cfg.codec)) tokens views))

/-- So does `health_check_collectible` with the spent flag. -/
def AnswersSpent (A : CollectibleAsset σ ρ) (cfg : StoreConfig ρ) : Prop :=
  ∀ (tokens : List String) (views : List PublicView),
    List.Forall₂ (fun t v => A.parsePublic t = .ok v) tokens views →
    ∀ (records : FMap String ρ) (db : Redis.Db), Redis.Holds cfg records db →
      ∀ (now : DateTime) (order : IterationOrder),
      healthCheckCollectible A (Redis.store cfg now) order (.ok tokens) db =
        .ok (healthAnswer (List.zipWith (lineOf cfg records id (shownSpent cfg.codec)) tokens views))

theorem answersRight {A : SplittableAsset σ ρ} (hdec : Decodes A.codec) (hamount : AmountCodec A.codec)
    (keys : KeyStrategy)
    (chrono : Codec) (serviceError : String) : AnswersRight A (A.storeConfig keys chrono serviceError) :=
  fun _ _ hparse _ _ hholds _ order =>
    healthCheckWith_eq (Redis.lookBoth_pointwise hdec hamount hholds) (fun _ => shown_eq A.codec _) hparse order

theorem answersSpent (A : CollectibleAsset σ ρ) (keys : KeyStrategy) (chrono : Codec) (serviceError : String) :
    AnswersSpent A (A.storeConfig keys chrono serviceError) :=
  fun _ _ hparse _ _ hholds _ order =>
    healthCheckWith_eq (Redis.lookSpent_pointwise hholds) (fun _ => shownSpent_eq A.codec _) hparse order

end

/-! ## The flavours -/

theorem webcash_decodes (chrono : Codec) : Decodes (webcashCodec chrono) := fun now hash r => by
  have hamount := (webcashCodec chrono).lookup_amount r
  generalize (webcashCodec chrono).fieldMap r = f at hamount ⊢
  simp [webcashCodec, readAmount, hamount, I64.ofText_toText]

theorem voucher_decodes (chrono : Codec) : Decodes (voucherCodec chrono) := fun now hash r => by
  have hamount := (voucherCodec chrono).lookup_amount r
  have hcontract : ((voucherCodec chrono).fieldMap r).lookup "contract_id" = some r.contractId.id :=
    (voucherCodec chrono).lookup_fieldMap (by simp [voucherCodec, fieldsOf, issuedTail])
  have hissuer : ((voucherCodec chrono).fieldMap r).lookup "issuer_fp" = some r.issuerFp.hex :=
    (voucherCodec chrono).lookup_fieldMap (by simp [voucherCodec, fieldsOf, issuedTail])
  generalize (voucherCodec chrono).fieldMap r = f at hamount hcontract hissuer ⊢
  simp [voucherCodec, readAmount, hamount, hcontract, hissuer, I64.ofText_toText]

theorem rgbFungible_decodes (chrono : Codec) (json : HtlcJson) :
    Decodes (rgbFungibleCodec chrono json) := fun now hash r => by
  have hamount := (rgbFungibleCodec chrono json).lookup_amount r
  have hcontract : ((rgbFungibleCodec chrono json).fieldMap r).lookup "contract_id" = some r.contractId.id :=
    (rgbFungibleCodec chrono json).lookup_fieldMap (by simp [rgbFungibleCodec, fieldsOf, issuedTail])
  have hissuer : ((rgbFungibleCodec chrono json).fieldMap r).lookup "issuer_fp" = some r.issuerFp.hex :=
    (rgbFungibleCodec chrono json).lookup_fieldMap (by simp [rgbFungibleCodec, fieldsOf, issuedTail])
  generalize (rgbFungibleCodec chrono json).fieldMap r = f at hamount hcontract hissuer ⊢
  simp [rgbFungibleCodec, readAmount, hamount, hcontract, hissuer, I64.ofText_toText]

/-- **A health check answers for the right token**, on every flavour. -/
theorem health_check_answers (chrono : Codec) (json : HtlcJson) (keys : KeyStrategy) (serviceError : String) :
    AnswersRight (webcash chrono) ((webcash chrono).storeConfig keys chrono serviceError) ∧
    AnswersRight (voucher chrono) ((voucher chrono).storeConfig keys chrono serviceError) ∧
    AnswersRight (rgbFungible chrono json) ((rgbFungible chrono json).storeConfig keys chrono serviceError) ∧
    AnswersSpent (rgbCollectible chrono json) ((rgbCollectible chrono json).storeConfig keys chrono serviceError) :=
  ⟨answersRight (webcash_decodes chrono) amountCodec_webcash keys chrono serviceError,
    answersRight (voucher_decodes chrono) amountCodec_voucher keys chrono serviceError,
    answersRight (rgbFungible_decodes chrono json) amountCodec_rgbFungible keys chrono serviceError,
    answersSpent (rgbCollectible chrono json) keys chrono serviceError⟩

/-! ## A request over two namespaces -/

namespace Sample

def heldHash : String := sha256HexOfAscii "5f3a"

def heldIssuer : PgpFingerprint := ⟨"197f6b23e16c8532c6abc838facd5ea789be0c76"⟩

/-- One hash, in the namespace of a contract. -/
def heldVoucher (contract : String) (amount : I64) (spent : Bool) : VoucherRecord :=
  ⟨heldHash, amount, spent, ⟨0⟩, none, .issued, ⟨contract⟩, heldIssuer⟩

def heldConfig : StoreConfig VoucherRecord := (voucher .atEpoch).storeConfig .namespacedKeys .atEpoch "service error"

/-- Unspent for one contract, spent for another. -/
def heldRecords : FMap String VoucherRecord := FMap.ofPairs
  ([heldVoucher "cafe-2026" (I64.wrap 250000000) false, heldVoucher "bar-2026" (I64.wrap 100000000) true].map fun r =>
    (heldConfig.recordKey r, r))

def heldDb : Redis.Db := ⟨FMap.mapVals heldConfig.codec.fieldMap heldRecords, ∅, ∅⟩

def publicVoucher (contract : String) : String := "e1:public:" ++ heldHash ++ ":" ++ contract ++ ":" ++ heldIssuer.hex

def viewOf (contract : String) : PublicView := ⟨heldHash, envelopeOf ⟨contract⟩ heldIssuer⟩

/-- The groups, last one first. -/
def lastFirst : IterationOrder := ⟨List.reverse, List.reverse_perm⟩

end Sample

open Sample

theorem parsePublic_voucher {chrono : Codec} {t : String} {p : PublicIssued} (h : PublicIssued.parse t = some p) :
    (voucher chrono).parsePublic t = .ok ⟨p.hash, envelopeOf p.contractId p.issuerFp⟩ := by
  simp only [voucher, h, parseOr, Except.map]

/-- Four tokens with one hash: each line shows the record of its own contract. -/
theorem mixed_health_check :
    healthCheck (voucher .atEpoch) (Redis.store heldConfig ⟨0⟩) lastFirst
      (.ok [publicVoucher "bar-2026", publicVoucher "cafe-2026", publicVoucher "bar-2026",
        publicVoucher "club-2026"]) heldDb =
    .ok (healthAnswer [(publicVoucher "bar-2026", "true, \"amount\": null"),
      (publicVoucher "cafe-2026", "false, \"amount\": \"2.5\""),
      (publicVoucher "bar-2026", "true, \"amount\": null"), (publicVoucher "club-2026", "null")]) := by
  have hparse : List.Forall₂ (fun t v => (voucher .atEpoch).parsePublic t = .ok v)
      [publicVoucher "bar-2026", publicVoucher "cafe-2026", publicVoucher "bar-2026", publicVoucher "club-2026"]
      [viewOf "bar-2026", viewOf "cafe-2026", viewOf "bar-2026", viewOf "club-2026"] := by
    have hbar : (voucher .atEpoch).parsePublic (publicVoucher "bar-2026") = .ok (viewOf "bar-2026") :=
      parsePublic_voucher (p := ⟨⟨I64.wrap 100000000⟩, heldHash, ⟨"bar-2026"⟩, heldIssuer⟩)
        (by decide +kernel)
    have hcafe : (voucher .atEpoch).parsePublic (publicVoucher "cafe-2026") = .ok (viewOf "cafe-2026") :=
      parsePublic_voucher (p := ⟨⟨I64.wrap 100000000⟩, heldHash, ⟨"cafe-2026"⟩, heldIssuer⟩)
        (by decide +kernel)
    have hclub : (voucher .atEpoch).parsePublic (publicVoucher "club-2026") = .ok (viewOf "club-2026") :=
      parsePublic_voucher (p := ⟨⟨I64.wrap 100000000⟩, heldHash, ⟨"club-2026"⟩, heldIssuer⟩)
        (by decide +kernel)
    exact .cons hbar (.cons hcafe (.cons hbar (.cons hclub .nil)))
  have hholds : Redis.Holds heldConfig heldRecords heldDb := fun key => FMap.lookup_mapVals _ _ key
  have hanswer := (health_check_answers .atEpoch (.ofState ⟨"", 0, "", ""⟩) .namespacedKeys "service error").2.1
    _ _ hparse heldRecords heldDb hholds ⟨0⟩ lastFirst
  refine hanswer.trans (congrArg (fun lines => Response.ok (healthAnswer lines)) ?_)
  decide +kernel

end Webycash
