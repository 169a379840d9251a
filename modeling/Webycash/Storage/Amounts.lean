import Webycash.Storage.Marks
/-!
# Which amounts a store call writes

The amount under a key is what the codec of its records reads there. An insertion and a replace
leave the amount of every key as it is or write the amount of one of their records, also where
they fail half-way or cut the fields of the outputs at the wrong place; a burn leaves all amounts.
-/

namespace Webycash

/-- The codec reads an amount from the field, and the member, of that name and from nowhere else. -/
structure AmountCodec {ρ : Type} (H : HashRecord ρ) : Prop where
  ofFields : ∀ {now hash fields r}, H.fromFields now hash fields = some r →
    readAmount fields = some (H.amountWats r)
  ofDoc : ∀ {doc r}, H.fromJson doc = some r → docI64 doc "amount_wats" = some (H.amountWats r)
  toDoc : ∀ r, docI64 (H.toJson r) "amount_wats" = some (H.amountWats r)

section

variable {ρ : Type} {cfg : StoreConfig ρ} {now : DateTime} {ns : Namespace} {op : ReplaceOp ρ}
  {rs : List ρ} {w : I64}

theorem readAmount_congr {f f' : Fields} (h : f.lookup "amount_wats" = f'.lookup "amount_wats") :
    readAmount f = readAmount f' := by rw [readAmount, h, readAmount]

theorem docI64_congr {d d' : Doc} {name : String} (h : d.lookup name = d'.lookup name) :
    docI64 d name = docI64 d' name := by
  rw [docI64, h, docI64]

/-! ## Redis -/

namespace Redis

variable {db : Db} {k : String}

def watsAt (t : Tokens) (k : String) : Option I64 := (t.lookup k).bind readAmount

theorem watsAt_congr {t t' : Tokens} (h : t'.lookup k = t.lookup k) : watsAt t' k = watsAt t k := by
  rw [watsAt, h, watsAt]

theorem readAmount_spentFields (text : String) (f : Fields) : readAmount (spentFields text f) = readAmount f := by
  refine readAmount_congr ?_
  rw [lookup_spentFields, if_neg (by decide), if_neg (by decide)]

/-- Marking a key that is there keeps its amount. -/
theorem watsAt_spentFields {t t' : Tokens} {text : String} (hk : k ∈ t)
    (h : t'.lookup k = some (spentFields text (hgetall t k))) : watsAt t' k = watsAt t k := by
  obtain ⟨f, hf⟩ := Option.isSome_iff_exists.1 (Finmap.lookup_isSome.2 hk)
  rw [watsAt, h, hgetall, hf, Option.getD_some, Option.bind_some, readAmount_spentFields, watsAt, hf, Option.bind_some]

theorem watsAt_insert (h : watsAt (insertTokens cfg rs db).2.tokens k = some w) :
    watsAt db.tokens k = some w ∨ ∃ r ∈ rs, cfg.codec.amountWats r = w := by
  obtain ⟨c, hsub, -, -, -, hst, -⟩ := insertTokens_spec cfg rs db
  rw [hst, watsAt, FMap.lookup_putAll] at h
  cases hp : FMap.lastPut (c.map (overlay cfg db.tokens)) k with
  | some f =>
    obtain ⟨r, hr, he⟩ := List.mem_map.1 (FMap.lastPut_mem hp)
    have hf : f = FMap.putAll (hgetall db.tokens (cfg.recordKey r)) (cfg.codec.toFields r) :=
      (congrArg Prod.snd he).symm
    have hamount : f.lookup "amount_wats" = some (cfg.codec.amountWats r).toText := by
      rw [hf]
      exact FMap.lookup_putAll_of_mem (cfg.codec.names_nodup r) (cfg.codec.amount_mem r) _
    rw [hp, Option.some_or, Option.bind_some, readAmount, hamount, Option.bind_some, I64.ofText_toText] at h
    exact Or.inr ⟨r, hsub.subset hr, Option.some.inj h⟩
  | none =>
    rw [hp, Option.none_or] at h
    exact Or.inl h

/-- Wherever a slice is cut, the amount it holds is that of some output. -/
theorem readAmount_slice {j : Nat} (h : readAmount (FMap.ofPairs (outputSlice cfg op j)) = some w) :
    ∃ o ∈ op.outputs, cfg.codec.amountWats o = w := by
  rw [readAmount, FMap.lookup_ofPairs] at h
  obtain ⟨text, htext, hw⟩ := Option.bind_eq_some_iff.1 h
  have hmem : ("amount_wats", text) ∈ flatEntries cfg op := Stride.mem_of_mem_slice (FMap.lastPut_mem htext)
  obtain ⟨entries, hentries, hmem⟩ := List.mem_flatten.1 hmem
  obtain ⟨o, ho, rfl⟩ := List.mem_map.1 hentries
  have hfield : ("amount_wats", text) ∈ cfg.codec.toFields o := (cfg.codec.entries_perm o).mem_iff.1 hmem
  have hsame : some text = some (cfg.codec.amountWats o).toText :=
    (cfg.codec.lookup_fieldMap hfield).symm.trans (cfg.codec.lookup_amount o)
  rw [Option.some.inj hsame, I64.ofText_toText] at hw
  exact ⟨o, ho, Option.some.inj hw⟩

theorem watsAt_replace (h : watsAt (batchReplace cfg now ns [op] db).2.tokens k = some w) :
    watsAt db.tokens k = some w ∨ ∃ o ∈ op.outputs, cfg.codec.amountWats o = w := by
  rw [batchReplace_single_db] at h
  rcases replaceLua_cases cfg now ns op db with ⟨-, e, he⟩ | ⟨hr, m, reply, -, -, -, -, -, he⟩
  · rw [he] at h
    exact Or.inl h
  rw [he] at h
  cases hp : FMap.lastPut ((outputPuts (fieldsPerOutput cfg op.outputs) (flatEntries cfg op) 0
    (outputKeys cfg ns op)).take m)
      k with
  | some f =>
    obtain ⟨j, hj⟩ := mem_outputPuts (List.mem_of_mem_take (FMap.lastPut_mem hp))
    have hf : f = FMap.ofPairs (outputSlice cfg op j) := hj
    have hlook : (afterOutputs cfg now ns op m db.tokens).lookup k = some f := by
      rw [afterOutputs, FMap.lookup_putAll, hp, Option.some_or]
    dsimp only at h
    rw [watsAt, hlook, Option.bind_some, hf] at h
    exact Or.inr (readAmount_slice h)
  | none =>
    have hlook : (afterOutputs cfg now ns op m db.tokens).lookup k =
        (markInputs (cfg.chrono.toRfc3339 now) db.tokens (inputKeys cfg ns op)).lookup k := by
      rw [afterOutputs, FMap.lookup_putAll, hp, Option.none_or]
    rw [lookup_markInputs] at hlook
    split at hlook
    · rename_i hk
      exact Or.inl (watsAt_spentFields (hr k hk).1 hlook ▸ h)
    · exact Or.inl (watsAt_congr hlook ▸ h)

theorem watsAt_burn (hash : String) (record : BurnRecord) :
    watsAt (batchBurn cfg now ns [(hash, record)] db).2.tokens k = watsAt db.tokens k := by
  have hdb : (batchBurn cfg now ns [(hash, record)] db).2 = (burnLua (cfg.tokenKey ns hash)
      (cfg.keys.burnKey cfg.name ns record.id) (cfg.chrono.toRfc3339 now) (.burn record) db).2 := rfl
  rw [hdb]
  rcases burnLua_cases (cfg.tokenKey ns hash) (cfg.keys.burnKey cfg.name ns record.id) (cfg.chrono.toRfc3339 now)
    (.burn record) db with ⟨-, e, he⟩ | ⟨hr, he⟩
  · rw [he]
  · rw [he]
    by_cases hk : k = cfg.tokenKey ns hash
    · subst hk
      exact watsAt_spentFields hr.1 (by rw [lookup_markSpent, if_pos rfl])
    · exact watsAt_congr (by rw [lookup_markSpent, if_neg hk])

/-- `get_tokens` reads the amounts. -/
theorem getTokens_amount (H : AmountCodec cfg.codec) {hashes : List String} {found : List (Option ρ)} {r : ρ}
    (h : getTokens cfg now ns hashes db = .ok found) (hr : some r ∈ found) :
    ∃ x ∈ hashes, watsAt db.tokens (cfg.tokenKey ns x) = some (cfg.codec.amountWats r) := by
  cases h
  obtain ⟨x, hx, hread⟩ := List.mem_map.1 hr
  refine ⟨x, hx, ?_⟩
  dsimp only at hread
  split at hread
  · cases hread
  · rename_i hne
    unfold hgetall at hne hread
    cases hlook : db.tokens.lookup (cfg.tokenKey ns x) with
    | none => simp [hlook] at hne
    | some f =>
      rw [hlook, Option.getD_some] at hread
      rw [watsAt, hlook, Option.bind_some, H.ofFields hread]

end Redis

/-! ## DynamoDB -/

namespace Dynamo

variable {env : Env} {db : Db} {k : String}

def watsAt (t : Tokens) (k : String) : Option I64 := (t.lookup k).bind fun item => readAmount (itemFields item)

theorem watsAt_congr {t t' : Tokens} (h : t'.lookup k = t.lookup k) : watsAt t' k = watsAt t k := by
  rw [watsAt, h, watsAt]

theorem readAmount_itemFor (ns : Namespace) (r : ρ) : readAmount (itemFields (itemFor cfg ns r)) =
    some (cfg.codec.amountWats r) := by
  have hnames : ((cfg.codec.toFields r).map attributeOf).map Prod.fst = (cfg.codec.toFields r).map Prod.fst := by
    rw [List.map_map]
    rfl
  have hmem : ("amount_wats", AttributeValue.N (cfg.codec.amountWats r).toText) ∈
      (cfg.codec.toFields r).map attributeOf :=
    List.mem_map.2 ⟨_, cfg.codec.amount_mem r, rfl⟩
  have hlook : (itemFor cfg ns r).lookup "amount_wats" = some (.N (cfg.codec.amountWats r).toText) :=
    FMap.lookup_putAll_of_mem (hnames ▸ cfg.codec.names_nodup r) hmem _
  rw [readAmount, lookup_itemFields (by decide), hlook, Option.map_some, Option.bind_some]
  exact I64.ofText_toText _

/-- Spending an item that is there keeps its amount. -/
theorem watsAt_spendItem {t t' : Tokens} {text : String} (hk : k ∈ t)
    (h : t'.lookup k = some (spendItem text ((t.lookup k).getD ∅))) : watsAt t' k = watsAt t k := by
  obtain ⟨item, hitem⟩ := Option.isSome_iff_exists.1 (Finmap.lookup_isSome.2 hk)
  have hread : readAmount (itemFields (spendItem text item)) = readAmount (itemFields item) := by
    refine readAmount_congr ?_
    rw [lookup_itemFields (by decide), lookup_itemFields (by decide), spendItem,
      Finmap.lookup_insert_of_ne _ (by decide),
      Finmap.lookup_insert_of_ne _ (by decide)]
  rw [watsAt, h, hitem, Option.getD_some, Option.bind_some, hread, watsAt, hitem, Option.bind_some]

theorem mem_of_open {t : Tokens} (h : seals t k = some false) : k ∈ t := by
  by_contra hno
  rw [seals_eq_none.2 hno] at h
  cases h

theorem watsAt_insert (h : watsAt (insertTokens cfg env rs db).2.tokens k = some w) :
    watsAt db.tokens k = some w ∨ ∃ r ∈ rs, cfg.codec.amountWats r = w := by
  rw [insertTokens_eq] at h
  cases hp : FMap.lastPut (acked cfg env rs) k with
  | some item =>
    obtain ⟨r, hr, he⟩ := acked_mem (FMap.lastPut_mem hp)
    have hitem : item = itemFor cfg (cfg.codec.namespaceOf r) r := congrArg Prod.snd he
    rw [watsAt, FMap.lookup_putAll, hp, Option.some_or, Option.bind_some, hitem, readAmount_itemFor] at h
    exact Or.inr ⟨r, hr, Option.some.inj h⟩
  | none =>
    rw [watsAt, FMap.lookup_putAll, hp, Option.none_or] at h
    exact Or.inl h

theorem watsAt_replace (h : watsAt (batchReplace cfg now ns [op] db).2.tokens k = some w) :
    watsAt db.tokens k = some w ∨ ∃ o ∈ op.outputs, cfg.codec.amountWats o = w := by
  rw [batchReplace_single] at h
  by_cases hok : (execReplace cfg now ns op db).1 = .ok ()
  · obtain ⟨-, -, hopen, -⟩ := execReplace_ok_iff.1 hok
    have hlook := @lookup_replaced ρ cfg now ns op db k
    rw [← execReplace_tokens hok] at hlook
    cases hp : FMap.lastPut (outputPuts cfg ns op) k with
    | some item =>
      obtain ⟨o, ho, he⟩ := List.mem_map.1 (FMap.lastPut_mem hp)
      have hitem : item = itemFor cfg ns o := (congrArg Prod.snd he).symm
      rw [hp, Option.some_or] at hlook
      rw [watsAt, hlook, Option.bind_some, hitem, readAmount_itemFor] at h
      exact Or.inr ⟨o, ho, Option.some.inj h⟩
    | none =>
      rw [hp, Option.none_or] at hlook
      split at hlook
      · rename_i hk
        exact Or.inl (watsAt_spendItem (mem_of_open (hopen k hk)) hlook ▸ h)
      · exact Or.inl (watsAt_congr hlook ▸ h)
  · rw [execReplace_of_not_ok hok] at h
    exact Or.inl h

theorem watsAt_burn (hash : String) (record : BurnRecord) :
    watsAt (batchBurn cfg now ns [(hash, record)] db).2.tokens k = watsAt db.tokens k := by
  rw [batchBurn_single]
  rcases burn_cases cfg now ns hash record db with ⟨-, e, he⟩ | ⟨hopen, he⟩
  · rw [he]
  · rw [he]
    by_cases hk : k = cfg.tokenKey ns hash
    · subst hk
      exact watsAt_spendItem (mem_of_open hopen) (by rw [Finmap.lookup_insert])
    · exact watsAt_congr (Finmap.lookup_insert_of_ne _ hk)

theorem getTokens_amount (H : AmountCodec cfg.codec) {hashes : List String} {found : List (Option ρ)} {r : ρ}
    (h : getTokens cfg now env ns hashes db = .ok found) (hr : some r ∈ found) :
    ∃ x ∈ hashes, watsAt db.tokens (cfg.tokenKey ns x) = some (cfg.codec.amountWats r) := by
  unfold getTokens at h
  dsimp only at h
  split at h
  · cases h
    cases hr
  split at h
  · cases h
  cases h
  rw [List.map_map] at hr
  obtain ⟨x, hx, hread⟩ := List.mem_map.1 hr
  refine ⟨x, hx, ?_⟩
  dsimp only [Function.comp_apply] at hread
  split at hread
  · cases hread
  · obtain ⟨item, hitem, hrec⟩ := Option.bind_eq_some_iff.1 hread
    obtain ⟨hash, hfields⟩ := itemToRecord_some hrec
    rw [watsAt, hitem, Option.bind_some, H.ofFields hfields]

end Dynamo

/-! ## FoundationDB -/

namespace Fdb

variable {db : Db} {k : String}

def watsAt (t : Tokens) (k : String) : Option I64 := (t.lookup k).bind fun doc => docI64 doc "amount_wats"

theorem watsAt_congr {t t' : Tokens} (h : t'.lookup k = t.lookup k) : watsAt t' k = watsAt t k := by
  rw [watsAt, h, watsAt]

/-- Spending a document that is there keeps its amount. -/
theorem watsAt_spendDoc {t t' : Tokens} {text : String} (hk : k ∈ t)
    (h : t'.lookup k = some (spendDoc text ((t.lookup k).getD ∅))) : watsAt t' k = watsAt t k := by
  obtain ⟨doc, hdoc⟩ := Option.isSome_iff_exists.1 (Finmap.lookup_isSome.2 hk)
  have hread : docI64 (spendDoc text doc) "amount_wats" = docI64 doc "amount_wats" := by
    refine docI64_congr ?_
    rw [spendDoc, Finmap.lookup_insert_of_ne _ (by decide), Finmap.lookup_insert_of_ne _ (by decide)]
  rw [watsAt, h, hdoc, Option.getD_some, Option.bind_some, hread, watsAt, hdoc, Option.bind_some]

theorem mem_of_open {t : Tokens} (h : seals t k = some false) : k ∈ t := by
  by_contra hno
  rw [seals_eq_none.2 hno] at h
  cases h

/-- The amount under a key of a batch that was put is that of one of its records. -/
theorem watsAt_putAll (H : AmountCodec cfg.codec) {t : Tokens}
    (h : watsAt (FMap.putAll t (rs.map (entryOf cfg))) k = some w) :
    watsAt t k = some w ∨ ∃ r ∈ rs, cfg.codec.amountWats r = w := by
  rw [watsAt, FMap.lookup_putAll] at h
  cases hp : FMap.lastPut (rs.map (entryOf cfg)) k with
  | some doc =>
    obtain ⟨r, hr, he⟩ := List.mem_map.1 (FMap.lastPut_mem hp)
    have hdoc : doc = cfg.codec.toJson r := (congrArg Prod.snd he).symm
    rw [hp, Option.some_or, Option.bind_some, hdoc, H.toDoc] at h
    exact Or.inr ⟨r, hr, Option.some.inj h⟩
  | none =>
    rw [hp, Option.none_or] at h
    exact Or.inl h

theorem watsAt_insert (H : AmountCodec cfg.codec) (h : watsAt (insertTokens cfg rs db).2.tokens k = some w) :
    watsAt db.tokens k = some w ∨ ∃ r ∈ rs, cfg.codec.amountWats r = w := by
  rw [insertTokens_tokens] at h
  split at h
  · exact watsAt_putAll H h
  · exact Or.inl h

theorem watsAt_replace (H : AmountCodec cfg.codec) (h : watsAt (batchReplace cfg now ns [op] db).2.tokens k = some w) :
    watsAt db.tokens k = some w ∨ ∃ o ∈ op.outputs, cfg.codec.amountWats o = w := by
  rw [batchReplace_single] at h
  by_cases hok : (execReplace cfg now ns op db).1 = .ok ()
  · obtain ⟨hnd, hopen, -⟩ := execReplace_ok_iff.1 hok
    rw [execReplace_tokens hok] at h
    refine (watsAt_putAll H h).imp_left fun h => ?_
    have hlook := lookup_spendAll (cfg.chrono.toRfc3339 now) (inputKeys cfg ns op) db.tokens k hnd
    split at hlook
    · rename_i hk
      exact watsAt_spendDoc (mem_of_open (hopen k hk)) hlook ▸ h
    · exact watsAt_congr hlook ▸ h
  · rw [execReplace_of_not_ok hok] at h
    exact Or.inl h

theorem watsAt_burn (hash : String) (record : BurnRecord) :
    watsAt (batchBurn cfg now ns [(hash, record)] db).2.tokens k = watsAt db.tokens k := by
  rw [batchBurn_single]
  rcases burn_cases cfg now ns hash record db with ⟨-, e, he⟩ | ⟨hopen, doc, hdoc, he⟩
  · rw [he]
  · rw [he]
    by_cases hk : k = cfg.tokenKey ns hash
    · subst hk
      exact watsAt_spendDoc (mem_of_open hopen) (by rw [Finmap.lookup_insert, hdoc]; rfl)
    · exact watsAt_congr (Finmap.lookup_insert_of_ne _ hk)

theorem getTokens_amount (H : AmountCodec cfg.codec) {r : ρ} : ∀ {hashes : List String} {found : List (Option ρ)},
    getTokens cfg ns hashes db = .ok found → some r ∈ found →
    ∃ x ∈ hashes, watsAt db.tokens (cfg.tokenKey ns x) = some (cfg.codec.amountWats r)
  | [], found, h, hr => by
    cases h
    cases hr
  | y :: hashes, found, h, hr => by
    unfold getTokens at h
    rw [List.mapM_cons] at h
    cases hy : getJson cfg db.tokens (cfg.tokenKey ns y) with
    | error e => rw [hy] at h; cases h
    | ok o =>
      cases hrest : getTokens cfg ns hashes db with
      | error e => unfold getTokens at hrest; rw [hy, hrest] at h; cases h
      | ok rest =>
        have hrec := getTokens_amount H (r := r) hrest
        unfold getTokens at hrest
        rw [hy, hrest] at h
        cases h
        rcases List.mem_cons.1 hr with rfl | hr
        · refine ⟨y, List.mem_cons_self, ?_⟩
          unfold getJson at hy
          split at hy
          · cases hy
          · rename_i doc hdoc
            split at hy
            · rename_i r' hread
              cases hy
              rw [watsAt, hdoc, Option.bind_some, H.ofDoc hread]
            · cases hy
        · obtain ⟨x, hx, hw⟩ := hrec hr
          exact ⟨x, List.mem_cons_of_mem _ hx, hw⟩

end Fdb

/-! ## One interface -/

namespace Backend

variable {b : Backend} {service : Dynamo.Env} {k : String}

/-- The amount under a key. -/
def watsAt : (b : Backend) → b.Db → String → Option I64
  | redis, db => Redis.watsAt db.tokens
  | dynamo, db => Dynamo.watsAt db.tokens
  | fdb, db => Fdb.watsAt db.tokens

variable {db : b.Db}

theorem watsAt_insert (H : AmountCodec cfg.codec)
    (h : b.watsAt ((b.store cfg now service).insertTokens rs db).2 k = some w) :
    b.watsAt db k = some w ∨ ∃ r ∈ rs, cfg.codec.amountWats r = w := by
  cases b with
  | redis => exact Redis.watsAt_insert h
  | dynamo => exact Dynamo.watsAt_insert h
  | fdb => exact Fdb.watsAt_insert H h

theorem watsAt_replace (H : AmountCodec cfg.codec)
    (h : b.watsAt ((b.store cfg now service).batchReplace ns [op] db).2 k = some w) :
    b.watsAt db k = some w ∨ ∃ o ∈ op.outputs, cfg.codec.amountWats o = w := by
  cases b with
  | redis => exact Redis.watsAt_replace h
  | dynamo => exact Dynamo.watsAt_replace h
  | fdb => exact Fdb.watsAt_replace H h

theorem watsAt_burn (hash : String) (record : BurnRecord) :
    b.watsAt ((b.store cfg now service).batchBurn ns [(hash, record)] db).2 k = b.watsAt db k := by
  cases b with
  | redis => exact Redis.watsAt_burn hash record
  | dynamo => exact Dynamo.watsAt_burn hash record
  | fdb => exact Fdb.watsAt_burn hash record

theorem watsAt_updateMiningState (state : MiningState) :
    b.watsAt ((b.store cfg now service).updateMiningState state db).2 k = b.watsAt db k := by
  cases b <;> rfl

theorem watsAt_empty : b.watsAt b.empty k = none := by
  cases b <;> rfl

/-- **Every record `get_tokens` serves has the amount under its key.** -/
theorem getTokens_amount (H : AmountCodec cfg.codec) {hashes : List String} {found : List (Option ρ)} {r : ρ}
    (h : (b.store cfg now service).getTokens ns hashes db = .ok found) (hr : some r ∈ found) :
    ∃ x ∈ hashes, b.watsAt db (cfg.tokenKey ns x) = some (cfg.codec.amountWats r) := by
  cases b with
  | redis => exact Redis.getTokens_amount H h hr
  | dynamo => exact Dynamo.getTokens_amount H h hr
  | fdb => exact Fdb.getTokens_amount H h hr

end Backend

end

end Webycash
