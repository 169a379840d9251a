import Webycash.Storage.Backend
import Webycash.Storage.Insert
import Webycash.Storage.RedisAmounts
/-!
# Which records a store call marks spent

What each call of a store does to the spent flag and the lock of a record: `insert_tokens` marks nothing,
`batch_replace` marks inputs of its op only, also where it fails half-way, `batch_burn` marks its token only,
and marking keeps the lock.
-/

namespace Webycash

section

variable {ρ : Type} {cfg : StoreConfig ρ} {json : HtlcJson} {now : DateTime} {ns : Namespace}
  {op : ReplaceOp ρ} {rs : List ρ}

theorem readSpent_eq_true {fields : Fields} : readSpent fields = true ↔ fields.lookup "spent" = some "1" := by
  unfold readSpent
  cases fields.lookup "spent" <;> simp

/-- Fields that hold the same lock text hold the same lock. -/
theorem lockOfFields_congr {f f' : Fields} (h : f.lookup "htlc_state" = f'.lookup "htlc_state") :
    lockOfFields json f = lockOfFields json f' := by rw [lockOfFields, h, lockOfFields]

theorem lockOfDoc_congr {d d' : Doc} (h : d.lookup "htlc_state" = d'.lookup "htlc_state") :
    lockOfDoc d = lockOfDoc d' := by
  rw [lockOfDoc, docHtlc, h, lockOfDoc, docHtlc]

/-- Spent flag and lock of a stored field map. -/
def marksOfFields (json : HtlcJson) (fields : Fields) : Bool × Option HtlcState :=
  (readSpent fields, lockOfFields json fields)

/-! ## Redis -/

namespace Redis

variable {db : Db}

def marks (json : HtlcJson) (t : Tokens) (k : String) : Option (Bool × Option HtlcState) :=
  (t.lookup k).map (marksOfFields json)

theorem marks_congr {t t' : Tokens} {k : String} (h : t'.lookup k = t.lookup k) : marks json t' k = marks json t k := by
  rw [marks, h, marks]

/-- A key that holds an unspent map is not marked. -/
theorem marks_ne_of_unspent {t : Tokens} {k : String} {f : Fields} {l : Option HtlcState} (h : t.lookup k = some f)
    (hs : f.lookup "spent" ≠ some "1") : marks json t k ≠ some (true, l) := by
  rw [marks, h, Option.map_some, marksOfFields]
  intro he
  exact hs (readSpent_eq_true.1 (congrArg Prod.fst (Option.some.inj he)))

/-- Marking a ready key keeps its lock. -/
theorem marks_of_spentFields {t t' : Tokens} {k text : String} {l : Option HtlcState}
    (h' : t'.lookup k = some (spentFields text (hgetall t k))) (hr : Ready t k)
    (hm : marks json t' k = some (true, l)) :
    marks json t k = some (false, l) := by
  obtain ⟨f, hf⟩ := Option.isSome_iff_exists.1 (Finmap.lookup_isSome.2 hr.1)
  have hspent : f.lookup "spent" ≠ some "1" := by simpa [hget, hf] using hr.2
  have hlock : lockOfFields json (spentFields text f) = lockOfFields json f := by
    refine lockOfFields_congr ?_
    rw [lookup_spentFields, if_neg (by decide), if_neg (by decide)]
  rw [marks, h', Option.map_some, hgetall, hf, Option.getD_some, marksOfFields, hlock] at hm
  have hl : lockOfFields json f = l := congrArg Prod.snd (Option.some.inj hm)
  rw [marks, hf, Option.map_some, marksOfFields, hl, Bool.eq_false_of_not_eq_true (readSpent_eq_true.not.2 hspent)]

theorem marksOnly_insert (hun : ∀ r ∈ rs, cfg.codec.spent r = false) :
    MarksOnly (marks json db.tokens) (marks json (insertTokens cfg rs db).2.tokens) [] := by
  obtain ⟨c, hsub, -, -, -, hst, -⟩ := insertTokens_spec cfg rs db
  intro k l h
  rw [hst] at h
  cases hp : FMap.lastPut (c.map (overlay cfg db.tokens)) k with
  | some f =>
    obtain ⟨r, hr, he⟩ := List.mem_map.1 (FMap.lastPut_mem hp)
    have hf : f = FMap.putAll (hgetall db.tokens (cfg.recordKey r)) (cfg.codec.toFields r) :=
      (congrArg Prod.snd he).symm
    have hspent : f.lookup "spent" = some "0" := by
      rw [hf, FMap.lookup_putAll_of_mem (cfg.codec.names_nodup r) (cfg.codec.spent_mem r), hun r (hsub.subset hr)]
      rfl
    exact absurd h (marks_ne_of_unspent (by rw [FMap.lookup_putAll, hp, Option.some_or]) (by rw [hspent]; decide))
  | none =>
    rw [marks_congr (t := db.tokens) (by rw [FMap.lookup_putAll, hp, Option.none_or])] at h
    exact Or.inl h

theorem mem_outputPuts {n : Nat} {flat : List (String × String)} {p : String × Fields} :
    ∀ {i : Nat} {ks : List String},
    p ∈ outputPuts n flat i ks → ∃ j, p.2 = FMap.ofPairs (Stride.slice n j flat)
  | _, [], h => by cases h
  | i, k :: ks, h => by
    rcases List.mem_cons.1 h with rfl | h
    · exact ⟨i, rfl⟩
    · exact mem_outputPuts h

/-- Also a script that stops half-way marks nothing but its inputs. -/
theorem marksOnly_replace (hun : ∀ o ∈ op.outputs, cfg.codec.spent o = false) :
    MarksOnly (marks json db.tokens) (marks json (batchReplace cfg now ns [op] db).2.tokens) (inputKeys cfg ns op) := by
  rw [batchReplace_single_db]
  rcases replaceLua_cases cfg now ns op db with ⟨-, e, he⟩ | ⟨hr, m, reply, -, -, -, -, -, he⟩
  · rw [he]
    exact .refl _ _
  · intro k l h
    rw [he] at h
    cases hp : FMap.lastPut ((outputPuts (fieldsPerOutput cfg op.outputs) (flatEntries cfg op) 0
      (outputKeys cfg ns op)).take m)
        k with
    | some f =>
      obtain ⟨j, hj⟩ := mem_outputPuts (List.mem_of_mem_take (FMap.lastPut_mem hp))
      have hlook : (afterOutputs cfg now ns op m db.tokens).lookup k = some f := by
        rw [afterOutputs, FMap.lookup_putAll, hp, Option.some_or]
      have hf : f = FMap.ofPairs (outputSlice cfg op j) := hj
      exact absurd h (marks_ne_of_unspent hlook (hf ▸ slice_unspent hun j))
    | none =>
      have hlook : (afterOutputs cfg now ns op m db.tokens).lookup k =
          (markInputs (cfg.chrono.toRfc3339 now) db.tokens (inputKeys cfg ns op)).lookup k := by
        rw [afterOutputs, FMap.lookup_putAll, hp, Option.none_or]
      rw [lookup_markInputs] at hlook
      split at hlook
      · rename_i hk
        exact Or.inr ⟨hk, marks_of_spentFields hlook (hr k hk) h⟩
      · exact Or.inl (marks_congr hlook ▸ h)

theorem marksOnly_burn (hash : String) (record : BurnRecord) :
    MarksOnly (marks json db.tokens) (marks json (batchBurn cfg now ns [(hash, record)] db).2.tokens)
      [cfg.tokenKey ns hash] := by
  have hdb : (batchBurn cfg now ns [(hash, record)] db).2 = (burnLua (cfg.tokenKey ns hash)
      (cfg.keys.burnKey cfg.name ns record.id) (cfg.chrono.toRfc3339 now) (.burn record) db).2 := rfl
  rw [hdb]
  intro k l h
  by_cases hk : k = cfg.tokenKey ns hash
  · subst hk
    rcases burnLua_cases (cfg.tokenKey ns hash) (cfg.keys.burnKey cfg.name ns record.id) (cfg.chrono.toRfc3339 now)
      (.burn record) db with ⟨-, e, he⟩ | ⟨hr, he⟩
    · rw [he] at h
      exact Or.inl h
    · rw [he] at h
      exact Or.inr ⟨List.mem_singleton_self _,
        marks_of_spentFields (by rw [lookup_markSpent, if_pos rfl]) hr h⟩
  · rw [marks_congr (lookup_burnLua_of_ne fun _ => hk)] at h
    exact Or.inl h

/-- `get_tokens` reads the marks. -/
theorem getTokens_marks (L : LockCodec cfg.codec json) {hashes : List String} {found : List (Option ρ)}
    (h : getTokens cfg now ns hashes db = .ok found) : found.length = hashes.length ∧
    ∀ (j : Nat) (x : String) (r : ρ),
      hashes[j]? = some x → found[j]? = some (some r) →
      marks json db.tokens (cfg.tokenKey ns x) = some (cfg.codec.spent r, L.htlcState r) := by
  cases h
  refine ⟨List.length_map _, fun j x r hx hr => ?_⟩
  rw [List.getElem?_map, hx, Option.map_some, Option.some.injEq] at hr
  dsimp only at hr
  split at hr
  · cases hr
  · rename_i hne
    obtain ⟨hs, hl⟩ := L.ofFields hr
    have hlook : db.tokens.lookup (cfg.tokenKey ns x) = some (hgetall db.tokens (cfg.tokenKey ns x)) := by
      unfold hgetall at hne ⊢
      cases hlk : db.tokens.lookup (cfg.tokenKey ns x) with
      | none => simp [hlk] at hne
      | some f => rfl
    rw [marks, hlook, Option.map_some, marksOfFields, hs, hl]

end Redis

/-! ## DynamoDB -/

namespace Dynamo

variable {env : Env} {db : Db}

def marks (json : HtlcJson) (t : Tokens) (k : String) : Option (Bool × Option HtlcState) :=
  (t.lookup k).map fun item => marksOfFields json (itemFields item)

theorem marks_congr {t t' : Tokens} {k : String} (h : t'.lookup k = t.lookup k) : marks json t' k = marks json t k := by
  rw [marks, h, marks]

theorem lookup_itemFields {item : Item} {name : String} (h : name ≠ "pk") :
    (itemFields item).lookup name = (item.lookup name).map attributeText := by
  rw [itemFields, FMap.lookup_mapVals, Finmap.lookup_erase_ne h]

/-- An item whose flag is false is not marked. -/
theorem readSpent_itemFields {item : Item} {b : Bool} (h : item.lookup "spent" = some (.Bool b)) :
    readSpent (itemFields item) = b := by
  rw [readSpent, lookup_itemFields (by decide), h]
  cases b <;> rfl

theorem marks_ne_of_unspent {t : Tokens} {k : String} {item : Item} {l : Option HtlcState} (h : t.lookup k = some item)
    (hs : item.lookup "spent" = some (.Bool false)) : marks json t k ≠ some (true, l) := by
  rw [marks, h, Option.map_some, marksOfFields, readSpent_itemFields hs]
  nofun

/-- Spending an open item keeps its lock. -/
theorem marks_of_spendItem {t t' : Tokens} {k text : String} {l : Option HtlcState}
    (h' : t'.lookup k = some (spendItem text ((t.lookup k).getD ∅))) (ho : seals t k = some false)
    (hm : marks json t' k = some (true, l)) : marks json t k = some (false, l) := by
  rw [seals_eq_open] at ho
  obtain ⟨item, hitem, hspent⟩ := Option.bind_eq_some_iff.1 ho
  have hlock : lockOfFields json (itemFields (spendItem text item)) = lockOfFields json (itemFields item) := by
    refine lockOfFields_congr ?_
    rw [lookup_itemFields (by decide), lookup_itemFields (by decide), spendItem,
      Finmap.lookup_insert_of_ne _ (by decide),
      Finmap.lookup_insert_of_ne _ (by decide)]
  rw [marks, h', hitem, Option.getD_some, Option.map_some, marksOfFields, hlock] at hm
  have hl : lockOfFields json (itemFields item) = l := congrArg Prod.snd (Option.some.inj hm)
  rw [marks, hitem, Option.map_some, marksOfFields, readSpent_itemFields hspent, hl]

theorem marksOnly_insert (hun : ∀ r ∈ rs, cfg.codec.spent r = false) :
    MarksOnly (marks json db.tokens) (marks json (insertTokens cfg env rs db).2.tokens) [] := by
  intro k l h
  rw [insertTokens_eq] at h
  cases hp : FMap.lastPut (acked cfg env rs) k with
  | some item =>
    obtain ⟨r, hr, he⟩ := acked_mem (FMap.lastPut_mem hp)
    have hitem : item = itemFor cfg (cfg.codec.namespaceOf r) r := congrArg Prod.snd he
    have hspent : item.lookup "spent" = some (.Bool false) := by rw [hitem, lookup_spent_itemFor, hun r hr]
    exact absurd h (marks_ne_of_unspent (by rw [FMap.lookup_putAll, hp, Option.some_or]) hspent)
  | none =>
    rw [marks_congr (t := db.tokens) (by rw [FMap.lookup_putAll, hp, Option.none_or])] at h
    exact Or.inl h

theorem marksOnly_replace (hun : ∀ o ∈ op.outputs, cfg.codec.spent o = false) :
    MarksOnly (marks json db.tokens) (marks json (batchReplace cfg now ns [op] db).2.tokens) (inputKeys cfg ns op) := by
  intro k l h
  rw [batchReplace_single] at h
  by_cases hok : (execReplace cfg now ns op db).1 = .ok ()
  · obtain ⟨-, -, hopen, -⟩ := execReplace_ok_iff.1 hok
    have hlook := @lookup_replaced ρ cfg now ns op db k
    rw [← execReplace_tokens hok] at hlook
    cases hp : FMap.lastPut (outputPuts cfg ns op) k with
    | some item =>
      obtain ⟨o, ho, he⟩ := List.mem_map.1 (FMap.lastPut_mem hp)
      have hitem : item = itemFor cfg ns o := (congrArg Prod.snd he).symm
      rw [hp, Option.some_or] at hlook
      exact absurd h (marks_ne_of_unspent hlook (by rw [hitem, lookup_spent_itemFor, hun o ho]))
    | none =>
      rw [hp, Option.none_or] at hlook
      split at hlook
      · rename_i hk
        exact Or.inr ⟨hk, marks_of_spendItem hlook (hopen k hk) h⟩
      · exact Or.inl (marks_congr hlook ▸ h)
  · rw [execReplace_of_not_ok hok] at h
    exact Or.inl h

theorem marksOnly_burn (hash : String) (record : BurnRecord) :
    MarksOnly (marks json db.tokens) (marks json (batchBurn cfg now ns [(hash, record)] db).2.tokens)
      [cfg.tokenKey ns hash] := by
  rw [batchBurn_single]
  rcases burn_cases cfg now ns hash record db with ⟨-, e, he⟩ | ⟨hopen, he⟩
  · rw [he]
    exact .refl _ _
  · rw [he]
    intro k l h
    by_cases hk : k = cfg.tokenKey ns hash
    · subst hk
      exact Or.inr ⟨List.mem_singleton_self _, marks_of_spendItem (by rw [Finmap.lookup_insert]) hopen h⟩
    · rw [marks_congr (t := db.tokens) (Finmap.lookup_insert_of_ne _ hk)] at h
      exact Or.inl h

theorem itemToRecord_some {item : Item} {r : ρ} (h : itemToRecord cfg now item = some r) :
    ∃ hash, cfg.codec.fromFields now hash (itemFields item) = some r := by
  unfold itemToRecord at h
  split at h
  · exact ⟨_, h⟩
  · cases h

/-- `get_tokens` reads the marks. -/
theorem getTokens_marks (L : LockCodec cfg.codec json) {hashes : List String} {found : List (Option ρ)}
    (h : getTokens cfg now env ns hashes db = .ok found) : found.length = hashes.length ∧
    ∀ (j : Nat) (x : String) (r : ρ),
      hashes[j]? = some x → found[j]? = some (some r) →
      marks json db.tokens (cfg.tokenKey ns x) = some (cfg.codec.spent r, L.htlcState r) := by
  unfold getTokens at h
  dsimp only at h
  split at h
  · rename_i hnil
    cases h
    subst hnil
    exact ⟨rfl, fun j x r hx => by simp at hx⟩
  split at h
  · cases h
  cases h
  refine ⟨by rw [List.length_map, List.length_map], fun j x r hx hr => ?_⟩
  rw [List.getElem?_map, List.getElem?_map, hx, Option.map_some, Option.map_some, Option.some.injEq] at hr
  split at hr
  · cases hr
  · obtain ⟨item, hitem, hrec⟩ := Option.bind_eq_some_iff.1 hr
    obtain ⟨hash, hread⟩ := itemToRecord_some hrec
    obtain ⟨hs, hl⟩ := L.ofFields hread
    rw [marks, hitem, Option.map_some, marksOfFields, hs, hl]

end Dynamo

/-! ## FoundationDB -/

namespace Fdb

variable {db : Db}

def marks (t : Tokens) (k : String) : Option (Bool × Option HtlcState) :=
  (t.lookup k).map fun doc => (alreadySpent doc, lockOfDoc doc)

theorem marks_congr {t t' : Tokens} {k : String} (h : t'.lookup k = t.lookup k) : marks t' k = marks t k := by
  rw [marks, h, marks]

theorem marks_ne_of_unspent {t : Tokens} {k : String} {doc : Doc} {l : Option HtlcState} (h : t.lookup k = some doc)
    (hs : alreadySpent doc = false) : marks t k ≠ some (true, l) := by
  rw [marks, h, Option.map_some, hs]
  nofun

/-- Spending an open document keeps its lock. -/
theorem marks_of_spendDoc {t t' : Tokens} {k text : String} {l : Option HtlcState}
    (h' : t'.lookup k = some (spendDoc text ((t.lookup k).getD ∅))) (ho : seals t k = some false)
    (hm : marks t' k = some (true, l)) : marks t k = some (false, l) := by
  obtain ⟨doc, hdoc, hspent⟩ := Option.map_eq_some_iff.1 ho
  have hlock : lockOfDoc (spendDoc text doc) = lockOfDoc doc := by
    refine lockOfDoc_congr ?_
    rw [spendDoc, Finmap.lookup_insert_of_ne _ (by decide), Finmap.lookup_insert_of_ne _ (by decide)]
  rw [marks, h', hdoc, Option.getD_some, Option.map_some, hlock] at hm
  have hl : lockOfDoc doc = l := congrArg Prod.snd (Option.some.inj hm)
  rw [marks, hdoc, Option.map_some, hspent, hl]

theorem alreadySpent_toJson (r : ρ) : alreadySpent (cfg.codec.toJson r) = cfg.codec.spent r := by
  rw [alreadySpent, cfg.codec.json_spent]
  rfl

theorem marksOnly_insert (hun : ∀ r ∈ rs, cfg.codec.spent r = false) :
    MarksOnly (marks db.tokens) (marks (insertTokens cfg rs db).2.tokens) [] := by
  intro k l h
  rw [insertTokens_tokens] at h
  split at h
  swap
  · exact Or.inl h
  cases hp : FMap.lastPut (rs.map (entryOf cfg)) k with
  | some doc =>
    obtain ⟨r, hr, he⟩ := List.mem_map.1 (FMap.lastPut_mem hp)
    have hdoc : doc = cfg.codec.toJson r := (congrArg Prod.snd he).symm
    exact absurd h (marks_ne_of_unspent (by rw [FMap.lookup_putAll, hp, Option.some_or])
      (by rw [hdoc, alreadySpent_toJson, hun r hr]))
  | none =>
    rw [marks_congr (t := db.tokens) (by rw [FMap.lookup_putAll, hp, Option.none_or])] at h
    exact Or.inl h

theorem marksOnly_replace (hun : ∀ o ∈ op.outputs, cfg.codec.spent o = false) :
    MarksOnly (marks db.tokens) (marks (batchReplace cfg now ns [op] db).2.tokens) (inputKeys cfg ns op) := by
  intro k l h
  rw [batchReplace_single] at h
  by_cases hok : (execReplace cfg now ns op db).1 = .ok ()
  · obtain ⟨hnd, hopen, -⟩ := execReplace_ok_iff.1 hok
    rw [execReplace_tokens hok] at h
    cases hp : FMap.lastPut (op.outputs.map (entryOf cfg)) k with
    | some doc =>
      obtain ⟨o, ho, he⟩ := List.mem_map.1 (FMap.lastPut_mem hp)
      have hdoc : doc = cfg.codec.toJson o := (congrArg Prod.snd he).symm
      exact absurd h (marks_ne_of_unspent (by rw [FMap.lookup_putAll, hp, Option.some_or])
        (by rw [hdoc, alreadySpent_toJson, hun o ho]))
    | none =>
      rw [marks_congr (t := spendAll (cfg.chrono.toRfc3339 now) db.tokens (inputKeys cfg ns op))
        (by rw [FMap.lookup_putAll, hp, Option.none_or])] at h
      have hlook := lookup_spendAll (cfg.chrono.toRfc3339 now) (inputKeys cfg ns op) db.tokens k hnd
      split at hlook
      · rename_i hk
        exact Or.inr ⟨hk, marks_of_spendDoc hlook (hopen k hk) h⟩
      · exact Or.inl (marks_congr hlook ▸ h)
  · rw [execReplace_of_not_ok hok] at h
    exact Or.inl h

theorem marksOnly_burn (hash : String) (record : BurnRecord) :
    MarksOnly (marks db.tokens) (marks (batchBurn cfg now ns [(hash, record)] db).2.tokens) [cfg.tokenKey ns hash] := by
  rw [batchBurn_single]
  rcases burn_cases cfg now ns hash record db with ⟨-, e, he⟩ | ⟨hopen, doc, hdoc, he⟩
  · rw [he]
    exact .refl _ _
  · rw [he]
    intro k l h
    by_cases hk : k = cfg.tokenKey ns hash
    · subst hk
      exact Or.inr ⟨List.mem_singleton_self _, marks_of_spendDoc (by rw [Finmap.lookup_insert, hdoc]; rfl) hopen h⟩
    · rw [marks_congr (t := db.tokens) (Finmap.lookup_insert_of_ne _ hk)] at h
      exact Or.inl h

theorem getJson_marks (L : LockCodec cfg.codec json) {t : Tokens} {k : String} {r : ρ}
    (h : getJson cfg t k = .ok (some r)) :
    marks t k = some (cfg.codec.spent r, L.htlcState r) := by
  unfold getJson at h
  split at h
  · cases h
  · rename_i doc hdoc
    split at h
    · rename_i r' hread
      cases h
      obtain ⟨hs, hl⟩ := L.ofDoc hread
      have hspent : alreadySpent doc = cfg.codec.spent r := by
        unfold docBool at hs
        rw [alreadySpent, hs, Option.getD_some]
      rw [marks, hdoc, Option.map_some, hspent, hl]
    · cases h

/-- `get_tokens` reads the marks. -/
theorem getTokens_marks (L : LockCodec cfg.codec json) : ∀ {hashes : List String} {found : List (Option ρ)},
    getTokens cfg ns hashes db = .ok found → found.length = hashes.length ∧ ∀ (j : Nat) (x : String) (r : ρ),
      hashes[j]? = some x → found[j]? = some (some r) →
      marks db.tokens (cfg.tokenKey ns x) = some (cfg.codec.spent r, L.htlcState r)
  | [], found, h => by
    cases h
    exact ⟨rfl, fun j x r hx => by simp at hx⟩
  | y :: hashes, found, h => by
    unfold getTokens at h
    rw [List.mapM_cons] at h
    cases hy : getJson cfg db.tokens (cfg.tokenKey ns y) with
    | error e => rw [hy] at h; cases h
    | ok o =>
      cases hrest : getTokens cfg ns hashes db with
      | error e => unfold getTokens at hrest; rw [hy, hrest] at h; cases h
      | ok rest =>
        obtain ⟨hlen, hall⟩ := getTokens_marks L hrest
        unfold getTokens at hrest
        rw [hy, hrest] at h
        cases h
        refine ⟨by rw [List.length_cons, List.length_cons, hlen], fun j x r hx hr => ?_⟩
        cases j with
        | zero =>
          obtain rfl : y = x := by simpa using hx
          obtain rfl : o = some r := by simpa using hr
          exact getJson_marks L hy
        | succ j => exact hall j x r (by simpa using hx) (by simpa using hr)

end Fdb

/-! ## One interface -/

namespace Backend

variable {b : Backend} {service : Dynamo.Env}

/-- Spent flag and lock under a key. -/
def marks (json : HtlcJson) : (b : Backend) → b.Db → String → Option (Bool × Option HtlcState)
  | redis, db => Redis.marks json db.tokens
  | dynamo, db => Dynamo.marks json db.tokens
  | fdb, db => Fdb.marks db.tokens

theorem marksOnly_insert (db : b.Db) (hun : ∀ r ∈ rs, cfg.codec.spent r = false) :
    MarksOnly (b.marks json db) (b.marks json ((b.store cfg now service).insertTokens rs db).2) [] := by
  cases b with
  | redis => exact Redis.marksOnly_insert hun
  | dynamo => exact Dynamo.marksOnly_insert hun
  | fdb => exact Fdb.marksOnly_insert hun

theorem marksOnly_replace (db : b.Db) (hun : ∀ o ∈ op.outputs, cfg.codec.spent o = false) :
    MarksOnly (b.marks json db) (b.marks json ((b.store cfg now service).batchReplace ns [op] db).2)
      (inputKeys cfg ns op) := by
  cases b with
  | redis => exact Redis.marksOnly_replace hun
  | dynamo => exact Dynamo.marksOnly_replace hun
  | fdb => exact Fdb.marksOnly_replace hun

theorem marksOnly_burn (db : b.Db) (hash : String) (record : BurnRecord) :
    MarksOnly (b.marks json db) (b.marks json ((b.store cfg now service).batchBurn ns [(hash, record)] db).2)
      [cfg.tokenKey ns hash] := by
  cases b with
  | redis => exact Redis.marksOnly_burn hash record
  | dynamo => exact Dynamo.marksOnly_burn hash record
  | fdb => exact Fdb.marksOnly_burn hash record

theorem marks_updateMiningState (db : b.Db) (state : MiningState) :
    b.marks json ((b.store cfg now service).updateMiningState state db).2 = b.marks json db := by
  cases b <;> rfl

/-- **`get_tokens` reads the marks**, on every backend. -/
theorem getTokens_marks (L : LockCodec cfg.codec json) {db : b.Db} {hashes : List String} {found : List (Option ρ)}
    (h : (b.store cfg now service).getTokens ns hashes db = .ok found) :
    found.length = hashes.length ∧ ∀ (j : Nat) (x : String) (r : ρ), hashes[j]? = some x →
      found[j]? = some (some r) →
      b.marks json db (cfg.tokenKey ns x) = some (cfg.codec.spent r, L.htlcState r) := by
  cases b with
  | redis => exact Redis.getTokens_marks L h
  | dynamo => exact Dynamo.getTokens_marks L h
  | fdb => exact Fdb.getTokens_marks L h

theorem marks_empty (k : String) : b.marks json b.empty k = none := by
  cases b <;> rfl

end Backend

end

end Webycash
