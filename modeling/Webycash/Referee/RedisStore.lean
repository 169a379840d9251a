import Webycash.Referee.FdbAudit
import Webycash.Referee.InMemoryStore
/-!
# The referee on Redis (`referee/src/store/redis.rs`, `referee/src/audit/redis.rs`)

Rows, indexes and audit lists lie in one keyspace of typed values, apart by the prefixes of their keys
(`key_inj`). A row is one string, and the script that puts it enters the swap in the sorted sets of both
parties. As long as no command meets a value of another type, which the prefixes see to, the keyspace gives
back what a map of rows and a list of entries would (`Mirrors.upsert`, `Mirrors.append`).

| here | there |
| --- | --- |
| `Place`, `swapKey` … `auditKey` | store/redis.rs:26, audit/redis.rs:16 |
| `upsertScript`, `upsert`   | `UPSERT_SCRIPT` store/redis.rs:65, :74 |
| `get`                      | store/redis.rs:94 |
| `summaries`, `listByParty` | store/redis.rs:110 |
| `append`, `entriesFor`, `tipFor` | audit/redis.rs:43, :58, :73 |

`serde_json` is another crate's (`SerdeJson`). A score is an `f64`, made from the digits of a `u64`.
-/

namespace Webycash.Referee.RedisStore

open FdbAudit (signed)
open FdbStore (Side roleOf)

/-! ## Commands -/

/-- A value of the keyspace; a sorted set keeps the score of each member. -/
inductive Value
  | string (s : String)
  | list (l : List String)
  | zset (z : List (String × Nat))

abbrev Db := FMap String Value

def wrongType : String := "WRONGTYPE Operation against a key holding the wrong kind of value"

/-- `GET k`. -/
def getString (k : String) (db : Db) : Except String (Option String) :=
  match db.lookup k with
  | none => .ok none
  | some (.string s) => .ok (some s)
  | some _ => .error wrongType

/-- `RPUSH k s`. -/
def rpush (k s : String) (db : Db) : Except String Db :=
  match db.lookup k with
  | none => .ok (db.insert k (.list [s]))
  | some (.list l) => .ok (db.insert k (.list (l ++ [s])))
  | some _ => .error wrongType

/-- `LRANGE k 0 -1`. -/
def lrange (k : String) (db : Db) : Except String (List String) :=
  match db.lookup k with
  | none => .ok []
  | some (.list l) => .ok l
  | some _ => .error wrongType

/-- `LINDEX k -1`. -/
def lindexLast (k : String) (db : Db) : Except String (Option String) := (lrange k db).map List.getLast?

/-- `ZADD k score member`. -/
def zadd (k : String) (score : Nat) (member : String) (db : Db) : Except String Db :=
  match db.lookup k with
  | none => .ok (db.insert k (.zset [(member, score)]))
  | some (.zset z) => .ok (db.insert k (.zset ((member, score) :: z.filter fun m => m.1 ≠ member)))
  | some _ => .error wrongType

/-- By descending score, and members of one score by descending text. -/
def higherFirst (a b : String × Nat) : Bool := decide (b.2 < a.2 ∨ b.2 = a.2 ∧ b.1 ≤ a.1)

/-- `ZREVRANGEBYSCORE k +inf -inf LIMIT 0 limit`. -/
def zrevrange (k : String) (limit : Nat) (db : Db) : Except String (List String) :=
  match db.lookup k with
  | none => .ok []
  | some (.zset z) => .ok (((z.mergeSort higherFirst).take limit).map Prod.fst)
  | some _ => .error wrongType

/-- A whole number as an `f64`: 53 significant bits, the nearest, a tie to the even one. -/
def toF64 (n : Nat) : Nat :=
  let unit := 2 ^ (n.log2 - 52)
  let q := n / unit
  let r := n % unit
  if unit < 2 * r ∨ 2 * r = unit ∧ q % 2 = 1 then (q + 1) * unit else q * unit

/-! ## Keys -/

/-- What a key is the key of. -/
inductive Place
  | row
  | byBob
  | byAlice
  | audit
  deriving DecidableEq

def Place.pre : Place → String
  | row => "referee:swap:"
  | byBob => "referee:by-bob:"
  | byAlice => "referee:by-alice:"
  | audit => "referee:audit:"

def swapKey (id : SwapId) : String := Place.row.pre ++ id.id

def byBobKey (fp : PgpFingerprint) : String := Place.byBob.pre ++ fp.hex

def byAliceKey (fp : PgpFingerprint) : String := Place.byAlice.pre ++ fp.hex

def auditKey (id : SwapId) : String := Place.audit.pre ++ id.id

/-! ## The store -/

/-- The `serde_json` calls: `to_string` and `from_str` on a row and on an entry. -/
structure SerdeJson where
  rowText : Transaction → Except String String
  readRow : String → Except String Transaction
  entryText : AuditEntry → Except String String
  readEntry : String → Except String AuditEntry

/-- A row and an entry survive the way to their text and back. -/
structure SerdeJson.RoundTrips (json : SerdeJson) : Prop where
  row : ∀ tx, ∃ text, json.rowText tx = .ok text ∧ json.readRow text = .ok tx
  entry : ∀ e, ∃ text, json.entryText e = .ok text ∧ json.readEntry text = .ok e

/-- The script: a command that fails ends it, and what it wrote stays. -/
def upsertScript (row bob alice json swapId : String) (score : Nat) (db : Db) : Except String Unit × Db :=
  let db := db.insert row (.string json)
  match zadd bob score swapId db with
  | .error e => (.error e, db)
  | .ok db =>
    match zadd alice score swapId db with
    | .error e => (.error e, db)
    | .ok db => (.ok (), db)

section

variable (json : SerdeJson)

def upsert (tx : Transaction) (db : Db) : Except RefereeError Unit × Db :=
  match json.rowText tx with
  | .error e => (.error (.store ("encode: " ++ e)), db)
  | .ok text =>
    let r := upsertScript (swapKey tx.swapId) (byBobKey tx.bobPgpFp) (byAliceKey tx.alicePgpFp) text tx.swapId.id
      (toF64 tx.createdAtUnix) db
    (r.1.mapError fun e => .store ("redis upsert: " ++ e), r.2)

def get (id : SwapId) (db : Db) : Except RefereeError (Option Transaction) := do
  let raw ← (getString (swapKey id) db).mapError fun e => .store ("redis get: " ++ e)
  match raw with
  | none => return none
  | some s => return some (← (json.readRow s).mapError fun e => .store ("decode: " ++ e))

/-- The loop of `list_by_party` over the ids, with those it has seen. -/
def summaries (fp : PgpFingerprint) (db : Db) : List String → List String →
    Except RefereeError (List TransactionSummary)
  | _, [] => .ok []
  | seen, id :: ids =>
    if id ∈ seen then summaries fp db seen ids
    else do
      let raw ← (getString (Place.row.pre ++ id) db).mapError fun e => .store ("redis fetch row: " ++ e)
      match raw with
      | none => summaries fp db (id :: seen) ids
      | some s =>
        let tx ← (json.readRow s).mapError fun e => .store ("decode row: " ++ e)
        let rest ← summaries fp db (id :: seen) ids
        return tx.summary (roleOf fp tx) :: rest

def listByParty (fp : PgpFingerprint) (db : Db) : Except RefereeError (List TransactionSummary) := do
  let bobIds ← (zrevrange (byBobKey fp) 1000 db).mapError fun e => .store ("redis zrev bob: " ++ e)
  let aliceIds ← (zrevrange (byAliceKey fp) 1000 db).mapError fun e => .store ("redis zrev alice: " ++ e)
  let out ← summaries json fp db [] (bobIds ++ aliceIds)
  return (out.mergeSort fun a b => decide (b.createdAtUnix ≤ a.createdAtUnix)).take 1000

/-! ## The audit log -/

def append (ed : Ed25519) (entry : AuditEntry) (db : Db) : Except RefereeError String × Db :=
  let entry := signed ed entry
  let tip := entry.tipHash
  match json.entryText entry with
  | .error e => (.error (.store ("encode: " ++ e)), db)
  | .ok text =>
    match rpush (auditKey entry.swapId) text db with
    | .error e => (.error (.store ("redis rpush: " ++ e)), db)
    | .ok db => (.ok tip, db)

def entriesFor (id : SwapId) (db : Db) : Except RefereeError (List AuditEntry) := do
  let items ← (lrange (auditKey id) db).mapError fun e => .store ("redis lrange: " ++ e)
  items.mapM fun s => (json.readEntry s).mapError fun e => .store ("decode: " ++ e)

def tipFor (id : SwapId) (db : Db) : Except RefereeError String := do
  let last ← (lindexLast (auditKey id) db).mapError fun e => .store ("redis lindex: " ++ e)
  match last with
  | none => return ""
  | some s => return (← (json.readEntry s).mapError fun e => .store ("decode: " ++ e)).tipHash

end

/-! ## Keys do not meet -/

theorem starts_pre (p q : Place) : p.pre.toList <+: q.pre.toList → p = q := by
  cases p <;> cases q <;> decide

/-- A key says what it is the key of. -/
theorem key_inj {p q : Place} {s t : String} (h : p.pre ++ s = q.pre ++ t) : p = q ∧ s = t := by
  have hlist : p.pre.toList ++ s.toList = q.pre.toList ++ t.toList := by
    rw [← String.toList_append, h, String.toList_append]
  have hplace : p = q := by
    rcases List.prefix_or_prefix_of_prefix (List.prefix_append _ s.toList)
      (hlist ▸ List.prefix_append _ t.toList) with hpre | hpre
    · exact starts_pre p q hpre
    · exact (starts_pre q p hpre).symm
  subst hplace
  exact ⟨rfl, String.toList_injective (List.append_cancel_left hlist)⟩

/-- Another place, another key. -/
theorem key_ne {p q : Place} (hpq : p ≠ q) (s t : String) : p.pre ++ s ≠ q.pre ++ t := fun h => hpq (key_inj h).1

variable {json : SerdeJson} {db : Db} {rows : FMap SwapId Transaction} {log : List AuditEntry} {tx : Transaction}
  {e : AuditEntry} {id : SwapId} {k : String} {p : Place}

/-! ## What the commands do -/

/-- A sorted set, or nothing. -/
def Indexed (v : Option Value) : Prop := ∀ x, v = some x → ∃ z, x = .zset z

/-- The sorted set under a key, empty when there is none. -/
def zsetOf (k : String) (db : Db) : List (String × Nat) :=
  match db.lookup k with
  | some (.zset z) => z
  | _ => []

/-- A sorted set after a member was given a score. -/
def scored (member : String) (score : Nat) (z : List (String × Nat)) : List (String × Nat) :=
  (member, score) :: z.filter fun m => m.1 ≠ member

theorem zadd_ok (h : Indexed (db.lookup k)) (score : Nat) (member : String) :
    zadd k score member db = .ok (db.insert k (.zset (scored member score (zsetOf k db)))) := by
  unfold zadd zsetOf
  cases hk : db.lookup k with
  | none => rfl
  | some x =>
    obtain ⟨z, rfl⟩ := h x hk
    rfl

theorem zrevrange_ok (h : Indexed (db.lookup k)) (limit : Nat) :
    zrevrange k limit db = .ok ((((zsetOf k db).mergeSort higherFirst).take limit).map Prod.fst) := by
  unfold zrevrange zsetOf
  cases hk : db.lookup k with
  | none => simp
  | some x =>
    obtain ⟨z, rfl⟩ := h x hk
    rfl

theorem rpush_ok {l : List String} (h : lrange k db = .ok l) (s : String) :
    rpush k s db = .ok (db.insert k (.list (l ++ [s]))) := by
  unfold lrange at h
  unfold rpush
  cases hk : db.lookup k with
  | none =>
    rw [hk] at h
    cases h
    rfl
  | some x =>
    rw [hk] at h
    cases x <;> cases h
    rfl

theorem lrange_insert {l : List String} : lrange k (db.insert k (.list l)) = .ok l := by
  rw [lrange, FMap.lookup_insert_ite, if_pos rfl]

/-- What a key that was not written holds. -/
theorem lookup_insert_ne {q : Place} {s t : String} {v : Value} (h : q ≠ p) :
    (db.insert (p.pre ++ s) v).lookup (q.pre ++ t) = db.lookup (q.pre ++ t) := by
  rw [FMap.lookup_insert_ite, if_neg (key_ne h t s)]

theorem get_congr {db' : Db} (h : db'.lookup (swapKey id) = db.lookup (swapKey id)) :
    get json id db' = get json id db := by
  rw [get, get, getString, getString, h]

theorem entriesFor_congr {db' : Db} (h : db'.lookup (auditKey id) = db.lookup (auditKey id)) :
    entriesFor json id db' = entriesFor json id db := by
  rw [entriesFor, entriesFor, lrange, lrange, h]

/-- Reading one text more. -/
theorem mapM_concat {ε α β : Type} {read : α → Except ε β} {l : List α} {a : α} {bs : List β} :
    (l ++ [a]).mapM read = .ok bs ↔ ∃ init b, l.mapM read = .ok init ∧ read a = .ok b ∧ bs = init ++ [b] := by
  rw [List.mapM_append, List.mapM_cons, List.mapM_nil]
  constructor
  · intro h
    cases hl : l.mapM read with
    | error err =>
      rw [hl] at h
      cases h
    | ok init =>
      cases ha : read a with
      | error err =>
        rw [hl, ha] at h
        cases h
      | ok b =>
        rw [hl, ha] at h
        exact ⟨init, b, rfl, rfl, (Except.ok.inj h).symm⟩
  · rintro ⟨init, b, hl, ha, rfl⟩
    rw [hl, ha]
    rfl

/-- The tip is the hash of the last entry that is read. -/
theorem tipFor_of_entriesFor {entries : List AuditEntry} (h : entriesFor json id db = .ok entries) :
    tipFor json id db = .ok ((entries.getLast?.map AuditEntry.tipHash).getD "") := by
  rw [entriesFor] at h
  rw [tipFor, lindexLast]
  cases hl : lrange (auditKey id) db with
  | error err =>
    rw [hl] at h
    cases h
  | ok items =>
    rw [hl] at h
    rcases List.eq_nil_or_concat items with rfl | ⟨items, last, rfl⟩
    · cases h
      rfl
    · rw [List.concat_eq_append] at h ⊢
      obtain ⟨init, e, -, he, rfl⟩ := mapM_concat.1 h
      rw [Except.map, List.getLast?_concat, List.getLast?_concat]
      show (do return (← (json.readEntry last).mapError _).tipHash) = _
      rw [he]
      rfl

/-! ## What an upsert writes -/

/-- The key of one of the two indexes. -/
def indexKey (side : Side) (fp : PgpFingerprint) : String :=
  match side with
  | .bob => byBobKey fp
  | .alice => byAliceKey fp

/-- The sorted set of a party after a row was put. -/
def indexAfter (side : Side) (tx : Transaction) (db : Db) : List (String × Nat) :=
  scored tx.swapId.id (toF64 tx.createdAtUnix) (zsetOf (indexKey side (side.fp tx)) db)

/-- The keyspace after a row was put. -/
def written (tx : Transaction) (text : String) (db : Db) : Db :=
  ((db.insert (swapKey tx.swapId) (.string text)).insert (byBobKey tx.bobPgpFp) (.zset (indexAfter .bob tx db))).insert
    (byAliceKey tx.alicePgpFp) (.zset (indexAfter .alice tx db))

theorem swapKey_inj {id' : SwapId} (h : swapKey id = swapKey id') : id = id' := by
  cases id
  cases id'
  exact congrArg SwapId.mk (key_inj h).2

theorem indexKey_inj {side side' : Side} {fp fp' : PgpFingerprint} (h : indexKey side fp = indexKey side' fp') :
    side = side' ∧ fp = fp' := by
  cases fp
  cases fp'
  cases side <;> cases side' <;> first
    | exact ⟨rfl, congrArg PgpFingerprint.mk (key_inj h).2⟩
    | exact absurd h (key_ne (by decide) _ _)

theorem lookup_written_row (tx : Transaction) (text : String) (db : Db) (id : SwapId) :
    (written tx text db).lookup (swapKey id) =
    if id = tx.swapId then some (.string text) else db.lookup (swapKey id) := by
  rw [written, swapKey, byAliceKey, lookup_insert_ne (by decide), byBobKey, lookup_insert_ne (by decide), ← swapKey,
    FMap.lookup_insert_ite]
  by_cases hid : id = tx.swapId
  · rw [if_pos hid, if_pos (congrArg swapKey hid)]
  · rw [if_neg hid, if_neg fun h => hid (swapKey_inj h)]

theorem lookup_written_audit (tx : Transaction) (text : String) (db : Db) (id : SwapId) :
    (written tx text db).lookup (auditKey id) = db.lookup (auditKey id) := by
  rw [written, auditKey, byAliceKey, lookup_insert_ne (by decide), byBobKey, lookup_insert_ne (by decide), swapKey,
    lookup_insert_ne (by decide)]

theorem lookup_written_index (tx : Transaction) (text : String) (db : Db) (side : Side) (fp : PgpFingerprint) :
    (written tx text db).lookup (indexKey side fp) =
      if fp = side.fp tx then some (.zset (indexAfter side tx db)) else db.lookup (indexKey side fp) := by
  have hrow : (db.insert (swapKey tx.swapId) (.string text)).lookup (indexKey side fp) =
      db.lookup (indexKey side fp) := by
    cases side <;> exact lookup_insert_ne (by decide)
  show (Finmap.insert (indexKey .alice (Side.fp tx .alice))
    _ (Finmap.insert (indexKey .bob (Side.fp tx .bob)) _ _)).lookup _ = _
  rw [FMap.lookup_insert_ite, FMap.lookup_insert_ite, hrow]
  by_cases hfp : fp = side.fp tx
  · subst hfp
    cases side with
    | bob =>
      have hne : indexKey .bob (Side.fp tx .bob) ≠ indexKey .alice (Side.fp tx .alice) := key_ne (by decide) _ _
      rw [if_neg hne, if_pos rfl, if_pos rfl]
    | alice => rw [if_pos rfl, if_pos rfl]
  · have hne : ∀ side', indexKey side fp ≠ indexKey side' (side'.fp tx) := by
      intro side' h
      obtain ⟨rfl, heq⟩ := indexKey_inj h
      exact hfp heq
    rw [if_neg (hne .alice), if_neg (hne .bob), if_neg hfp]

/-- **What an upsert does**, where the keys of the indexes hold sorted sets. -/
theorem upsert_eq (hjson : json.RoundTrips) (h : ∀ side fp, Indexed (db.lookup (indexKey side fp)))
    (tx : Transaction) :
    ∃ text, json.readRow text = .ok tx ∧ upsert json tx db = (.ok (), written tx text db) := by
  obtain ⟨text, htext, hread⟩ := hjson.row tx
  have hbob : (db.insert (swapKey tx.swapId) (.string text)).lookup (byBobKey tx.bobPgpFp) =
      db.lookup (byBobKey tx.bobPgpFp) :=
    lookup_insert_ne (by decide)
  have halice : ∀ v, ((db.insert (swapKey tx.swapId) (.string text)).insert (byBobKey tx.bobPgpFp) v).lookup
    (byAliceKey tx.alicePgpFp) = db.lookup (byAliceKey tx.alicePgpFp) :=
    fun v => (lookup_insert_ne (by decide)).trans (lookup_insert_ne (by decide))
  refine ⟨text, hread, ?_⟩
  rw [upsert, htext]
  dsimp only
  rw [upsertScript, zadd_ok (by rw [hbob]; exact h .bob _)]
  dsimp only
  rw [zadd_ok (by rw [halice]; exact h .alice _), zsetOf, zsetOf, hbob, halice]
  rfl

/-! ## The keyspace in place of a map and a list -/

/-- The keyspace holds these rows and these entries, and nothing but sorted sets under the keys of the indexes. -/
structure Mirrors (json : SerdeJson) (db : Db) (rows : FMap SwapId Transaction) (log : List AuditEntry) : Prop where
  rows : ∀ id, get json id db = .ok (rows.lookup id)
  log : ∀ id, entriesFor json id db = .ok (log.filter (·.swapId = id))
  index : ∀ side fp, Indexed (db.lookup (indexKey side fp))

theorem Mirrors.empty : Mirrors json ∅ ∅ [] where
  rows _ := rfl
  log _ := rfl
  index _ _ _ h := by cases h

/-- **A row that is put is there, the others are what they were**, and so is the log. -/
theorem Mirrors.upsert (hjson : json.RoundTrips) (h : Mirrors json db rows log) (tx : Transaction) :
    (RedisStore.upsert json tx db).1 = .ok () ∧
      Mirrors json (RedisStore.upsert json tx db).2 (rows.insert tx.swapId tx) log := by
  obtain ⟨text, hread, heq⟩ := upsert_eq hjson h.index tx
  rw [heq]
  refine ⟨rfl, fun id => ?_, fun id => ?_, fun side fp => ?_⟩
  · have hrow := lookup_written_row tx text db id
    rw [FMap.lookup_insert_ite]
    by_cases hid : id = tx.swapId
    · rw [if_pos hid] at hrow ⊢
      rw [get, getString, hrow]
      show (do return some (← (json.readRow text).mapError _)) = _
      rw [hread]
      rfl
    · rw [if_neg hid] at hrow ⊢
      exact (get_congr hrow).trans (h.rows id)
  · exact (entriesFor_congr (lookup_written_audit tx text db id)).trans (h.log id)
  · rw [lookup_written_index]
    split
    · rintro x hx
      exact ⟨_, (Option.some.inj hx).symm⟩
    · exact h.index side fp

/-- **An entry that is appended is the last of its swap**, the other swaps keep theirs, and so do the rows. -/
theorem Mirrors.append (hjson : json.RoundTrips) (h : Mirrors json db rows log) (ed : Ed25519) (entry : AuditEntry) :
    (RedisStore.append json ed entry db).1 = .ok entry.tipHash ∧
      Mirrors json (RedisStore.append json ed entry db).2 rows (log ++ [signed ed entry]) := by
  obtain ⟨text, htext, hread⟩ := hjson.entry (signed ed entry)
  have hlog := h.log entry.swapId
  cases hl : lrange (auditKey entry.swapId) db with
  | error err =>
    rw [entriesFor, hl] at hlog
    cases hlog
  | ok items =>
    have heq : RedisStore.append json ed entry db =
        (.ok entry.tipHash, db.insert (auditKey entry.swapId) (.list (items ++ [text]))) := by
      rw [RedisStore.append, htext]
      show (match rpush (auditKey entry.swapId) text db with | .error e => _ | .ok db => _) = _
      rw [rpush_ok hl]
      rfl
    rw [heq]
    refine ⟨rfl, fun id => ?_, fun id => ?_, fun side fp => ?_⟩
    · exact (get_congr (lookup_insert_ne (by decide))).trans (h.rows id)
    · rw [List.filter_append]
      by_cases hid : entry.swapId = id
      · subst hid
        have hown : [signed ed entry].filter (·.swapId = entry.swapId) = [signed ed entry] := by simp [signed]
        rw [entriesFor, lrange_insert, hown]
        refine mapM_concat.2 ⟨_, _, ?_, ?_, rfl⟩
        · rw [entriesFor, hl] at hlog
          exact hlog
        · rw [hread]
          rfl
      · have hother : [signed ed entry].filter (·.swapId = id) = [] := by simp [signed, hid]
        rw [hother, List.append_nil, ← h.log id]
        refine entriesFor_congr ?_
        rw [FMap.lookup_insert_ite, if_neg fun heq => hid ?_]
        cases id
        exact (congrArg SwapId.mk (key_inj heq).2).symm
    · have hindex : (db.insert (auditKey entry.swapId) (.list (items ++ [text]))).lookup (indexKey side fp) =
          db.lookup (indexKey side fp) := by
        cases side <;> exact lookup_insert_ne (by decide)
      rw [hindex]
      exact h.index side fp

end Webycash.Referee.RedisStore
