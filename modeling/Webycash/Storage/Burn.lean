import Webycash.Lib.Batch
import Webycash.Storage.Backend
/-!
# `batch_burn` on three backends

One burn closes one seal or does nothing, on every backend (`closer`). A batch is a pipeline of
scripts on Redis and a loop of transactions on the other two; nothing takes back what was burned
before the first refusal. `batch_burn_whole_iff` says for which stores and lists the batch is
all-or-nothing, as `LedgerStore::batch_burn` has it (storage/src/lib.rs:216).
-/

namespace Webycash

section

variable {ρ : Type} (cfg : StoreConfig ρ) (now : DateTime) (ns : Namespace)

/-- The key of a listed burn. -/
def burnKeyOf (op : String × BurnRecord) : String := cfg.tokenKey ns op.1

/-! ## Redis -/

namespace Redis

variable {cfg now ns} in
theorem seals_congr {t t' : Tokens} {k : String} (h : t'.lookup k = t.lookup k) : seals t' k = seals t k := by
  rw [seals, h, seals]

/-- The script of one listed burn, with its reply read as the answer. -/
def burnOne (op : String × BurnRecord) (db : Db) : Except String Unit × Db :=
  let result := burnLua (burnKeyOf cfg ns op) (cfg.keys.burnKey cfg.name ns op.2.id)
    (cfg.chrono.toRfc3339 now) (.burn op.2) db
  (burnAnswer [result.1], result.2)

theorem burnOne_cases (op : String × BurnRecord) (db : Db) :
    (seals db.tokens (burnKeyOf cfg ns op) ≠ some false ∧ ∃ e, burnOne cfg now ns op db = (.error e, db)) ∨
    (seals db.tokens (burnKeyOf cfg ns op) = some false ∧ (burnOne cfg now ns op db).1 = .ok () ∧
      Seals.Exchanged (seals db.tokens) (seals (burnOne cfg now ns op db).2.tokens) [burnKeyOf cfg ns op] []) := by
  have hframe : ∀ k, k ≠ burnKeyOf cfg ns op → seals (burnOne cfg now ns op db).2.tokens k = seals db.tokens k :=
    fun k hk => seals_congr (lookup_burnLua_of_ne fun _ => hk)
  rcases burnLua_cases (burnKeyOf cfg ns op) (cfg.keys.burnKey cfg.name ns op.2.id)
    (cfg.chrono.toRfc3339 now) (.burn op.2) db
    with ⟨hr, e, he⟩ | ⟨hr, he⟩
  · refine Or.inl ⟨fun h => hr (seals_eq_open.1 h), "burn failed: " ++ e, ?_⟩
    simp [burnOne, he, burnAnswer]
  · refine Or.inr ⟨seals_eq_open.2 hr, by simp [burnOne, he, burnAnswer], ?_, by simp,
      fun k hk _ => hframe k (by simpa using hk)⟩
    intro k hk
    obtain rfl : k = burnKeyOf cfg ns op := by simpa using hk
    simp [burnOne, he, seals, lookup_markSpent, lookup_spentFields]

def closer : Closer (String × BurnRecord) Db String String where
  seals db := seals db.tokens
  key := burnKeyOf cfg ns
  close := burnOne cfg now ns
  spec := burnOne_cases cfg now ns

/-- The pipeline tries every burn. -/
theorem batchBurn_eq_closeEach (ops : List (String × BurnRecord)) (db : Db) :
    batchBurn cfg now ns ops db = (closer cfg now ns).closeEach ops db := by
  induction ops generalizing db with
  | nil => rfl
  | cons op ops ih =>
    obtain ⟨hash, record⟩ := op
    rcases burnLua_cases (cfg.tokenKey ns hash) (cfg.keys.burnKey cfg.name ns record.id)
      (cfg.chrono.toRfc3339 now) (.burn record)
      db with ⟨-, e, he⟩ | ⟨-, he⟩
    · have hone : (closer cfg now ns).close (hash, record) db = (.error ("burn failed: " ++ e), db) := by
        simp [closer, burnOne, burnKeyOf, he, burnAnswer]
      rw [Closer.closeEach, hone]
      dsimp only
      rw [← ih]
      simp [batchBurn, runBurn, he, burnAnswer]
    · have hone : (closer cfg now ns).close (hash, record) db =
          (.ok (), (burnOne cfg now ns (hash, record) db).2) := by
        simp [closer, burnOne, burnKeyOf, he, burnAnswer]
      rw [Closer.closeEach, hone]
      dsimp only
      rw [← ih]
      simp [batchBurn, runBurn, burnOne, burnKeyOf, he, burnAnswer]

end Redis

/-! ## DynamoDB and FoundationDB -/

namespace Dynamo

theorem execBurn_cases (op : String × BurnRecord) (db : Db) :
    (seals db.tokens (burnKeyOf cfg ns op) ≠ some false ∧ ∃ e, execBurn cfg now ns op.1 op.2 db =
      (.error e, db)) ∨
    (seals db.tokens (burnKeyOf cfg ns op) = some false ∧ (execBurn cfg now ns op.1 op.2 db).1 = .ok () ∧
      Seals.Exchanged (seals db.tokens) (seals (execBurn cfg now ns op.1 op.2 db).2.tokens)
        [burnKeyOf cfg ns op] []) := by
  rcases burn_cases cfg now ns op.1 op.2 db with hrefused | ⟨hopen, he⟩
  · exact Or.inl hrefused
  · rw [he]
    refine Or.inr ⟨hopen, rfl, ?_, by simp, ?_⟩
    · intro k hk
      obtain rfl : k = burnKeyOf cfg ns op := by simpa using hk
      simp [seals, burnKeyOf, lookup_spent_spendItem]
    · intro k hk _
      have hne : k ≠ cfg.tokenKey ns op.1 := by simpa [burnKeyOf] using hk
      simp [seals, Finmap.lookup_insert_of_ne _ hne]

def closer : Closer (String × BurnRecord) Db String String where
  seals db := seals db.tokens
  key := burnKeyOf cfg ns
  close op := execBurn cfg now ns op.1 op.2
  spec := execBurn_cases cfg now ns

/-- The loop stops at the first refusal. -/
theorem batchBurn_eq_closeUntil (ops : List (String × BurnRecord)) (db : Db) :
    batchBurn cfg now ns ops db = (closer cfg now ns).closeUntil ops db := by
  induction ops generalizing db with
  | nil => rfl
  | cons op ops ih =>
    obtain ⟨hash, record⟩ := op
    have hone : (closer cfg now ns).close (hash, record) db = execBurn cfg now ns hash record db := rfl
    rw [batchBurn, Closer.closeUntil, hone]
    rcases execBurn cfg now ns hash record db with ⟨e | u, db₁⟩
    · rfl
    · exact ih db₁

end Dynamo

namespace Fdb

theorem execBurn_cases (op : String × BurnRecord) (db : Db) :
    (seals db.tokens (burnKeyOf cfg ns op) ≠ some false ∧ ∃ e, execBurn cfg now ns op.1 op.2 db =
      (.error e, db)) ∨
    (seals db.tokens (burnKeyOf cfg ns op) = some false ∧ (execBurn cfg now ns op.1 op.2 db).1 = .ok () ∧
      Seals.Exchanged (seals db.tokens) (seals (execBurn cfg now ns op.1 op.2 db).2.tokens)
        [burnKeyOf cfg ns op] []) := by
  rcases burn_cases cfg now ns op.1 op.2 db with hrefused | ⟨hopen, doc, -, he⟩
  · exact Or.inl hrefused
  · rw [he]
    refine Or.inr ⟨hopen, rfl, ?_, by simp, ?_⟩
    · intro k hk
      obtain rfl : k = burnKeyOf cfg ns op := by simpa using hk
      simp [seals_insert, burnKeyOf, alreadySpent_spendDoc]
    · intro k hk _
      have hne : k ≠ cfg.tokenKey ns op.1 := by simpa [burnKeyOf] using hk
      rw [seals_insert, if_neg hne]

def closer : Closer (String × BurnRecord) Db String String where
  seals db := seals db.tokens
  key := burnKeyOf cfg ns
  close op := execBurn cfg now ns op.1 op.2
  spec := execBurn_cases cfg now ns

theorem batchBurn_eq_closeUntil (ops : List (String × BurnRecord)) (db : Db) :
    batchBurn cfg now ns ops db = (closer cfg now ns).closeUntil ops db := by
  induction ops generalizing db with
  | nil => rfl
  | cons op ops ih =>
    obtain ⟨hash, record⟩ := op
    have hone : (closer cfg now ns).close (hash, record) db = execBurn cfg now ns hash record db := rfl
    rw [batchBurn, Closer.closeUntil, hone]
    rcases execBurn cfg now ns hash record db with ⟨e | u, db₁⟩
    · rfl
    · exact ih db₁

end Fdb

/-! ## All or nothing -/

namespace Backend

/-- Where burns are recorded. -/
def burnAudit : (b : Backend) → b.Db → FMap String AuditRow
  | redis, db => db.audit
  | dynamo, db => db.audit
  | fdb, db => db.burnAudit

/-- The contract of `batch_burn` for one call: a refused batch marked no token and recorded no burn,
and a batch that went through marked every listed token, each once. -/
def BurnsAllOrNothing (service : Dynamo.Env) (ops : List (String × BurnRecord)) (b : Backend) (db : b.Db) : Prop :=
  (((b.store cfg now service).batchBurn ns ops db).1 ≠ .ok () →
    (∀ k, b.seals ((b.store cfg now service).batchBurn ns ops db).2 k = some true → b.seals db k = some true) ∧
      b.burnAudit ((b.store cfg now service).batchBurn ns ops db).2 = b.burnAudit db) ∧
  (((b.store cfg now service).batchBurn ns ops db).1 = .ok () →
    (ops.map (burnKeyOf cfg ns)).Nodup ∧ ∀ k ∈ ops.map (burnKeyOf cfg ns), b.seals db k = some false ∧
      b.seals ((b.store cfg now service).batchBurn ns ops db).2 k = some true)

/-- Nothing of the batch can be burned: no listed token on Redis, where every burn is tried, and
not the first one where the loop stops. -/
def BurnsNothing (ops : List (String × BurnRecord)) : (b : Backend) → b.Db → Prop
  | redis, db => ∀ k ∈ ops.map (burnKeyOf cfg ns), Redis.seals db.tokens k ≠ some false
  | dynamo, db => ∀ op, ops.head? = some op → Dynamo.seals db.tokens (burnKeyOf cfg ns op) ≠ some false
  | fdb, db => ∀ op, ops.head? = some op → Fdb.seals db.tokens (burnKeyOf cfg ns op) ≠ some false

end Backend

/-- **`batch_burn` is all-or-nothing** exactly when the listed tokens are all unspent, each listed
once, or none of them can be burned. For every backend, store state and list. -/
theorem batch_burn_whole_iff (service : Dynamo.Env) (ops : List (String × BurnRecord)) (b : Backend) (db : b.Db) :
    b.BurnsAllOrNothing cfg now ns service ops db ↔
      ((ops.map (burnKeyOf cfg ns)).Nodup ∧ (b.seals db).Open (ops.map (burnKeyOf cfg ns))) ∨
        b.BurnsNothing cfg ns ops db := by
  cases b with
  | redis =>
    have h := Closer.closeEach_allOrNothing_iff (C := Redis.closer cfg now ns) (l := ops) (d := db) Redis.Db.audit
    rw [← Redis.batchBurn_eq_closeEach cfg now ns ops db] at h
    exact h
  | dynamo =>
    have h := Closer.closeUntil_allOrNothing_iff (C := Dynamo.closer cfg now ns) (l := ops) (d := db) Dynamo.Db.audit
    rw [← Dynamo.batchBurn_eq_closeUntil cfg now ns ops db] at h
    exact h
  | fdb =>
    have h := Closer.closeUntil_allOrNothing_iff (C := Fdb.closer cfg now ns) (l := ops) (d := db) Fdb.Db.burnAudit
    rw [← Fdb.batchBurn_eq_closeUntil cfg now ns ops db] at h
    exact h

/-- A refused batch that marked a token. -/
theorem not_allOrNothing (service : Dynamo.Env) (ops : List (String × BurnRecord)) (b : Backend)
    (db : b.Db) (k : String)
    (herr : ((b.store cfg now service).batchBurn ns ops db).1 ≠ .ok ()) (hopen : b.seals db k = some false)
    (hmark : b.seals ((b.store cfg now service).batchBurn ns ops db).2 k = some true) :
    ¬ b.BurnsAllOrNothing cfg now ns service ops db := by
  intro h
  have hsame := (h.1 herr).1 k hmark
  rw [hopen] at hsame
  cases hsame

end

open Redis.Sample

/-- A token that is there, then one that is not. -/
def brokenBatch : List (String × BurnRecord) :=
  [(hash 'a', ⟨"burn-1", hash 'a', I64.wrap 3, ⟨0⟩⟩), (hash 'z', ⟨"burn-2", hash 'z', I64.wrap 3, ⟨0⟩⟩)]

/-- The batch is refused on every backend, with the first token burned and recorded. -/
theorem refused_batch_burns :
    ¬ Backend.redis.BurnsAllOrNothing cfg ⟨0⟩ ns .calm brokenBatch (Redis.dbOf cfg [record 'a' 3 none]) ∧
    ¬ Backend.dynamo.BurnsAllOrNothing cfg ⟨0⟩ ns .calm brokenBatch (Dynamo.dbOf cfg [record 'a' 3 none]) ∧
    ¬ Backend.fdb.BurnsAllOrNothing cfg ⟨0⟩ ns .calm brokenBatch (Fdb.dbOf cfg [record 'a' 3 none]) ∧
    (Redis.batchBurn cfg ⟨0⟩ ns brokenBatch (Redis.dbOf cfg [record 'a' 3 none])).1 =
      .error "burn failed: token not found" := by
  have hanswer : (Redis.batchBurn cfg ⟨0⟩ ns brokenBatch (Redis.dbOf cfg [record 'a' 3 none])).1 =
      .error "burn failed: token not found" := by decide +kernel
  have hredis := not_allOrNothing cfg ⟨0⟩ ns .calm brokenBatch .redis (Redis.dbOf cfg [record 'a' 3 none])
    (cfg.tokenKey ns (hash 'a')) (by decide +kernel) (by decide +kernel) (by decide +kernel)
  have hdynamo := not_allOrNothing cfg ⟨0⟩ ns .calm brokenBatch .dynamo (Dynamo.dbOf cfg [record 'a' 3 none])
    (cfg.tokenKey ns (hash 'a')) (by decide +kernel) (by decide +kernel) (by decide +kernel)
  have hfdb := not_allOrNothing cfg ⟨0⟩ ns .calm brokenBatch .fdb (Fdb.dbOf cfg [record 'a' 3 none])
    (cfg.tokenKey ns (hash 'a')) (by decide +kernel) (by decide +kernel) (by decide +kernel)
  exact And.intro hredis (And.intro hdynamo (And.intro hfdb hanswer))

end Webycash
