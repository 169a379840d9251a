import Webycash.Lib.Retry
import Webycash.Storage.Insert
/-!
# FoundationDB transactions under retry (fdb_backend.rs:119, fdb_backend.rs:255)

`Database::run` hands its closure a flag that says whether the commit before may have gone
through. The closures of `insert_tokens` and `exec_replace` are written `|trx, _maybe_committed|`:
they refuse their own writes like anybody else's. So an `Err` may stand for a transaction that is
in the store (`failed_was_not_applied_iff`).
-/

namespace Webycash.Fdb

open Retry

section

variable {ρ : Type} (cfg : StoreConfig ρ)

/-! ## The closures -/

/-- The closure of `insert_tokens`. -/
def insertClosure (records : List ρ) : Body DateTime Db String := fun _maybeCommitted _now db =>
  (insertDocs "token already exists" (records.map (entryOf cfg)) db.tokens).map fun t => { db with tokens := t }

/-- The closure of `exec_replace`; each run reads the clock for `spent_at`. -/
def replaceClosure (ns : Namespace) (op : ReplaceOp ρ) : Body DateTime Db String := fun _maybeCommitted now db =>
  (replaceTrx cfg now ns op db.tokens).map fun t => { db with
    tokens := t
    replaceAudit := db.replaceAudit.insert (cfg.keys.replacementKey cfg.name ns op.record.id) (.replacement op.record) }

/-- `self.db.run(closure).await.map_err(fdb_err)`: the runs whose commit failed, then the last. -/
def runDb (body : Body DateTime Db String) (tries : List (DateTime × CommitError)) (last : DateTime) (db : Db) :
    Except String Unit × Db :=
  let out := run body last false tries db
  (out.1.mapError fdbErr, out.2)

/-- `insert_tokens` over the commits that failed on the way. -/
def insertTokensOver (records : List ρ) (tries : List (DateTime × CommitError)) (last : DateTime) (db : Db) :
    Except String Unit × Db :=
  if records = [] then (.ok (), db) else runDb (insertClosure cfg records) tries last db

/-- `exec_replace` over the commits that failed on the way. -/
def execReplaceOver (ns : Namespace) (op : ReplaceOp ρ) (tries : List (DateTime × CommitError))
    (last : DateTime) (db : Db) :
    Except String Unit × Db :=
  runDb (replaceClosure cfg ns op) tries last db

/-- With no failed commit this is the single transaction. -/
theorem execReplaceOver_nil (ns : Namespace) (op : ReplaceOp ρ) (last : DateTime) (db : Db) :
    execReplaceOver cfg ns op [] last db = execReplace cfg last ns op db := by
  unfold execReplaceOver runDb run replaceClosure execReplace
  cases replaceTrx cfg last ns op db.tokens <;> rfl

theorem insertTokensOver_nil (records : List ρ) (last : DateTime) (db : Db) :
    insertTokensOver cfg records [] last db = insertTokens cfg records db := by
  unfold insertTokensOver runDb run insertClosure insertTokens
  split
  · rename_i h
    subst h
    rfl
  · cases insertDocs "token already exists" (records.map (entryOf cfg)) db.tokens <;> rfl

/-! ## What they write -/

/-- All writes of a batch: every record under its own key. -/
def InsertWritten (records : List ρ) (db : Db) : Prop :=
  ∀ r ∈ records, db.tokens.lookup (cfg.recordKey r) = some (cfg.codec.toJson r)

/-- All writes of a replace: the marks, the outputs, the audit row. -/
def ReplaceWritten (ns : Namespace) (op : ReplaceOp ρ) (db : Db) : Prop :=
  (∀ k ∈ inputKeys cfg ns op, seals db.tokens k = some true) ∧
    (∀ r ∈ op.outputs, db.tokens.lookup (cfg.recordKey r) = some (cfg.codec.toJson r)) ∧
      db.replaceAudit.lookup (cfg.keys.replacementKey cfg.name ns op.record.id) = some (.replacement op.record)

variable {cfg} {records : List ρ} {ns : Namespace} {op : ReplaceOp ρ} {flag : Bool} {now : DateTime} {db db' : Db}

theorem insertClosure_ok_iff : insertClosure cfg records flag now db = .ok db' ↔
    NewKeys cfg records (seals db.tokens) ∧
      db' = { db with tokens := FMap.putAll db.tokens (records.map (entryOf cfg)) } := by
  have hkeys : (records.map (entryOf cfg)).map Prod.fst = records.map cfg.recordKey := by
    rw [List.map_map]
    rfl
  unfold insertClosure
  cases ht : insertDocs "token already exists" (records.map (entryOf cfg)) db.tokens with
  | error e =>
    simp only [Except.map, reduceCtorEq, false_iff, not_and]
    intro hnew
    rw [(insertDocs_ok_iff _).2 ⟨hkeys ▸ hnew, rfl⟩] at ht
    cases ht
  | ok t =>
    obtain ⟨hnew, rfl⟩ := (insertDocs_ok_iff _).1 ht
    simp only [Except.map, Except.ok.injEq, NewKeys, ← hkeys, hnew, true_and, eq_comm]

theorem replaceClosure_ok_iff : replaceClosure cfg ns op flag now db = .ok db' ↔
    (seals db.tokens).Accepts (inputKeys cfg ns op) (ownKeys cfg op) ∧ db' = (execReplace cfg now ns op db).2 := by
  have haccepts : (execReplace cfg now ns op db).1 = .ok () ↔
      (seals db.tokens).Accepts (inputKeys cfg ns op) (ownKeys cfg op) := execReplace_ok_iff
  rw [← haccepts]
  unfold replaceClosure execReplace
  cases replaceTrx cfg now ns op db.tokens with
  | error e => simp [Except.map]
  | ok t => simp [Except.map, eq_comm]

/-! ## The closures are guarded -/

/-- A batch of at least one record is refused on top of itself. -/
theorem insertClosure_guarded (hne : records ≠ []) :
    Guarded (insertClosure cfg records) (fun db => NewKeys cfg records (seals db.tokens))
      (InsertWritten cfg records) where
  ok_iff flag now db := by simp only [insertClosure_ok_iff, exists_and_left, exists_eq, and_true]
  written {flag now db db'} h := by
    obtain ⟨hnew, rfl⟩ := insertClosure_ok_iff.1 h
    intro r hr
    refine FMap.lookup_putAll_of_mem ?_ (List.mem_map_of_mem (f := entryOf cfg) hr) _
    rw [List.map_map]
    exact hnew.1
  once {flag now db db'} h hagain := by
    obtain ⟨-, rfl⟩ := insertClosure_ok_iff.1 h
    obtain ⟨r, rest, rfl⟩ := List.exists_cons_of_ne_nil hne
    have hfree := seals_eq_none.1 (hagain.2 (cfg.recordKey r) (by simp))
    refine hfree (FMap.mem_putAll.2 (Or.inr ?_))
    simp [entryOf]

theorem replaceWritten_of_ok (h : (execReplace cfg now ns op db).1 = .ok ()) :
    ReplaceWritten cfg ns op (execReplace cfg now ns op db).2 := by
  have hacc := execReplace_ok_iff.1 h
  refine ⟨(execReplace_exchanged h).closed, fun r hr => ?_, ?_⟩
  · rw [execReplace_tokens h]
    refine FMap.lookup_putAll_of_mem ?_ (List.mem_map_of_mem (f := entryOf cfg) hr) _
    rw [entries_keys]
    exact hacc.2.2.1
  · unfold execReplace at h ⊢
    split
    · rename_i e he
      simp [he] at h
    · simp

/-- A replace with an input or an output is refused on top of itself: the input is closed, the
output is taken. -/
theorem replaceClosure_guarded (hne : ¬ (op.inputs = [] ∧ op.outputs = [])) :
    Guarded (replaceClosure cfg ns op) (fun db => (seals db.tokens).Accepts (inputKeys cfg ns op) (ownKeys cfg op))
      (ReplaceWritten cfg ns op) where
  ok_iff flag now db := by simp only [replaceClosure_ok_iff, exists_and_left, exists_eq, and_true]
  written {flag now db db'} h := by
    obtain ⟨hacc, rfl⟩ := replaceClosure_ok_iff.1 h
    exact replaceWritten_of_ok (execReplace_ok_iff.2 hacc)
  once {flag now db db'} h hagain := by
    obtain ⟨hacc, rfl⟩ := replaceClosure_ok_iff.1 h
    have hx : Seals.Exchanged (seals db.tokens) (seals (execReplace cfg now ns op db).2.tokens) (inputKeys cfg ns op)
        (ownKeys cfg op) := execReplace_exchanged (execReplace_ok_iff.2 hacc)
    cases hin : op.inputs with
    | cons k ks =>
      have hk : cfg.tokenKey ns k ∈ inputKeys cfg ns op := by simp [inputKeys, hin]
      have hopen := hagain.2.1 _ hk
      rw [hx.closed _ hk] at hopen
      cases hopen
    | nil =>
      cases hout : op.outputs with
      | nil => exact hne ⟨hin, hout⟩
      | cons r rs =>
        have hk : cfg.recordKey r ∈ ownKeys cfg op := by simp [ownKeys, hout]
        exact hx.made _ hk (hagain.2.2.2 _ hk)

/-- A replace that writes no token commits on every store. -/
theorem replaceClosure_total (hin : op.inputs = []) (hout : op.outputs = []) (flag : Bool) (now : DateTime) (db : Db) :
    ∃ db', replaceClosure cfg ns op flag now db = .ok db' ∧ ReplaceWritten cfg ns op db' := by
  have hacc : (seals db.tokens).Accepts (inputKeys cfg ns op) (ownKeys cfg op) := by
    simp [Seals.Accepts, Seals.Open, Seals.Fresh, inputKeys, ownKeys, hin, hout]
  exact ⟨_, replaceClosure_ok_iff.2 ⟨hacc, rfl⟩, replaceWritten_of_ok (execReplace_ok_iff.2 hacc)⟩

/-! ## What an answer says -/

theorem faithful_runDb {written : Db → Prop} {body : Body DateTime Db String}
    {tries : List (DateTime × CommitError)} :
    Faithful written db (runDb body tries now db) ↔ Faithful written db (run body now false tries db) := by
  have hok : ∀ out : Except String Unit × Db, out.1.mapError fdbErr = .ok () ↔ out.1 = .ok () := by
    rintro ⟨_ | _, _⟩ <;> simp [Except.mapError]
  simp only [runDb, Faithful, ne_eq, hok]

/-- No run whose commit came back as `commit_unknown_result` had gone in. -/
def NoneApplied (tries : List (DateTime × CommitError)) : Prop := ∀ x ∈ tries, x.2 ≠ .unknownResult true

/-- **A failed request was not applied, an accepted one was**, exactly when no commit of unknown
result had gone in, or the store refuses the request as it stands, or no token is written. For
every store, request and sequence of failed commits. -/
theorem failed_was_not_applied_iff (ns : Namespace) (op : ReplaceOp ρ) (records : List ρ)
    (tries : List (DateTime × CommitError)) (last : DateTime) (db : Db) :
    (Faithful (ReplaceWritten cfg ns op) db (execReplaceOver cfg ns op tries last db) ↔
      NoneApplied tries ∨ ¬ (seals db.tokens).Accepts (inputKeys cfg ns op) (ownKeys cfg op) ∨
        (op.inputs = [] ∧ op.outputs = [])) ∧
    (Faithful (InsertWritten cfg records) db (insertTokensOver cfg records tries last db) ↔
      NoneApplied tries ∨ ¬ NewKeys cfg records (seals db.tokens) ∨ records = []) := by
  constructor
  · rw [execReplaceOver, faithful_runDb]
    by_cases hne : op.inputs = [] ∧ op.outputs = []
    · have htotal : ∀ flag now db, ∃ db', replaceClosure cfg ns op flag now db = .ok db' ∧
          ReplaceWritten cfg ns op db' :=
        replaceClosure_total hne.1 hne.2
      exact ⟨fun _ => Or.inr (Or.inr hne), fun _ => faithful_of_total htotal⟩
    · rw [faithful_iff (replaceClosure_guarded hne), NoneApplied]
      simp only [hne, or_false]
      exact or_comm
  · rw [insertTokensOver]
    split
    · rename_i hnil
      subst hnil
      simp [Faithful, InsertWritten]
    · rename_i hne
      rw [faithful_runDb, faithful_iff (insertClosure_guarded hne), NoneApplied]
      simp only [hne, or_false]
      exact or_comm

end

open Redis.Sample

/-- The first commit of a split goes in, its answer is lost, and the second run reports the split
as failed; likewise the insert of one record. -/
theorem applied_but_failed :
    ¬ Faithful (ReplaceWritten cfg ns plainOp) (dbOf cfg [record 'a' 3 none])
      (execReplaceOver cfg ns plainOp [(⟨0⟩, .unknownResult true)] ⟨0⟩ (dbOf cfg [record 'a' 3 none])) ∧
    ¬ Faithful (InsertWritten cfg [record 'a' 3 none]) .empty
      (insertTokensOver cfg [record 'a' 3 none] [(⟨0⟩, .unknownResult true)] ⟨0⟩ .empty) := by
  constructor
  · intro h
    have hanswer : (execReplaceOver cfg ns plainOp [(⟨0⟩, .unknownResult true)] ⟨0⟩
      (dbOf cfg [record 'a' 3 none])).1 = .error (fdbErr "input token already spent") := by decide +kernel
    have hspent : seals (execReplaceOver cfg ns plainOp [(⟨0⟩, .unknownResult true)] ⟨0⟩
      (dbOf cfg [record 'a' 3 none])).2.tokens
        (cfg.tokenKey ns (hash 'a')) = some true := by decide +kernel
    rw [h.1 (by simp [hanswer])] at hspent
    exact absurd hspent (by decide +kernel)
  · intro h
    have hanswer : (insertTokensOver cfg [record 'a' 3 none] [(⟨0⟩, .unknownResult true)] ⟨0⟩ .empty).1 =
        .error (fdbErr "token already exists") := by decide +kernel
    have hthere : seals (insertTokensOver cfg [record 'a' 3 none] [(⟨0⟩, .unknownResult true)]
      ⟨0⟩ .empty).2.tokens
        (cfg.tokenKey ns (hash 'a')) = some false := by decide +kernel
    rw [h.1 (by simp [hanswer])] at hthere
    exact absurd hthere (by decide +kernel)

end Webycash.Fdb
