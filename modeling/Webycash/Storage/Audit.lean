import Webycash.Lib.Trail
import Webycash.Storage.Frame
import Webycash.Storage.Marks
import Webycash.Storage.Spend
/-!
# The audit trail of a store

Every accepted replace and every burn leaves a row beside the records: the entry "so an operator
can reconstruct the chain of state moves" (storage/src/lib.rs:39). `replace_entered` and
`burn_entered` say that the row and the move are one step on every backend, the `_refused` lemmas
that a refused op leaves no row. Only on Redis can a refused replace have spent its inputs.
-/

namespace Webycash

section

variable {ρ : Type} (cfg : StoreConfig ρ)

namespace AuditRow

/-- The id of the operation. -/
def id : AuditRow → String
  | replacement r => r.id
  | burn r => r.id

/-- The key the row is written under by a call in namespace `ns`. -/
def key (ns : Namespace) : AuditRow → String
  | replacement r => cfg.keys.replacementKey cfg.name ns r.id
  | burn r => cfg.keys.burnKey cfg.name ns r.id

/-- The hashes the row says were spent. -/
def inputs : AuditRow → List String
  | replacement r => r.inputHashes
  | burn r => [r.publicHash]

/-- The hashes it says were inserted. -/
def outputs : AuditRow → List String
  | replacement r => r.outputHashes
  | burn _ => []

/-- The row under `at` names the token key `k` as spent. -/
def Uses (at' : String) (row : AuditRow) (k : String) : Prop :=
  ∃ ns, at' = row.key cfg ns ∧ k ∈ row.inputs.map (cfg.tokenKey ns)

/-- It names it as inserted. -/
def Makes (at' : String) (row : AuditRow) (k : String) : Prop :=
  ∃ ns, at' = row.key cfg ns ∧ k ∈ row.outputs.map (cfg.tokenKey ns)

variable {cfg} {row row' : AuditRow} {ns ns' : Namespace} {k : String}

/-- The key of a row spells the scope of its tokens. -/
theorem tokenKey_eq_of_key (h : row.key cfg ns = row.key cfg ns') : cfg.tokenKey ns = cfg.tokenKey ns' := by
  have hscope : cfg.keys.scopePrefix cfg.name ns = cfg.keys.scopePrefix cfg.name ns' := by
    refine String.ext ?_
    cases row with
    | replacement r =>
      have hlist := congrArg String.toList h
      simp only [key, KeyStrategy.replacementKey, String.toList_append, List.append_assoc] at hlist
      exact List.append_cancel_right hlist
    | burn r =>
      have hlist := congrArg String.toList h
      simp only [key, KeyStrategy.burnKey, String.toList_append, List.append_assoc] at hlist
      exact List.append_cancel_right hlist
  funext hash
  rw [StoreConfig.tokenKey, StoreConfig.tokenKey, KeyStrategy.tokenKey, KeyStrategy.tokenKey, KeyStrategy.tokenPrefix,
    KeyStrategy.tokenPrefix, hscope]

theorem uses_iff : row.Uses cfg (row.key cfg ns) k ↔ k ∈ row.inputs.map (cfg.tokenKey ns) := by
  constructor
  · rintro ⟨_, hkey, hk⟩
    exact tokenKey_eq_of_key hkey ▸ hk
  · intro hk
    exact ⟨ns, rfl, hk⟩

theorem makes_iff : row.Makes cfg (row.key cfg ns) k ↔ k ∈ row.outputs.map (cfg.tokenKey ns) := by
  constructor
  · rintro ⟨_, hkey, hk⟩
    exact tokenKey_eq_of_key hkey ▸ hk
  · intro hk
    exact ⟨ns, rfl, hk⟩

/-- The id is what follows the last separator of the key. -/
theorem key_eq (ns : Namespace) (row : AuditRow) : ∃ scope : List Char, (row.key cfg ns).toList = scope ++
    ':' :: row.id.toList := by
  have hlabels : "audit:replace:".toList = "audit:replace".toList ++ [':'] ∧ "audit:burn:".toList =
      "audit:burn".toList ++ [':'] :=
    ⟨rfl, rfl⟩
  cases row with
  | replacement r =>
    refine ⟨(cfg.keys.scopePrefix cfg.name ns).toList ++ "audit:replace".toList, ?_⟩
    simp only [key, id, KeyStrategy.replacementKey, String.toList_append, hlabels.1, List.append_assoc,
      List.cons_append,
      List.nil_append]
  | burn r =>
    refine ⟨(cfg.keys.scopePrefix cfg.name ns).toList ++ "audit:burn".toList, ?_⟩
    simp only [key, id, KeyStrategy.burnKey, String.toList_append, hlabels.2, List.append_assoc, List.cons_append,
      List.nil_append]

/-- **Rows of different operations have different keys.** -/
theorem id_eq_of_key (hid : ':' ∉ row.id.toList) (hid' : ':' ∉ row'.id.toList)
    (h : row.key cfg ns = row'.key cfg ns') :
    row.id = row'.id := by
  obtain ⟨scope, hkey⟩ : ∃ scope, (row.key cfg ns).toList = scope ++ ':' :: row.id.toList := key_eq ns row
  obtain ⟨scope', hkey'⟩ : ∃ scope, (row'.key cfg ns').toList = scope ++ ':' :: row'.id.toList := key_eq ns' row'
  rw [h, hkey'] at hkey
  have hrev := congrArg List.reverse hkey
  simp only [List.reverse_append, List.reverse_cons, List.append_assoc, List.cons_append, List.nil_append] at hrev
  have hids := (KeyStrategy.append_sep_inj (by simpa using hid') (by simpa using hid) hrev).1
  exact String.ext (List.reverse_inj.1 hids).symm

end AuditRow

/-! ## Redis -/

variable {cfg} {now : DateTime} {ns : Namespace} {op : ReplaceOp ρ} {rs : List ρ} {k : String}

namespace Redis

variable {db : Db}

theorem replace_ok_iff_reply : (batchReplace cfg now ns [op] db).1 = [.ok] ↔
    (replaceLua (replaceCall cfg now ns op) db).1 = .ok := by
  rw [batchReplace_single_ok_iff, replaceLua_ok_iff, inputsReady_iff, insertable_iff]

/-- One op, one result. -/
theorem replace_one : ∃ result, (batchReplace cfg now ns [op] db).1 = [result] := by
  by_cases hR : PipelineRaises cfg now ns [op] db
  · exact ⟨_, batchReplace_of_raises hR⟩
  · exact ⟨_, batchReplace_of_not_raises hR⟩

/-- The row is written by the scripts that answer `ok`. -/
theorem replace_audit : (batchReplace cfg now ns [op] db).2.audit = if (batchReplace cfg now ns [op] db).1 = [.ok] then
    db.audit.insert (cfg.keys.replacementKey cfg.name ns op.record.id) (.replacement op.record) else db.audit := by
  simp only [replace_ok_iff_reply, batchReplace_single_db]
  rcases replaceLua_cases cfg now ns op db with ⟨-, e, he⟩ | ⟨-, m, reply, -, -, -, -, -, he⟩
  · simp [he]
  · rw [he]

/-- What is marked as spent is closed. -/
theorem closed_of_marksOnly {json : HtlcJson} {t t' : Tokens} {ks : List String}
    (h : MarksOnly (marks json t) (marks json t') ks)
    (hk : seals t' k = some true) : seals t k = some true ∨ k ∈ ks := by
  have hseals : ∀ t, seals t k = (marks json t k).map Prod.fst := by
    intro t
    rw [seals, marks, Option.map_map]
    congr 1
    funext f
    exact Bool.eq_iff_iff.2 (by simp [marksOfFields, readSpent_eq_true])
  rw [hseals] at hk ⊢
  obtain ⟨⟨spent, lock⟩, hmark, rfl⟩ := Option.map_eq_some_iff.1 hk
  rcases h k lock hmark with hold | ⟨hin, -⟩
  · exact Or.inl (by rw [hold]; rfl)
  · exact Or.inr hin

/-- A script marks inputs of its op only. -/
theorem replace_closed (hun : ∀ o ∈ op.outputs, cfg.codec.spent o = false)
    (h : seals (batchReplace cfg now ns [op] db).2.tokens k = some true) : seals db.tokens k = some true ∨
    k ∈ inputKeys cfg ns op := by
  have hmarks : MarksOnly (marks (.ofState ⟨"", 0, "", ""⟩) db.tokens)
    (marks _ (batchReplace cfg now ns [op] db).2.tokens)
      (inputKeys cfg ns op) := marksOnly_replace hun
  exact closed_of_marksOnly hmarks h

theorem insert_closed (hun : ∀ r ∈ rs, cfg.codec.spent r = false)
    (h : seals (insertTokens cfg rs db).2.tokens k = some true) :
    seals db.tokens k = some true := by
  have hmarks : MarksOnly (marks (.ofState ⟨"", 0, "", ""⟩) db.tokens)
      (marks _ (insertTokens cfg rs db).2.tokens) [] :=
    marksOnly_insert hun
  exact (closed_of_marksOnly hmarks h).resolve_right List.not_mem_nil

theorem insert_audit : (insertTokens cfg rs db).2.audit = db.audit := by
  unfold insertTokens
  split <;> rfl

/-- A refused burn leaves everything as it was. -/
theorem burn_refused {hash : String} {record : BurnRecord}
    (hno : (batchBurn cfg now ns [(hash, record)] db).1 ≠ .ok ()) :
    (batchBurn cfg now ns [(hash, record)] db).2 = db := by
  rw [batchBurn_eq_closeEach, Closer.closeEach_singleton] at hno ⊢
  rcases (closer cfg now ns).spec (hash, record) db with ⟨-, e, he⟩ | ⟨-, hok, -⟩
  · rw [he]
  · exact absurd hok hno

/-- The row of a burn comes with it. -/
theorem burn_audit {hash : String} {record : BurnRecord} (hok : (batchBurn cfg now ns [(hash, record)] db).1 = .ok ()) :
    (batchBurn cfg now ns [(hash, record)] db).2.audit =
      db.audit.insert (cfg.keys.burnKey cfg.name ns record.id) (.burn record) := by
  rcases burnLua_cases (cfg.tokenKey ns hash) (cfg.keys.burnKey cfg.name ns record.id) (cfg.chrono.toRfc3339 now)
    (.burn record) db
    with ⟨-, e, he⟩ | ⟨-, he⟩
  · simp [batchBurn, runBurn, he, burnAnswer] at hok
  · simp [batchBurn, runBurn, he]

end Redis

/-! ## DynamoDB -/

namespace Dynamo

variable {db : Db} {env : Env}

theorem spends_audit (actions : List Action) (h : ∀ a ∈ actions, a.target.1 = .tokens) : ∀ db : Db,
    (actions.foldl Action.apply db).audit = db.audit := by
  induction actions with
  | nil => intro db; rfl
  | cons a actions ih =>
    intro db
    rw [List.foldl_cons, ih fun a ha => h a (List.mem_cons_of_mem _ ha)]
    have ha := h a List.mem_cons_self
    cases a with
    | spend pk now => rfl
    | put pk item => rfl
    | putAudit pk row => cases ha

/-- The row is written by the transaction. -/
theorem replace_audit (hok : (execReplace cfg now ns op db).1 = .ok ()) : (execReplace cfg now ns op db).2.audit =
    db.audit.insert (cfg.keys.replacementKey cfg.name ns op.record.id) (.replacement op.record) := by
  have hdb : (execReplace cfg now ns op db).2 = (replaceActions cfg now ns op).foldl Action.apply db := by
    unfold execReplace at hok ⊢
    rw [transactWriteItems_eq] at hok ⊢
    split_ifs at hok ⊢
    rfl
  rw [hdb, replaceActions, List.foldl_append, List.foldl_cons, List.foldl_nil, Action.apply]
  refine congrArg (fun audit : FMap String AuditRow => audit.insert _ _) (spends_audit _ ?_ db)
  intro a ha
  rcases List.mem_append.1 ha with ha | ha
  · obtain ⟨h, -, rfl⟩ := List.mem_map.1 ha
    rfl
  · obtain ⟨r, -, rfl⟩ := List.mem_map.1 ha
    rfl

/-- What a batch puts is unspent. -/
theorem insert_closed (hun : ∀ r ∈ rs, cfg.codec.spent r = false)
    (h : seals (insertTokens cfg env rs db).2.tokens k = some true) :
    seals db.tokens k = some true := by
  rw [insertTokens_eq, seals, FMap.lookup_putAll] at h
  cases hp : FMap.lastPut (acked cfg env rs) k with
  | none =>
    rw [hp, Option.none_or] at h
    exact h
  | some item =>
    obtain ⟨r, hr, he⟩ := acked_mem (FMap.lastPut_mem hp)
    obtain rfl : item = itemFor cfg (cfg.codec.namespaceOf r) r := congrArg Prod.snd he
    simp [hp, lookup_spent_itemFor, hun r hr] at h

theorem insert_audit : (insertTokens cfg env rs db).2.audit = db.audit := by
  rw [insertTokens_eq]

theorem burn_audit {hash : String} {record : BurnRecord} (hok : (batchBurn cfg now ns [(hash, record)] db).1 = .ok ()) :
    (batchBurn cfg now ns [(hash, record)] db).2.audit =
      db.audit.insert (cfg.keys.burnKey cfg.name ns record.id) (.burn record) := by
  rw [batchBurn_single] at hok ⊢
  rcases burn_cases cfg now ns hash record db with ⟨-, e, he⟩ | ⟨-, he⟩
  · simp [he] at hok
  · rw [he]

theorem burn_refused {hash : String} {record : BurnRecord}
    (hno : (batchBurn cfg now ns [(hash, record)] db).1 ≠ .ok ()) :
    (batchBurn cfg now ns [(hash, record)] db).2 = db := by
  rw [batchBurn_single] at hno ⊢
  rcases burn_cases cfg now ns hash record db with ⟨-, e, he⟩ | ⟨-, he⟩
  · rw [he]
  · simp [he] at hno

end Dynamo

/-! ## FoundationDB -/

namespace Fdb

variable {db : Db}

/-- The row under an audit key, of either subspace. -/
def auditRow (db : Db) (key : String) : Option AuditRow := (db.replaceAudit.lookup key).or (db.burnAudit.lookup key)

theorem replace_audit (hok : (execReplace cfg now ns op db).1 = .ok ()) (key : String) :
    auditRow (execReplace cfg now ns op db).2 key =
      if key = cfg.keys.replacementKey cfg.name ns op.record.id then some (.replacement op.record)
          else auditRow db key := by
  unfold execReplace at hok ⊢
  split
  · rename_i e he
    simp [he] at hok
  · simp only [auditRow, FMap.lookup_insert_ite]
    split
    · rfl
    · rfl

theorem insert_closed (hun : ∀ r ∈ rs, cfg.codec.spent r = false)
    (h : seals (insertTokens cfg rs db).2.tokens k = some true) :
    seals db.tokens k = some true := by
  rw [insertTokens_tokens] at h
  split at h
  · rw [seals, FMap.lookup_putAll] at h
    cases hp : FMap.lastPut (rs.map (entryOf cfg)) k with
    | none =>
      rw [hp, Option.none_or] at h
      exact h
    | some doc =>
      obtain ⟨r, hr, he⟩ := List.mem_map.1 (FMap.lastPut_mem hp)
      obtain rfl : cfg.codec.toJson r = doc := congrArg Prod.snd he
      simp [hp, alreadySpent_toJson, hun r hr] at h
  · exact h

theorem insert_audit (key : String) : auditRow (insertTokens cfg rs db).2 key = auditRow db key := by
  unfold insertTokens
  split <;> rfl

/-- The other subspace has no row under a new key. -/
theorem burn_audit {hash : String} {record : BurnRecord}
    (hnew : auditRow db (cfg.keys.burnKey cfg.name ns record.id) = none)
    (hok : (batchBurn cfg now ns [(hash, record)] db).1 = .ok ()) (key : String) :
    auditRow (batchBurn cfg now ns [(hash, record)] db).2 key =
      if key = cfg.keys.burnKey cfg.name ns record.id then some (.burn record) else auditRow db key := by
  rw [batchBurn_single] at hok ⊢
  rcases burn_cases cfg now ns hash record db with ⟨-, e, he⟩ | ⟨-, doc, -, he⟩
  · simp [he] at hok
  · rw [he]
    simp only [auditRow, FMap.lookup_insert_ite]
    split
    · rename_i hkey
      have hfree : db.replaceAudit.lookup (cfg.keys.burnKey cfg.name ns record.id) = none :=
        (Option.or_eq_none_iff.1 hnew).1
      rw [hkey, hfree, Option.none_or]
    · rfl

theorem burn_refused {hash : String} {record : BurnRecord}
    (hno : (batchBurn cfg now ns [(hash, record)] db).1 ≠ .ok ()) :
    (batchBurn cfg now ns [(hash, record)] db).2 = db := by
  rw [batchBurn_single] at hno ⊢
  rcases burn_cases cfg now ns hash record db with ⟨-, e, he⟩ | ⟨-, doc, -, he⟩
  · rw [he]
  · simp [he] at hno

end Fdb

/-! ## One interface -/

namespace Backend

variable {b : Backend} {service : Dynamo.Env} {db : b.Db}

/-- The row under an audit key. -/
def audited : (b : Backend) → b.Db → String → Option AuditRow
  | redis, db, key => db.audit.lookup key
  | dynamo, db, key => db.audit.lookup key
  | fdb, db, key => Fdb.auditRow db key

theorem audited_empty (key : String) : b.audited b.empty key = none := by
  cases b <;> rfl

theorem insert_audited (key : String) : b.audited ((b.store cfg now service).insertTokens rs db).2 key =
    b.audited db key := by
  cases b with
  | redis => exact congrArg (Finmap.lookup key) Redis.insert_audit
  | dynamo => exact congrArg (Finmap.lookup key) Dynamo.insert_audit
  | fdb => exact Fdb.insert_audit key

/-- One op, one result. -/
theorem replace_one : ∃ result, ((b.store cfg now service).batchReplace ns [op] db).1 = [result] := by
  cases b with
  | redis => exact Redis.replace_one
  | dynamo => exact ⟨_, rfl⟩
  | fdb => exact ⟨_, rfl⟩

/-- A replace closes inputs of its op only, also one that is refused. -/
theorem replace_closed (hun : ∀ o ∈ op.outputs, cfg.codec.spent o = false)
    (h : b.seals ((b.store cfg now service).batchReplace ns [op] db).2 k = some true) :
    b.seals db k = some true ∨ k ∈ inputKeys cfg ns op := by
  cases b with
  | redis => exact Redis.replace_closed hun h
  | dynamo => exact (((Dynamo.replace_spends hun).closed k).1 h).imp id And.right
  | fdb => exact (((Fdb.replace_spends hun).closed k).1 h).imp id And.right

/-- **An accepted replace and its row are one step.** -/
theorem replace_entered (hns : ∀ o ∈ op.outputs, cfg.codec.namespaceOf o = ns)
    (hun : ∀ o ∈ op.outputs, cfg.codec.spent o = false)
    (hok : ((b.store cfg now service).batchReplace ns [op] db).1 = [.ok]) :
    Seals.Entered (b.seals db) (b.seals ((b.store cfg now service).batchReplace ns [op] db).2) (b.audited db)
      (b.audited ((b.store cfg now service).batchReplace ns [op] db).2) ((AuditRow.replacement op.record).key cfg ns)
      (.replacement op.record) (inputKeys cfg ns op) (outputKeys cfg ns op) := by
  cases b with
  | redis =>
    obtain ⟨hopen, hfresh, -⟩ := Redis.batchReplace_single_ok_iff.1 hok
    refine ⟨hopen, hfresh, Redis.batchReplace_exchanged hok, fun k hk => replace_closed hun hk, fun j => ?_⟩
    exact (congrArg (Finmap.lookup j) (Redis.replace_audit.trans (if_pos hok))).trans (FMap.lookup_insert_ite _ _ _ _)
  | dynamo =>
    obtain ⟨-, -, hopen, hfresh⟩ := Dynamo.batchReplace_single_ok_iff.1 hok
    have hexec := ReplaceResult.ofExcept_eq_ok.1 hok
    refine ⟨hopen, hfresh, Dynamo.batchReplace_exchanged hok, fun k hk => replace_closed hun hk, fun j => ?_⟩
    exact (congrArg (Finmap.lookup j) (Dynamo.replace_audit hexec)).trans (FMap.lookup_insert_ite _ _ _ _)
  | fdb =>
    obtain ⟨-, hopen, hfresh⟩ := Fdb.batchReplace_single_ok_iff.1 hok
    have hexec := ReplaceResult.ofExcept_eq_ok.1 hok
    have hkeys := ownKeys_eq_outputKeys hns
    exact ⟨hopen, hkeys ▸ hfresh, hkeys ▸ Fdb.batchReplace_exchanged hok, fun k hk => replace_closed hun hk,
      Fdb.replace_audit hexec⟩

/-- A refused replace leaves no row; on DynamoDB and FoundationDB it leaves nothing. -/
theorem replace_refused (hno : ((b.store cfg now service).batchReplace ns [op] db).1 ≠ [.ok]) :
    (∀ key, b.audited ((b.store cfg now service).batchReplace ns [op] db).2 key = b.audited db key) ∧
      (b ≠ .redis → ((b.store cfg now service).batchReplace ns [op] db).2 = db) := by
  cases b with
  | redis =>
    exact ⟨fun key => congrArg (Finmap.lookup key) (Redis.replace_audit.trans (if_neg hno)), fun h => absurd rfl h⟩
  | dynamo =>
    have hsame := Dynamo.execReplace_of_not_ok fun hok => hno (ReplaceResult.ofExcept_eq_ok.2 hok)
    exact ⟨fun key => congrArg (audited dynamo · key) hsame, fun _ => hsame⟩
  | fdb =>
    have hsame := Fdb.execReplace_of_not_ok fun hok => hno (ReplaceResult.ofExcept_eq_ok.2 hok)
    exact ⟨fun key => congrArg (audited fdb · key) hsame, fun _ => hsame⟩

/-- One burn, as the closing of one seal. -/
theorem burn_close (hash : String) (record : BurnRecord) :
    Seals.Spends (b.seals db) (b.seals ((b.store cfg now service).batchBurn ns [(hash, record)] db).2)
      [cfg.tokenKey ns hash]
      (decide (((b.store cfg now service).batchBurn ns [(hash, record)] db).1 = .ok ())) := by
  cases b with
  | redis => exact Redis.burn_spends
  | dynamo => exact Dynamo.burn_spends
  | fdb => exact Fdb.burn_spends

/-- **A burn and its row are one step.** -/
theorem burn_entered {hash : String} {record : BurnRecord}
    (hnew : b.audited db (cfg.keys.burnKey cfg.name ns record.id) = none)
    (hok : ((b.store cfg now service).batchBurn ns [(hash, record)] db).1 = .ok ()) :
    Seals.Entered (b.seals db) (b.seals ((b.store cfg now service).batchBurn ns [(hash, record)] db).2) (b.audited db)
      (b.audited ((b.store cfg now service).batchBurn ns [(hash, record)] db).2)
        ((AuditRow.burn record).key cfg ns) (.burn record)
      [cfg.tokenKey ns hash] [] := by
  have hspends : Seals.Spends (b.seals db) (b.seals ((b.store cfg now service).batchBurn ns [(hash, record)] db).2)
      [cfg.tokenKey ns hash] _ := burn_close hash record
  rw [decide_eq_true hok] at hspends
  have hframe : ∀ k, k ∉ [cfg.tokenKey ns hash] →
      b.AgreeAt db ((b.store cfg now service).batchBurn ns [(hash, record)] db).2 k := by
    intro k hk
    by_contra hne
    exact hk (List.mem_singleton.2 (burn_changed hne).1)
  refine ⟨hspends.opened rfl, by simp [Seals.Fresh],
    ⟨fun k hk => (hspends.closed k).2 (Or.inr ⟨rfl, hk⟩), by simp,
    fun k hk _ => (hframe k hk).seals⟩, fun k hk => ((hspends.closed k).1 hk).imp id And.right, fun j => ?_⟩
  cases b with
  | redis => exact (congrArg (Finmap.lookup j) (Redis.burn_audit hok)).trans (FMap.lookup_insert_ite _ _ _ _)
  | dynamo => exact (congrArg (Finmap.lookup j) (Dynamo.burn_audit hok)).trans (FMap.lookup_insert_ite _ _ _ _)
  | fdb => exact Fdb.burn_audit hnew hok j

theorem burn_refused {hash : String} {record : BurnRecord}
    (hno : ((b.store cfg now service).batchBurn ns [(hash, record)] db).1 ≠ .ok ()) :
    ((b.store cfg now service).batchBurn ns [(hash, record)] db).2 = db := by
  cases b with
  | redis => exact Redis.burn_refused hno
  | dynamo => exact Dynamo.burn_refused hno
  | fdb => exact Fdb.burn_refused hno

/-- An insertion closes nothing. -/
theorem insert_closed (hun : ∀ r ∈ rs, cfg.codec.spent r = false)
    (h : b.seals ((b.store cfg now service).insertTokens rs db).2 k = some true) : b.seals db k = some true := by
  cases b with
  | redis => exact Redis.insert_closed hun h
  | dynamo => exact Dynamo.insert_closed hun h
  | fdb => exact Fdb.insert_closed hun h

/-- **An insertion of new records** makes seals without a row. FoundationDB inserts no others. -/
theorem insert_opened (hun : ∀ r ∈ rs, cfg.codec.spent r = false)
    (hnew : b ≠ .fdb → ∀ r ∈ rs, b.seals db (cfg.recordKey r) = none) :
    Seals.Opened (b.seals db) (b.seals ((b.store cfg now service).insertTokens rs db).2) (b.audited db)
      (b.audited ((b.store cfg now service).insertTokens rs db).2) := by
  refine ⟨fun k hk => ?_, fun k hk => insert_closed hun hk, insert_audited⟩
  by_contra hne
  have hchanged : ¬ b.AgreeAt db ((b.store cfg now service).insertTokens rs db).2 k := fun hagree => hne hagree.seals
  have hbatch := insert_changed hchanged
  obtain ⟨r, hr, rfl⟩ := List.mem_map.1 hbatch
  cases b with
  | redis => exact hk (hnew (by decide) r hr)
  | dynamo => exact hk (hnew (by decide) r hr)
  | fdb =>
    by_cases hok : (Fdb.insertTokens cfg rs db).1 = .ok ()
    · exact hk ((Fdb.insertTokens_ok_iff.1 hok).2 _ hbatch)
    · exact hchanged (congrArg (Finmap.lookup _) (Fdb.insertTokens_tokens.trans (if_neg hok)))

end Backend

end

end Webycash
