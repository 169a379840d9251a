import Webycash.Lib.Seal
import Webycash.Storage.Dynamo
/-!
# What the DynamoDB transactions do

`execReplace_ok_iff` says which replaces are accepted and `execReplace_exchanged` that an
accepted one is an exchange of seals; a refused transaction leaves everything as it was.
`burn_cases` is what a burn does.
-/

namespace Webycash.Dynamo

open Stride

/-- Present and unspent is open; the condition `spent = :f` takes anything else for spent. -/
def seals (t : Tokens) : Seals String := fun k => (t.lookup k).map fun item =>
    decide (item.lookup "spent" ≠ some (.Bool false))

theorem seals_eq_none {t : Tokens} {k : String} : seals t k = none ↔ k ∉ t := by
  rw [seals, Option.map_eq_none_iff, Finmap.lookup_eq_none]

theorem seals_eq_open {t : Tokens} {k : String} :
    seals t k = some false ↔ (t.lookup k).bind (·.lookup "spent") = some (.Bool false) := by
  unfold seals
  cases t.lookup k <;> simp

/-! ## Transactions -/

/-- The service carries the transaction out. -/
def Admitted (actions : List Action) (db : Db) : Prop :=
  actions.length ≤ 100 ∧ (actions.map Action.target).Nodup ∧ ∀ a ∈ actions, a.condition db

instance decidableAdmitted (actions : List Action) (db : Db) : Decidable (Admitted actions db) :=
  inferInstanceAs (Decidable (_ ∧ _ ∧ ∀ a ∈ actions, a.condition db))

theorem transactWriteItems_eq (actions : List Action) (db : Db) : transactWriteItems actions db =
    if Admitted actions db then some (actions.foldl Action.apply db) else none := rfl

theorem spendItem_idem (now : String) (item : Item) : spendItem now (spendItem now item) = spendItem now item := by
  refine Finmap.ext_lookup fun name => ?_
  simp only [spendItem, FMap.lookup_insert_ite]
  split
  · rfl
  · split <;> rfl

theorem lookup_foldl_spend (now : String) : ∀ (ks : List String) (db : Db) (j : String),
    ((ks.map fun k => Action.spend k now).foldl Action.apply db).tokens.lookup j =
      if j ∈ ks then some (spendItem now ((db.tokens.lookup j).getD ∅)) else db.tokens.lookup j
  | [], db, j => by simp
  | k :: ks, db, j => by
    rw [List.map_cons, List.foldl_cons, lookup_foldl_spend now ks]
    by_cases hjk : j = k
    · subst hjk
      simp only [Action.apply, FMap.lookup_insert_ite, if_true, Option.getD_some, spendItem_idem, List.mem_cons,
        true_or, ite_self]
    · simp only [Action.apply, FMap.lookup_insert_ite, hjk, if_false, List.mem_cons, false_or]

theorem foldl_put (puts : List (String × Item)) : ∀ db : Db,
    (puts.map fun p => Action.put p.1 p.2).foldl Action.apply db =
      { db with tokens := FMap.putAll db.tokens puts } := by
  induction puts with
  | nil => intro db; rfl
  | cons p puts ih =>
    intro db
    rw [List.map_cons, List.foldl_cons, ih]
    rfl

/-! ## Replace -/

section

variable {ρ : Type} {cfg : StoreConfig ρ} {now : DateTime} {ns : Namespace} {op : ReplaceOp ρ} {db : Db}

/-- The puts of the outputs. -/
def outputPuts (cfg : StoreConfig ρ) (ns : Namespace) (op : ReplaceOp ρ) : List (String × Item) :=
  op.outputs.map fun r => (cfg.tokenKey ns (cfg.codec.publicHash r), itemFor cfg ns r)

theorem outputPuts_keys : (outputPuts cfg ns op).map Prod.fst = outputKeys cfg ns op := by
  rw [outputPuts, List.map_map]
  rfl

/-- The tokens after the actions of a replace. -/
theorem lookup_replaced (j : String) : ((replaceActions cfg now ns op).foldl Action.apply db).tokens.lookup j =
    (FMap.lastPut (outputPuts cfg ns op) j).or
      (if j ∈ inputKeys cfg ns op then some (spendItem (cfg.chrono.toRfc3339 now) ((db.tokens.lookup j).getD ∅))
        else db.tokens.lookup j) := by
  have hin : op.inputs.map (fun h => Action.spend (cfg.tokenKey ns h) (cfg.chrono.toRfc3339 now)) =
      (inputKeys cfg ns op).map fun k => .spend k (cfg.chrono.toRfc3339 now) := by
    rw [inputKeys, List.map_map]
    rfl
  have hout : op.outputs.map (fun r => Action.put (cfg.tokenKey ns (cfg.codec.publicHash r)) (itemFor cfg ns r)) =
      (outputPuts cfg ns op).map fun p => .put p.1 p.2 := by
    rw [outputPuts, List.map_map]
    rfl
  rw [replaceActions, List.foldl_append, List.foldl_append, hin, hout, foldl_put]
  simp only [List.foldl_cons, List.foldl_nil, Action.apply, FMap.lookup_putAll, lookup_foldl_spend]

theorem length_replaceActions :
    (replaceActions cfg now ns op).length = op.inputs.length + op.outputs.length + 1 := by
  simp [replaceActions, Nat.add_assoc]

theorem targets_replaceActions : (replaceActions cfg now ns op).map Action.target =
    (inputKeys cfg ns op).map (Prod.mk Table.tokens) ++ (outputKeys cfg ns op).map (Prod.mk Table.tokens) ++
      [(.audit, cfg.keys.replacementKey cfg.name ns op.record.id)] := by
  simp [replaceActions, inputKeys, outputKeys, Function.comp_def, Action.target]

theorem forall_replaceActions : (∀ a ∈ replaceActions cfg now ns op, a.condition db) ↔
    (seals db.tokens).Open (inputKeys cfg ns op) ∧ ∀ k ∈ outputKeys cfg ns op, seals db.tokens k = none := by
  simp only [replaceActions, List.mem_append, or_imp, forall_and, List.forall_mem_map, List.forall_mem_singleton,
    Action.condition, Seals.Open, seals_eq_open, seals_eq_none, inputKeys, outputKeys, and_true]

/-- **Which replaces go through.** At most 100 actions, distinct open inputs, distinct new outputs. -/
theorem execReplace_ok_iff : (execReplace cfg now ns op db).1 = .ok () ↔
    op.inputs.length + op.outputs.length + 1 ≤ 100 ∧
      (seals db.tokens).Accepts (inputKeys cfg ns op) (outputKeys cfg ns op) := by
  have htrx : (execReplace cfg now ns op db).1 = .ok () ↔ Admitted (replaceActions cfg now ns op) db := by
    unfold execReplace
    rw [transactWriteItems_eq]
    split_ifs with h <;> simp [h]
  rw [htrx, Admitted, length_replaceActions, targets_replaceActions, forall_replaceActions]
  have hinj : ∀ {ks : List String}, (ks.map (Prod.mk Table.tokens)).Nodup ↔ ks.Nodup :=
    List.nodup_map_iff fun _ _ h => (Prod.mk.inj h).2
  constructor
  · rintro ⟨hlen, hnd, hopen, hnew⟩
    obtain ⟨hnd, -, -⟩ := List.nodup_append.1 hnd
    obtain ⟨hin, hout, -⟩ := List.nodup_append.1 hnd
    exact ⟨hlen, hinj.1 hin, hopen, hinj.1 hout, hnew⟩
  · rintro ⟨hlen, hin, hopen, hfresh⟩
    refine ⟨hlen, List.nodup_append.2 ⟨List.nodup_append.2 ⟨hinj.2 hin, hinj.2 hfresh.1, ?_⟩,
      by simp, ?_⟩, hopen,
      hfresh.2⟩
    · simp only [List.mem_map]
      rintro _ ⟨k, hk, rfl⟩ _ ⟨k', hk', rfl⟩ he
      exact hopen.notMem hfresh hk ((Prod.mk.inj he).2 ▸ hk')
    · simp only [List.mem_append, List.mem_map, List.mem_singleton]
      rintro _ (⟨k, -, rfl⟩ | ⟨k, -, rfl⟩) _ rfl he <;> cases he

/-- A refused replace leaves the tables alone. -/
theorem execReplace_of_not_ok (h : (execReplace cfg now ns op db).1 ≠ .ok ()) :
    (execReplace cfg now ns op db).2 = db := by
  unfold execReplace at h ⊢
  split
  · rename_i hs; simp [hs] at h
  · rfl

theorem execReplace_tokens (h : (execReplace cfg now ns op db).1 = .ok ()) :
    (execReplace cfg now ns op db).2.tokens = ((replaceActions cfg now ns op).foldl Action.apply db).tokens := by
  unfold execReplace at h ⊢
  rw [transactWriteItems_eq] at h ⊢
  split_ifs at h ⊢
  · rfl

theorem lookup_spent_spendItem {item : Item} {text : String} :
    (spendItem text item).lookup "spent" = some (.Bool true) := by
  simp [spendItem]

/-- **An accepted replace is an exchange of seals.** -/
theorem execReplace_exchanged (h : (execReplace cfg now ns op db).1 = .ok ()) :
    Seals.Exchanged (seals db.tokens) (seals (execReplace cfg now ns op db).2.tokens) (inputKeys cfg ns op)
      (outputKeys cfg ns op) := by
  obtain ⟨-, -, hopen, hfresh⟩ := execReplace_ok_iff.1 h
  have hlook : ∀ k, k ∉ outputKeys cfg ns op → (execReplace cfg now ns op db).2.tokens.lookup k =
      if k ∈ inputKeys cfg ns op then some (spendItem (cfg.chrono.toRfc3339 now) ((db.tokens.lookup k).getD ∅))
      else db.tokens.lookup k := fun k hk => by
    rw [execReplace_tokens h, lookup_replaced, FMap.lastPut_eq_none_iff.2 (by rwa [outputPuts_keys]), Option.none_or]
  refine ⟨fun k hk => ?_, fun k hk => ?_, fun k hin hout => ?_⟩
  · rw [seals, hlook k (hopen.notMem hfresh hk), if_pos hk, Option.map_some, lookup_spent_spendItem]
    rfl
  · obtain ⟨item, hitem⟩ : ∃ item, FMap.lastPut (outputPuts cfg ns op) k = some item :=
      Option.ne_none_iff_exists'.1 fun hn => FMap.lastPut_eq_none_iff.1 hn (by rwa [outputPuts_keys])
    rw [seals, execReplace_tokens h, lookup_replaced, hitem]
    simp
  · rw [seals, seals, hlook k hout, if_neg hin]

theorem batchReplace_single : batchReplace cfg now ns [op] db =
    ([ReplaceResult.ofExcept (execReplace cfg now ns op db).1], (execReplace cfg now ns op db).2) := rfl

/-- A batch of one burn is that burn. -/
theorem batchBurn_single (hash : String) (record : BurnRecord) :
    batchBurn cfg now ns [(hash, record)] db = execBurn cfg now ns hash record db := by
  unfold batchBurn
  split
  · rename_i h
    exact h.symm
  · rename_i h
    exact h.symm

theorem batchReplace_single_ok_iff : (batchReplace cfg now ns [op] db).1 = [.ok] ↔
    op.inputs.length + op.outputs.length + 1 ≤ 100 ∧
      (seals db.tokens).Accepts (inputKeys cfg ns op) (outputKeys cfg ns op) := by
  rw [batchReplace_single, ReplaceResult.ofExcept_eq_ok, execReplace_ok_iff]

theorem batchReplace_exchanged (h : (batchReplace cfg now ns [op] db).1 = [.ok]) :
    Seals.Exchanged (seals db.tokens) (seals (batchReplace cfg now ns [op] db).2.tokens) (inputKeys cfg ns op)
      (outputKeys cfg ns op) :=
  execReplace_exchanged (ReplaceResult.ofExcept_eq_ok.1 h)

end

/-! ## Burns -/

section

variable {ρ : Type} (cfg : StoreConfig ρ) (now : DateTime) (ns : Namespace)

/-- **Everything a burn can do.** -/
theorem burn_cases (hash : String) (record : BurnRecord) (db : Db) :
    (seals db.tokens (cfg.tokenKey ns hash) ≠ some false ∧ ∃ e, execBurn cfg now ns hash record db =
      (.error e, db)) ∨
    (seals db.tokens (cfg.tokenKey ns hash) = some false ∧ execBurn cfg now ns hash record db = (.ok (), { db with
      tokens := db.tokens.insert (cfg.tokenKey ns hash)
        (spendItem (cfg.chrono.toRfc3339 now) ((db.tokens.lookup (cfg.tokenKey ns hash)).getD ∅))
      audit := db.audit.insert (cfg.keys.burnKey cfg.name ns record.id) (.burn record) })) := by
  have hadm : Admitted [.spend (cfg.tokenKey ns hash) (cfg.chrono.toRfc3339 now),
      .putAudit (cfg.keys.burnKey cfg.name ns record.id) (.burn record)] db ↔
        seals db.tokens (cfg.tokenKey ns hash) = some false := by
    rw [seals_eq_open]
    simp [Admitted, Action.target, Action.condition]
  rw [execBurn, transactWriteItems_eq]
  by_cases hopen : seals db.tokens (cfg.tokenKey ns hash) = some false
  · rw [if_pos (hadm.2 hopen)]
    exact Or.inr ⟨hopen, rfl⟩
  · rw [if_neg fun h => hopen (hadm.1 h)]
    exact Or.inl ⟨hopen, _, rfl⟩

end

end Webycash.Dynamo
