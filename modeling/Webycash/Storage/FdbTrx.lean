import Webycash.Lib.Seal
import Webycash.Storage.Fdb
/-!
# What the FoundationDB transactions do

The two loops have one spec lemma each (`spendInputs_ok_iff`, `insertDocs_ok_iff`): they say
when the loop reaches its end and which map it leaves. A replace that commits is an exchange of
seals, between the keys of its inputs and the own keys of its outputs. `burn_cases` is what a
burn does, and no transaction touches the mining state.
-/

namespace Webycash.Fdb

/-- Present and not marked is open. -/
def seals (t : Tokens) : Seals String := fun k => (t.lookup k).map alreadySpent

theorem seals_eq_none {t : Tokens} {k : String} : seals t k = none ↔ k ∉ t := by
  rw [seals, Option.map_eq_none_iff, Finmap.lookup_eq_none]

theorem alreadySpent_spendDoc (text : String) (doc : Doc) : alreadySpent (spendDoc text doc) = true := by
  simp [alreadySpent, spendDoc, Finmap.lookup_insert_of_ne, Json.asBool]

theorem seals_insert (t : Tokens) (k : String) (doc : Doc) (j : String) :
    seals (t.insert k doc) j = if j = k then some (alreadySpent doc) else seals t j := by
  unfold seals
  rw [FMap.lookup_insert_ite]
  split <;> rfl

/-! ## The loops -/

/-- The tokens after the input loop has marked `ks`. -/
def spendAll (text : String) (t : Tokens) (ks : List String) : Tokens :=
  ks.foldl (fun t k => t.insert k (spendDoc text ((t.lookup k).getD ∅))) t

theorem lookup_spendAll (text : String) : ∀ (ks : List String) (t : Tokens) (j : String), ks.Nodup →
    (spendAll text t ks).lookup j = if j ∈ ks then some (spendDoc text ((t.lookup j).getD ∅)) else t.lookup j
  | [], t, j, _ => by simp [spendAll]
  | k :: ks, t, j, hnd => by
    obtain ⟨hk, hnd⟩ := List.nodup_cons.1 hnd
    show (spendAll text (t.insert k _) ks).lookup j = _
    rw [lookup_spendAll text ks _ j hnd, FMap.lookup_insert_ite]
    by_cases hjk : j = k
    · subst hjk
      simp [hk]
    · simp [hjk]

/-- **Input loop.** It ends without error exactly for distinct open keys: a second visit finds
the mark of the first. -/
theorem spendInputs_ok_iff (text : String) : ∀ {ks : List String} {t t' : Tokens},
    spendInputs text ks t = .ok t' ↔ ks.Nodup ∧ (seals t).Open ks ∧ t' = spendAll text t ks
  | [], t, t' => by simp [spendInputs, Seals.Open, spendAll, eq_comm]
  | k :: ks, t, t' => by
    unfold spendInputs
    split
    · rename_i hk
      simp [Seals.Open, seals, hk]
    · rename_i doc hk
      split
      · rename_i hs
        simp [Seals.Open, seals, hk, hs]
      · rename_i hs
        have hopen : (seals (t.insert k (spendDoc text doc))).Open ks ↔ k ∉ ks ∧ (seals t).Open ks := by
          simp only [Seals.Open, seals_insert, alreadySpent_spendDoc]
          constructor
          · intro h
            have hnot : k ∉ ks := fun hm => by simpa using h k hm
            exact ⟨hnot, fun j hj => by simpa [show j ≠ k from fun e => hnot (e ▸ hj)] using h j hj⟩
          · rintro ⟨hnot, h⟩ j hj
            rw [if_neg (fun e : j = k => hnot (e ▸ hj)), h j hj]
        rw [spendInputs_ok_iff text, hopen, List.nodup_cons]
        simp only [Seals.Open, List.mem_cons, forall_eq_or_imp, seals, hk, Option.map_some,
          Bool.eq_false_of_not_eq_true hs,
          true_and, spendAll, List.foldl_cons, Option.getD_some]
        tauto

/-- **Output loop.** It ends without error exactly for distinct new keys. -/
theorem insertDocs_ok_iff (msg : String) : ∀ {entries : List (String × Doc)} {t t' : Tokens},
    insertDocs msg entries t = .ok t' ↔ (seals t).Fresh (entries.map Prod.fst) ∧ t' = FMap.putAll t entries
  | [], t, t' => by simp [insertDocs, Seals.Fresh, eq_comm]
  | (k, doc) :: entries, t, t' => by
    unfold insertDocs
    split
    · rename_i hk
      have : seals t k ≠ none := fun h => seals_eq_none.1 h hk
      simp [Seals.Fresh, this]
    · rename_i hk
      rw [insertDocs_ok_iff msg]
      have hfresh : (seals (t.insert k doc)).Fresh (entries.map Prod.fst) ↔
          (seals t).Fresh (((k, doc) :: entries).map Prod.fst) := by
        simp only [Seals.Fresh, List.map_cons, List.nodup_cons, List.mem_cons, forall_eq_or_imp, seals_insert,
          seals_eq_none.2 hk, true_and]
        constructor
        · rintro ⟨hnd, h⟩
          have hnot : k ∉ entries.map Prod.fst := fun hm => by simpa using h k hm
          exact ⟨⟨hnot, hnd⟩, fun j hj => by simpa [show j ≠ k from fun e => hnot (e ▸ hj)] using h j hj⟩
        · rintro ⟨⟨hnot, hnd⟩, h⟩
          exact ⟨hnd, fun j hj => by rw [if_neg (fun e : j = k => hnot (e ▸ hj)), h j hj]⟩
      rw [hfresh]
      rfl

theorem seals_spendAll (text : String) : ∀ (ks : List String) (t : Tokens) (j : String),
    seals (spendAll text t ks) j = if j ∈ ks then some true else seals t j
  | [], t, j => by simp [spendAll]
  | k :: ks, t, j => by
    show seals (spendAll text (t.insert k _) ks) j = _
    rw [seals_spendAll text ks, seals_insert, alreadySpent_spendDoc]
    by_cases hjk : j = k
    · simp [hjk]
    · simp [hjk]

/-! ## Replace -/

section

variable {ρ : Type} {cfg : StoreConfig ρ} {now : DateTime} {ns : Namespace} {op : ReplaceOp ρ} {db : Db}

/-- The keys the outputs are stored under: each record's own. -/
def ownKeys (cfg : StoreConfig ρ) (op : ReplaceOp ρ) : List String := op.outputs.map cfg.recordKey

theorem entries_keys : (op.outputs.map (entryOf cfg)).map Prod.fst = ownKeys cfg op := by
  rw [List.map_map]
  rfl

theorem replaceTrx_ok_iff {t t' : Tokens} : replaceTrx cfg now ns op t = .ok t' ↔
    (seals t).Accepts (inputKeys cfg ns op) (ownKeys cfg op) ∧
      t' = FMap.putAll (spendAll (cfg.chrono.toRfc3339 now) t (inputKeys cfg ns op))
        (op.outputs.map (entryOf cfg)) := by
  have hfresh : (seals t).Open (inputKeys cfg ns op) →
      ((seals (spendAll (cfg.chrono.toRfc3339 now) t (inputKeys cfg ns op))).Fresh (ownKeys cfg op) ↔
        (seals t).Fresh (ownKeys cfg op)) := by
    intro hopen
    refine and_congr_right fun _ => forall₂_congr fun k _ => ?_
    rw [seals_spendAll]
    split
    · rename_i hk; simp [hopen k hk]
    · rfl
  unfold replaceTrx
  split
  · rename_i e he
    simp only [reduceCtorEq, false_iff, Seals.Accepts]
    rintro ⟨⟨hnd, hopen, -⟩, -⟩
    have hspend := (spendInputs_ok_iff (cfg.chrono.toRfc3339 now)).2 ⟨hnd, hopen, rfl⟩
    rw [inputKeys, he] at hspend
    cases hspend
  · rename_i t₁ h₁
    obtain ⟨hnd, hopen, rfl⟩ := (spendInputs_ok_iff _).1 h₁
    rw [insertDocs_ok_iff, entries_keys, Seals.Accepts]
    exact ⟨fun ⟨h, e⟩ => ⟨⟨hnd, hopen, (hfresh hopen).1 h⟩, e⟩, fun ⟨⟨_, _, h⟩, e⟩ =>
      ⟨(hfresh hopen).2 h, e⟩⟩

/-- **Which replaces commit.** Distinct open inputs, distinct new outputs. -/
theorem execReplace_ok_iff : (execReplace cfg now ns op db).1 = .ok () ↔
    (seals db.tokens).Accepts (inputKeys cfg ns op) (ownKeys cfg op) := by
  unfold execReplace
  split
  · rename_i e he
    simp only [reduceCtorEq, false_iff]
    intro hacc
    rw [replaceTrx_ok_iff.2 ⟨hacc, rfl⟩] at he
    cases he
  · rename_i t ht
    simp [(replaceTrx_ok_iff.1 ht).1]

/-- A replace that is rolled back leaves the database alone. -/
theorem execReplace_of_not_ok (h : (execReplace cfg now ns op db).1 ≠ .ok ()) :
    (execReplace cfg now ns op db).2 = db := by
  unfold execReplace at h ⊢
  split
  · rfl
  · rename_i ht; simp [ht] at h

theorem execReplace_tokens (h : (execReplace cfg now ns op db).1 = .ok ()) : (execReplace cfg now ns op db).2.tokens =
    FMap.putAll (spendAll (cfg.chrono.toRfc3339 now) db.tokens (inputKeys cfg ns op))
      (op.outputs.map (entryOf cfg)) := by
  unfold execReplace at h ⊢
  split
  · rename_i e he; simp [he] at h
  · rename_i t ht; exact (replaceTrx_ok_iff.1 ht).2

/-- **A committed replace is an exchange of seals.** -/
theorem execReplace_exchanged (h : (execReplace cfg now ns op db).1 = .ok ()) :
    Seals.Exchanged (seals db.tokens) (seals (execReplace cfg now ns op db).2.tokens) (inputKeys cfg ns op)
      (ownKeys cfg op) := by
  obtain ⟨-, hopen, hfresh⟩ := execReplace_ok_iff.1 h
  have hseal : ∀ k, k ∉ ownKeys cfg op → seals (execReplace cfg now ns op db).2.tokens k =
      if k ∈ inputKeys cfg ns op then some true else seals db.tokens k := fun k hk => by
    rw [execReplace_tokens h, ← seals_spendAll (cfg.chrono.toRfc3339 now), seals, seals,
      FMap.lookup_putAll_of_notMem (by rwa [entries_keys])]
  refine ⟨fun k hk => ?_, fun k hk => ?_, fun k hin hout => ?_⟩
  · rw [hseal k (hopen.notMem hfresh hk), if_pos hk]
  · rw [execReplace_tokens h, Ne, seals_eq_none, not_not, FMap.mem_putAll, entries_keys]
    exact Or.inr hk
  · rw [hseal k hout, if_neg hin]

theorem batchReplace_single : batchReplace cfg now ns [op] db =
    ([ReplaceResult.ofExcept (execReplace cfg now ns op db).1], (execReplace cfg now ns op db).2) := rfl

/-- A batch of one burn is that burn. -/
theorem batchBurn_single (hash : String) (record : BurnRecord) :
    batchBurn cfg now ns [(hash, record)] db = execBurn cfg now ns hash record db := by
  unfold batchBurn
  split
  · rename_i h
    exact h.symm
  · rename_i h
    exact h.symm

theorem batchReplace_single_ok_iff : (batchReplace cfg now ns [op] db).1 = [.ok] ↔
    (seals db.tokens).Accepts (inputKeys cfg ns op) (ownKeys cfg op) := by
  rw [batchReplace_single, ReplaceResult.ofExcept_eq_ok, execReplace_ok_iff]

theorem batchReplace_exchanged (h : (batchReplace cfg now ns [op] db).1 = [.ok]) :
    Seals.Exchanged (seals db.tokens) (seals (batchReplace cfg now ns [op] db).2.tokens) (inputKeys cfg ns op)
      (ownKeys cfg op) :=
  execReplace_exchanged (ReplaceResult.ofExcept_eq_ok.1 h)

end

/-! ## Burns -/

section

variable {ρ : Type} (cfg : StoreConfig ρ) (now : DateTime) (ns : Namespace)

/-- **Everything a burn can do.** -/
theorem burn_cases (hash : String) (record : BurnRecord) (db : Db) :
    (seals db.tokens (cfg.tokenKey ns hash) ≠ some false ∧ ∃ e, execBurn cfg now ns hash record db =
      (.error e, db)) ∨
    (seals db.tokens (cfg.tokenKey ns hash) = some false ∧ ∃ doc,
      db.tokens.lookup (cfg.tokenKey ns hash) = some doc ∧
      execBurn cfg now ns hash record db = (.ok (), { db with
        tokens := db.tokens.insert (cfg.tokenKey ns hash) (spendDoc (cfg.chrono.toRfc3339 now) doc)
        burnAudit := db.burnAudit.insert (cfg.keys.burnKey cfg.name ns record.id) (.burn record) })) := by
  rw [execBurn]
  cases hlook : db.tokens.lookup (cfg.tokenKey ns hash) with
  | none => exact Or.inl ⟨by simp [seals, hlook], _, rfl⟩
  | some doc =>
    have hseal : seals db.tokens (cfg.tokenKey ns hash) = some (alreadySpent doc) := by
      rw [seals, hlook, Option.map_some]
    rw [hseal]
    dsimp only
    by_cases hs : alreadySpent doc = true
    · rw [if_pos hs]
      exact Or.inl ⟨by simp [hs], _, rfl⟩
    · rw [if_neg hs]
      exact Or.inr ⟨by simp [hs], doc, rfl, rfl⟩

/-! ## The mining state -/

theorem insertTokens_mining (records : List ρ) (db : Db) : (insertTokens cfg records db).2.mining = db.mining := by
  unfold insertTokens
  split <;> rfl

theorem execReplace_mining (op : ReplaceOp ρ) (db : Db) : (execReplace cfg now ns op db).2.mining = db.mining := by
  unfold execReplace
  split <;> rfl

theorem execBurn_mining (hash : String) (record : BurnRecord) (db : Db) :
    (execBurn cfg now ns hash record db).2.mining = db.mining := by
  obtain ⟨-, e, he⟩ | ⟨-, doc, -, he⟩ := burn_cases cfg now ns hash record db
  · rw [he]
  · rw [he]

theorem batchReplace_mining : ∀ (ops : List (ReplaceOp ρ)) (db : Db),
    (batchReplace cfg now ns ops db).2.mining = db.mining
  | [], _ => rfl
  | op :: ops, db => (batchReplace_mining ops _).trans (execReplace_mining cfg now ns op db)

theorem batchBurn_mining : ∀ (ops : List (String × BurnRecord)) (db : Db),
    (batchBurn cfg now ns ops db).2.mining = db.mining
  | [], _ => rfl
  | (hash, record) :: ops, db => by
    have hone := execBurn_mining cfg now ns hash record db
    rw [batchBurn]
    generalize execBurn cfg now ns hash record db = result at hone
    obtain ⟨answer, db₁⟩ := result
    cases answer with
    | error e => exact hone
    | ok u => exact (batchBurn_mining ops db₁).trans hone

end

end Webycash.Fdb
