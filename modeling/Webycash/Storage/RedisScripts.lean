import Webycash.Storage.Redis
/-!
# What the Redis scripts do

`insertOutputs_cases` and `replaceLua_cases` say everything one run of `REPLACE_LUA` can do:
either some input is not ready and nothing happened, or the inputs were marked and the first
`m` outputs inserted, where `m` stops at the first output that exists already or whose slice
of `ARGV` is empty. The results about single calls, pipelines, interleavings and whole runs
are read off these two lemmas.
-/

namespace Webycash.Redis

open Stride

/-! ## Commands -/

theorem hset_flattenPairs (t : Tokens) (k : String) {l : List (String × String)} (h : l ≠ []) :
    hset t k (flattenPairs l) = some (t.insert k (FMap.putAll (hgetall t k) l)) := by
  obtain ⟨p, ps, rfl⟩ := List.exists_cons_of_ne_nil h
  rw [hset, pairUp_flattenPairs]

theorem hgetall_of_notMem {t : Tokens} {k : String} (h : k ∉ t) : hgetall t k = ∅ := by
  rw [hgetall, Finmap.lookup_eq_none.2 h, Option.getD_none]

theorem hget_eq_lookup_hgetall (t : Tokens) (k f : String) : hget t k f = (hgetall t k).lookup f := by
  unfold hget hgetall
  cases t.lookup k <;> simp

/-- The key exists and its `spent` field is not `1`. -/
def Ready (t : Tokens) (k : String) : Prop := k ∈ t ∧ hget t k "spent" ≠ some "1"

instance decidableReady (t : Tokens) (k : String) : Decidable (Ready t k) := inferInstanceAs (Decidable (_ ∧ _))

/-- `check_tokens` reports the key as spent. -/
def Spent (t : Tokens) (k : String) : Prop := hget t k "spent" = some "1"

instance decidableSpent (t : Tokens) (k : String) : Decidable (Spent t k) := inferInstanceAs (Decidable (_ = _))

theorem mem_of_spent {t : Tokens} {k : String} (h : Spent t k) : k ∈ t := by
  by_contra hk
  rw [Spent, hget_eq_lookup_hgetall, hgetall_of_notMem hk] at h
  simp at h

theorem spent_congr {t t' : Tokens} {k : String} (h : t'.lookup k = t.lookup k) : Spent t' k ↔ Spent t k := by
  unfold Spent hget
  rw [h]

/-! ## The three loops -/

theorem checkInputs_eq_none {t : Tokens} : ∀ {ks : List String}, checkInputs t ks = none ↔ ∀ k ∈ ks, Ready t k
  | [] => by simp [checkInputs]
  | k :: ks => by
    unfold checkInputs
    split
    · rename_i hk; simp [Ready, hk]
    · rename_i hk
      split
      · rename_i hs; simp [Ready, hs]
      · rename_i hs
        rw [checkInputs_eq_none]
        simp only [List.mem_cons, forall_eq_or_imp, Ready, not_not.1 hk, ne_eq, hs, not_false_eq_true, and_self,
          true_and]

/-- The two fields a spend writes. -/
def spentFields (now : String) (f : Fields) : Fields := FMap.putAll f [("spent", "1"), ("spent_at", now)]

theorem lookup_spentFields (now : String) (f : Fields) (name : String) :
    (spentFields now f).lookup name =
      if name = "spent_at" then some now else if name = "spent" then some "1" else f.lookup name := by
  simp only [spentFields, FMap.putAll_cons, FMap.putAll_nil, FMap.lookup_insert_ite]

theorem spentFields_idem (now : String) (f : Fields) : spentFields now (spentFields now f) = spentFields now f := by
  refine Finmap.ext_lookup fun name => ?_
  rw [lookup_spentFields, lookup_spentFields]
  split
  · rfl
  · split <;> rfl

theorem lookup_markSpent (now : String) (t : Tokens) (k j : String) :
    (markSpent now t k).lookup j = if j = k then some (spentFields now (hgetall t k)) else t.lookup j :=
  FMap.lookup_insert_ite _ _ _ _

/-- Marking is idempotent, so repeated inputs leave what a single one leaves. -/
theorem lookup_markInputs (now : String) : ∀ (ks : List String) (t : Tokens) (j : String),
    (markInputs now t ks).lookup j = if j ∈ ks then some (spentFields now (hgetall t j)) else t.lookup j
  | [], t, j => by simp [markInputs]
  | k :: ks, t, j => by
    show (markInputs now (markSpent now t k) ks).lookup j = _
    rw [lookup_markInputs now ks]
    by_cases hjk : j = k
    · subst hjk
      simp only [lookup_markSpent, hgetall, if_true, Option.getD_some, spentFields_idem, List.mem_cons, true_or,
        ite_self]
    · simp only [lookup_markSpent, hgetall, hjk, if_false, List.mem_cons, false_or]

theorem mem_markInputs {now : String} {t : Tokens} {ks : List String} {j : String} :
    j ∈ markInputs now t ks ↔ j ∈ ks ∨ j ∈ t := by
  rw [← not_iff_not, ← Finmap.lookup_eq_none, lookup_markInputs]
  by_cases hj : j ∈ ks
  · simp [hj]
  · simp [hj, Finmap.lookup_eq_none]

/-- The HASHes the outputs would get: each key with the pairs of its slice. -/
def outputPuts (n : Nat) (flat : List (String × String)) : Nat → List String → List (String × Fields)
  | _, [] => []
  | i, k :: ks => (k, FMap.ofPairs (slice n i flat)) :: outputPuts n flat (i + 1) ks

theorem outputPuts_keys (n : Nat) (flat : List (String × String)) : ∀ (i : Nat) (ks : List String),
    (outputPuts n flat i ks).map Prod.fst = ks
  | _, [] => rfl
  | i, k :: ks => by rw [outputPuts, List.map_cons, outputPuts_keys n flat (i + 1) ks]

theorem outputPuts_getElem (n : Nat) (flat : List (String × String)) : ∀ (i : Nat) (ks : List String) (j : Nat)
    (hj : j < ks.length), (ks[j], FMap.ofPairs (slice n (i + j) flat)) ∈ outputPuts n flat i ks
  | i, k :: ks, 0, _ => by simp [outputPuts]
  | i, k :: ks, j + 1, hj => by
    rw [outputPuts]
    refine List.mem_cons_of_mem _ ?_
    have := outputPuts_getElem n flat (i + 1) ks j (by simpa using hj)
    rwa [Nat.add_right_comm] at this

/-- How the output loop ended after inserting `m` outputs. -/
inductive LoopEnd (n : Nat) (flat : List (String × String)) (t : Tokens) (i : Nat) (ks : List String) (m : Nat) :
    Reply → Prop
  | done : m = ks.length → LoopEnd n flat t i ks m .ok
  | refused (k : String) : ks[m]? = some k → k ∈ t ∨ k ∈ ks.take m →
      LoopEnd n flat t i ks m (.err ("output token already exists: " ++ k))
  | noFields (k : String) : ks[m]? = some k → k ∉ t → k ∉ ks.take m → slice n (i + m) flat = [] →
      LoopEnd n flat t i ks m .raised

/-- **Everything the output loop can do.** It inserts the first `m` outputs, which are fresh,
pairwise distinct and have non-empty slices, and stops as `LoopEnd` says. -/
theorem insertOutputs_cases (n : Nat) (flat : List (String × String)) : ∀ (i : Nat) (ks : List String) (t : Tokens),
    ∃ m ≤ ks.length, (insertOutputs n (flattenPairs flat) i ks t).2 =
      FMap.putAll t ((outputPuts n flat i ks).take m) ∧
      (ks.take m).Nodup ∧ (∀ k ∈ ks.take m, k ∉ t) ∧ (∀ j < m, slice n (i + j) flat ≠ []) ∧
      LoopEnd n flat t i ks m (insertOutputs n (flattenPairs flat) i ks t).1
  | i, [], t => ⟨0, Nat.le_refl 0, rfl, by simp, by simp, by simp, .done rfl⟩
  | i, k :: ks, t => by
    unfold insertOutputs
    by_cases hk : k ∈ t
    · rw [if_pos hk]
      exact ⟨0, Nat.zero_le _, rfl, by simp, by simp, by simp, .refused k rfl (Or.inl hk)⟩
    rw [if_neg hk, slice_flattenPairs]
    by_cases hs : slice n i flat = []
    · rw [hs]
      exact ⟨0, Nat.zero_le _, rfl, by simp, by simp, by simp, .noFields k rfl hk (by simp) hs⟩
    · rw [hset_flattenPairs t k hs, hgetall_of_notMem hk]
      obtain ⟨m, hm, hst, hnd, hfresh, hne, hend⟩ :=
        insertOutputs_cases n flat (i + 1) ks (t.insert k (FMap.putAll ∅ (slice n i flat)))
      refine ⟨m + 1, Nat.succ_le_succ hm, by rw [hst]; rfl, ?_, ?_, ?_, ?_⟩
      · rw [List.take_succ_cons, List.nodup_cons]
        exact ⟨fun h => hfresh k h (Finmap.mem_insert.2 (Or.inl rfl)), hnd⟩
      · intro j hj
        rw [List.take_succ_cons, List.mem_cons] at hj
        rcases hj with rfl | hj
        · exact hk
        · exact fun h => hfresh j hj (Finmap.mem_insert.2 (Or.inr h))
      · intro j hj
        cases j with
        | zero => exact hs
        | succ j =>
          have := hne j (Nat.lt_of_succ_lt_succ hj)
          rwa [Nat.add_right_comm] at this
      · -- the later outputs see `k` as present, which is `k ∈ (k :: ks).take (m + 1)`
        generalize hr : (insertOutputs n (flattenPairs flat) (i + 1) ks _).1 = reply at hend ⊢
        cases hend with
        | done h => exact .done (by rw [h, List.length_cons])
        | refused k' hk' h =>
          refine .refused k' (by simpa using hk') ?_
          rw [Finmap.mem_insert] at h
          simp only [List.take_succ_cons, List.mem_cons]
          tauto
        | noFields k' hk' h₁ h₂ h₃ =>
          rw [Finmap.mem_insert, not_or] at h₁
          refine .noFields k' (by simpa using hk') h₁.2 ?_ (by rwa [Nat.add_right_comm] at h₃)
          simp only [List.take_succ_cons, List.mem_cons, not_or]
          exact ⟨h₁.1, h₂⟩

theorem LoopEnd.congr {n i m : Nat} {flat : List (String × String)} {t t' : Tokens} {ks : List String} {reply : Reply}
    (hmem : ∀ k, k ∈ t ↔ k ∈ t') (h : LoopEnd n flat t i ks m reply) : LoopEnd n flat t' i ks m reply := by
  cases h with
  | done h => exact .done h
  | refused k hk h => exact .refused k hk (h.imp_left (hmem k).1)
  | noFields k hk h₁ h₂ h₃ => exact .noFields k hk (fun h => h₁ ((hmem k).2 h)) h₂ h₃

/-! ## One replace script -/

section

variable {ρ : Type} (cfg : StoreConfig ρ) (now : DateTime) (ns : Namespace) (op : ReplaceOp ρ)

/-- The name/value pairs of all outputs, as they follow each other in `ARGV`. -/
def flatEntries : List (String × String) := (op.outputs.map cfg.codec.entries).flatten

/-- What the script takes for output `i`. -/
def outputSlice (i : Nat) : List (String × String) := slice (fieldsPerOutput cfg op.outputs) i (flatEntries cfg op)

theorem argv_eq : (replaceCall cfg now ns op).argv = flattenPairs (flatEntries cfg op) := by
  rw [flatEntries, ← List.flatMap_def, ← flattenPairs_flatMap]
  rfl

/-- Every input key is there and unspent. -/
def InputsReady (t : Tokens) : Prop := ∀ k ∈ inputKeys cfg ns op, Ready t k

/-- Every output gets its own fresh key and a non-empty slice. -/
def Insertable (t : Tokens) : Prop :=
  (outputKeys cfg ns op).Nodup ∧ (∀ k ∈ outputKeys cfg ns op, k ∉ t) ∧ ∀ i < op.outputs.length,
    outputSlice cfg op i ≠ []

/-- Some output reaches the script's `HSET` without arguments. -/
def Raises (t : Tokens) : Prop :=
  InputsReady cfg ns op t ∧ ∃ m k, (outputKeys cfg ns op)[m]? = some k ∧
    ((outputKeys cfg ns op).take (m + 1)).Nodup ∧
    (∀ k' ∈ (outputKeys cfg ns op).take (m + 1), k' ∉ t) ∧ (∀ j < m, outputSlice cfg op j ≠ []) ∧
      outputSlice cfg op m = []

instance decidableInputsReady (t : Tokens) : Decidable (InputsReady cfg ns op t) :=
  inferInstanceAs (Decidable (∀ k ∈ inputKeys cfg ns op, Ready t k))

instance decidableInsertable (t : Tokens) : Decidable (Insertable cfg ns op t) :=
  inferInstanceAs (Decidable (_ ∧ _ ∧ ∀ i < op.outputs.length, outputSlice cfg op i ≠ []))

/-- The token map after the inputs are marked and the first `m` outputs written. -/
def afterOutputs (m : Nat) (t : Tokens) : Tokens :=
  FMap.putAll (markInputs (cfg.chrono.toRfc3339 now) t (inputKeys cfg ns op))
    ((outputPuts (fieldsPerOutput cfg op.outputs) (flatEntries cfg op) 0 (outputKeys cfg ns op)).take m)

/-- **Everything `REPLACE_LUA` can do.** -/
theorem replaceLua_cases (db : Db) :
    (¬ InputsReady cfg ns op db.tokens ∧ ∃ e, replaceLua (replaceCall cfg now ns op) db = (.err e, db)) ∨
    (InputsReady cfg ns op db.tokens ∧ ∃ m reply, m ≤ (outputKeys cfg ns op).length ∧
      ((outputKeys cfg ns op).take m).Nodup ∧ (∀ k ∈ (outputKeys cfg ns op).take m, k ∉ db.tokens) ∧
      (∀ j < m, outputSlice cfg op j ≠ []) ∧
      LoopEnd (fieldsPerOutput cfg op.outputs) (flatEntries cfg op) db.tokens 0 (outputKeys cfg ns op) m reply ∧
      replaceLua (replaceCall cfg now ns op) db = (reply, { db with
        tokens := afterOutputs cfg now ns op m db.tokens
        audit :=
          if reply = .ok then
            db.audit.insert (cfg.keys.replacementKey cfg.name ns op.record.id) (.replacement op.record)
          else db.audit })) := by
  by_cases hr : InputsReady cfg ns op db.tokens
  · right
    refine ⟨hr, ?_⟩
    have hmem : ∀ k, k ∈ markInputs (cfg.chrono.toRfc3339 now) db.tokens (inputKeys cfg ns op) ↔
        k ∈ db.tokens :=
      fun k => mem_markInputs.trans ⟨fun h => h.elim (fun h => (hr k h).1) id, Or.inr⟩
    obtain ⟨m, hm, hst, hnd, hfresh, hne, hend⟩ := insertOutputs_cases (fieldsPerOutput cfg op.outputs)
      (flatEntries cfg op) 0 (outputKeys cfg ns op)
      (markInputs (cfg.chrono.toRfc3339 now) db.tokens (inputKeys cfg ns op))
    have hcheck : checkInputs db.tokens (replaceCall cfg now ns op).ik = none := checkInputs_eq_none.2 hr
    refine ⟨m, _, hm, hnd, fun k hk h => hfresh k hk ((hmem k).2 h), fun j hj => ?_, hend.congr hmem, ?_⟩
    · simpa [outputSlice] using hne j hj
    · generalize hres : insertOutputs (fieldsPerOutput cfg op.outputs) (flattenPairs (flatEntries cfg op)) 0
        (outputKeys cfg ns op) (markInputs (cfg.chrono.toRfc3339 now) db.tokens (inputKeys cfg ns op)) = res at hst ⊢
      have hloop : insertOutputs (replaceCall cfg now ns op).fieldsPerOutput (replaceCall cfg now ns op).argv 0
          (replaceCall cfg now ns op).ok
            (markInputs (replaceCall cfg now ns op).now db.tokens (replaceCall cfg now ns op).ik) = res := by
        rw [argv_eq]
        exact hres
      obtain ⟨reply, t⟩ := res
      obtain rfl : t = _ := hst
      rw [replaceLua, hcheck]
      dsimp only
      rw [hloop]
      cases reply <;> rfl
  · left
    refine ⟨hr, ?_⟩
    obtain ⟨e, he⟩ := Option.ne_none_iff_exists'.1 fun h => hr (checkInputs_eq_none.1 h)
    exact ⟨e, by rw [replaceLua, show (replaceCall cfg now ns op).ik = inputKeys cfg ns op from rfl, he]⟩

variable {cfg now ns op}

theorem length_outputKeys : (outputKeys cfg ns op).length = op.outputs.length := List.length_map _

/-- The script answers `ok` exactly when the inputs are ready and the outputs insertable. -/
theorem replaceLua_ok_iff {db : Db} : (replaceLua (replaceCall cfg now ns op) db).1 = .ok ↔
    InputsReady cfg ns op db.tokens ∧ Insertable cfg ns op db.tokens := by
  rcases replaceLua_cases cfg now ns op db with ⟨hr, e, he⟩ | ⟨hr, m, reply, hm, hnd, hfresh, hne, hend, he⟩
  · rw [he]
    exact ⟨nofun, fun h => absurd h.1 hr⟩
  · rw [he]
    constructor
    · rintro rfl
      cases hend with
      | done h =>
        rw [h, List.take_length] at hnd hfresh
        exact ⟨hr, hnd, hfresh, fun i hi => hne i (by rw [h, length_outputKeys]; exact hi)⟩
    · rintro ⟨-, hnd', hfresh', hne'⟩
      cases hend with
      | done => rfl
      | refused k hk h =>
        obtain ⟨hlt, rfl⟩ := List.getElem?_eq_some_iff.1 hk
        rcases h with h | h
        · exact absurd h (hfresh' _ (List.getElem_mem hlt))
        · exact absurd h (getElem_notMem_take hnd' hlt)
      | noFields k hk _ _ h =>
        obtain ⟨hlt, rfl⟩ := List.getElem?_eq_some_iff.1 hk
        rw [Nat.zero_add] at h
        exact absurd h (hne' m (by rwa [length_outputKeys] at hlt))

/-- The script raises exactly when an output is reached whose slice is empty. -/
theorem replaceLua_raised_iff {db : Db} :
    (replaceLua (replaceCall cfg now ns op) db).1 = .raised ↔ Raises cfg ns op db.tokens := by
  rcases replaceLua_cases cfg now ns op db with ⟨hr, e, he⟩ | ⟨hr, m, reply, hm, hnd, hfresh, hne, hend, he⟩
  · rw [he]
    exact ⟨nofun, fun h => absurd h.1 hr⟩
  · rw [he]
    constructor
    · rintro rfl
      cases hend with
      | noFields k hk h₁ h₂ h₃ =>
        rw [Nat.zero_add] at h₃
        refine ⟨hr, m, k, hk, ?_, ?_, hne, h₃⟩
        · rw [List.take_add_one, hk]
          exact List.nodup_append.2 ⟨hnd, by simp, fun a ha b hb => by
            simp only [Option.toList_some, List.mem_singleton] at hb
            rintro rfl
            exact h₂ (hb ▸ ha)⟩
        · intro k' hk'
          rw [List.take_add_one, hk, List.mem_append] at hk'
          rcases hk' with hk' | hk'
          · exact hfresh k' hk'
          · simp only [Option.toList_some, List.mem_singleton] at hk'
            exact hk' ▸ h₁
    · rintro ⟨-, m', k', hk', hnd', hfresh', hne', hs'⟩
      cases hend with
      | noFields => rfl
      | done h =>
        obtain ⟨hlt, -⟩ := List.getElem?_eq_some_iff.1 hk'
        exact absurd hs' (hne m' (h ▸ hlt))
      | refused k hk h =>
        -- the loop stopped no later than `m'`, where the keys are still fresh
        have hmm : m ≤ m' := Nat.not_lt.1 fun hlt => hne m' hlt hs'
        obtain ⟨hlt, rfl⟩ := List.getElem?_eq_some_iff.1 hk
        have hmem : (outputKeys cfg ns op)[m] ∈ (outputKeys cfg ns op).take (m' + 1) :=
          List.mem_take_iff_getElem.2 ⟨m, by omega, rfl⟩
        rcases h with h | h
        · exact absurd h (hfresh' _ hmem)
        · have hnd'' := hnd'.sublist (List.take_sublist_take_left (Nat.succ_le_succ hmm))
          rw [List.take_add_one, hk] at hnd''
          exact absurd rfl ((List.nodup_append.1 hnd'').2.2 _ h _ (by simp))

/-- Keys that were there and are no input keep their HASH. -/
theorem lookup_afterOutputs_of_mem {t : Tokens} {m : Nat} {k : String} (hk : k ∈ t) (hin : k ∉ inputKeys cfg ns op)
    (hfresh : ∀ k ∈ (outputKeys cfg ns op).take m, k ∉ t) :
    (afterOutputs cfg now ns op m t).lookup k = t.lookup k := by
  have hout : k ∉ ((outputPuts (fieldsPerOutput cfg op.outputs) (flatEntries cfg op) 0
    (outputKeys cfg ns op)).take m).map
      Prod.fst := by
    rw [List.map_take, outputPuts_keys]
    exact fun h => hfresh k h hk
  rw [afterOutputs, FMap.lookup_putAll_of_notMem hout, lookup_markInputs, if_neg hin]

/-- **Frame of a replace script.** A key that was there keeps its HASH unless the script found
all its inputs ready and the key is one of them. -/
theorem lookup_replaceLua_of_mem {db : Db} {k : String} (hk : k ∈ db.tokens)
    (hin : InputsReady cfg ns op db.tokens → k ∉ inputKeys cfg ns op) :
    (replaceLua (replaceCall cfg now ns op) db).2.tokens.lookup k = db.tokens.lookup k := by
  rcases replaceLua_cases cfg now ns op db with ⟨-, e, he⟩ | ⟨hr, m, reply, -, -, hfresh, -, -, he⟩
  · rw [he]
  · rw [he]
    exact lookup_afterOutputs_of_mem hk (hin hr) hfresh

/-! ## One burn script -/

/-- Everything `BURN_LUA` can do. -/
theorem burnLua_cases (tk ak text : String) (row : AuditRow) (db : Db) :
    (¬ Ready db.tokens tk ∧ ∃ e, burnLua tk ak text row db = (.err e, db)) ∨
    (Ready db.tokens tk ∧ burnLua tk ak text row db =
      (.ok, { db with tokens := markSpent text db.tokens tk, audit := db.audit.insert ak row })) := by
  unfold burnLua
  split
  · rename_i h; exact Or.inl ⟨fun hr => h hr.1, _, rfl⟩
  · rename_i h
    split
    · rename_i hs; exact Or.inl ⟨fun hr => hr.2 hs, _, rfl⟩
    · rename_i hs; exact Or.inr ⟨⟨not_not.1 h, hs⟩, rfl⟩

/-- **Frame of a burn script.** -/
theorem lookup_burnLua_of_ne {tk ak text k : String} {row : AuditRow} {db : Db} (h : Ready db.tokens tk → k ≠ tk) :
    (burnLua tk ak text row db).2.tokens.lookup k = db.tokens.lookup k := by
  rcases burnLua_cases tk ak text row db with ⟨-, e, he⟩ | ⟨hr, he⟩
  · rw [he]
  · rw [he, lookup_markSpent, if_neg (h hr)]

end

end Webycash.Redis
