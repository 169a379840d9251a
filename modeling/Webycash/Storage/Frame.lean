import Webycash.Storage.Backend
import Webycash.Storage.Insert
/-!
# Which keys a store call touches, and whose they are

A key names its asset, its namespace, what it is for and an id, one after another with `:` in
between. Read from the left none of them can be mistaken (`roleKey_inj`), whatever the id is.
The second half says of each store call under which keys it may change a record, and that an
answer about a namespace depends on nothing but the records under that namespace's keys.
-/

namespace Webycash

/-! ## Whose a key is -/

namespace Namespace

/-- No scope at all, or a contract id over letters, digits, `-` and `_` with an issuer of 40 hex
digits. -/
def WellFormed (ns : Namespace) : Prop :=
  ns = unscoped ∨ ∃ c i, ns = scopedTo c i ∧ (∀ x ∈ c.id.toList, Wire.isSlug x = true) ∧
    i.hex.toList.length = 40 ∧ ∀ x ∈ i.hex.toList, Hex.isDigit x = true

variable {ns ns' : Namespace}

theorem WellFormed.plain (h : ns.WellFormed) : KeyStrategy.PlainNamespace ns := by
  rcases h with rfl | ⟨c, i, rfl, hc, -, hi⟩
  · exact plainNamespace_unscoped
  · refine plainNamespace_scopedTo ⟨fun hm => ?_, fun hm => ?_⟩
    · exact absurd (hc _ hm) (by decide)
    · exact absurd (hi _ hm) (by decide)

/-- The texts of a key tell well-formed namespaces apart: no issuer of 40 digits reads `_`. -/
theorem WellFormed.eq_of_texts (h : ns.WellFormed) (h' : ns'.WellFormed) (hc : ns.contractText = ns'.contractText)
    (hi : ns.issuerText = ns'.issuerText) : ns = ns' := by
  have hlen : unscoped.issuerText.toList.length = 1 := rfl
  rcases h with rfl | ⟨c, i, rfl, -, hn, -⟩ <;> rcases h' with rfl | ⟨c', i', rfl, -, hn', -⟩
  · rfl
  · rw [hi, issuerText] at hlen
    exact absurd (hlen.symm.trans hn') (by decide)
  · rw [← hi, issuerText] at hlen
    exact absurd (hlen.symm.trans hn) (by decide)
  · obtain ⟨c⟩ := c
    obtain ⟨i⟩ := i
    cases (show c = c'.id from hc)
    cases (show i = i'.hex from hi)
    rfl

end Namespace

/-- What a key is for. -/
inductive KeyRole
  | token
  | replacement
  | burn
  | miningState
  deriving DecidableEq

namespace KeyStrategy

/-- The key of a role. The mining state has no namespace and no id. -/
def roleKey (k : KeyStrategy) (assetName : String) (ns : Namespace) : KeyRole → String → String
  | .token, id => k.tokenKey assetName ns id
  | .replacement, id => k.replacementKey assetName ns id
  | .burn, id => k.burnKey assetName ns id
  | .miningState, _ => k.miningStateKey assetName

/-- What stands between the namespace and the id. -/
def roleLabel : KeyRole → String
  | .token => "token:"
  | .replacement => "audit:replace:"
  | .burn => "audit:burn:"
  | .miningState => ""

variable {a a' : String} {ns ns' : Namespace} {r r' : KeyRole} {id id' : String}

theorem roleKey_scoped (k : KeyStrategy) (h : r ≠ .miningState) :
    k.roleKey a ns r id = k.scopePrefix a ns ++ (roleLabel r ++ id) := by
  cases r with
  | token => exact String.append_assoc
  | replacement => exact String.append_assoc
  | burn => exact String.append_assoc
  | miningState => exact absurd rfl h

theorem toList_scopePrefix (x : String) : (namespacedKeys.scopePrefix a ns ++ x).toList =
    a.toList ++ ':' :: (ns.contractText.toList ++ ':' :: (ns.issuerText.toList ++ ':' :: x.toList)) := by
  have hsep : ":".toList = [':'] := rfl
  simp only [scopePrefix, String.toList_append, hsep, List.append_assoc, List.cons_append, List.nil_append]

theorem toList_miningStateKey (a : String) :
    (namespacedKeys.miningStateKey a).toList = a.toList ++ ':' :: "mining:state".toList := by
  have htail : ":mining:state".toList = ':' :: "mining:state".toList := rfl
  rw [miningStateKey, String.toList_append, htail]

/-- Labels read differently from the first letter on, so the id is what follows. -/
theorem roleLabel_append_inj (hr : r ≠ .miningState) (hr' : r' ≠ .miningState)
    (h : roleLabel r ++ id = roleLabel r' ++ id') :
    r = r' ∧ id = id' := by
  have hl := congrArg String.toList h
  simp only [String.toList_append] at hl
  cases r <;> cases r' <;> simp only [ne_eq, not_true_eq_false, reduceCtorEq, not_false_eq_true] at hr hr'
  case token.token => exact ⟨rfl, String.ext (List.append_cancel_left hl)⟩
  case replacement.replacement => exact ⟨rfl, String.ext (List.append_cancel_left hl)⟩
  case burn.burn => exact ⟨rfl, String.ext (List.append_cancel_left hl)⟩
  all_goals exact absurd hl (by simp [roleLabel])

/-- **A scoped key reads one way.** -/
theorem scopePrefix_append_inj {x x' : String} (ha : ':' ∉ a.toList) (ha' : ':' ∉ a'.toList) (hns : ns.WellFormed)
    (hns' : ns'.WellFormed) (h : namespacedKeys.scopePrefix a ns ++ x = namespacedKeys.scopePrefix a' ns' ++ x') :
    a = a' ∧ ns = ns' ∧ x = x' := by
  have hl := congrArg String.toList h
  rw [toList_scopePrefix, toList_scopePrefix] at hl
  obtain ⟨h₁, hl⟩ := append_sep_inj ha ha' hl
  obtain ⟨h₂, hl⟩ := append_sep_inj hns.plain.1 hns'.plain.1 hl
  obtain ⟨h₃, hl⟩ := append_sep_inj hns.plain.2 hns'.plain.2 hl
  exact ⟨String.ext h₁, hns.eq_of_texts hns' (String.ext h₂) (String.ext h₃), String.ext hl⟩

/-- The mining state's key has two separators, a scoped one has more. -/
theorem scopePrefix_append_ne_miningStateKey {x : String} (ha : ':' ∉ a.toList) (ha' : ':' ∉ a'.toList)
    (hns : ns.WellFormed) : namespacedKeys.scopePrefix a ns ++ x ≠ namespacedKeys.miningStateKey a' := by
  intro h
  have hl := congrArg String.toList h
  have htail : "mining:state".toList = "mining".toList ++ ':' :: "state".toList := rfl
  rw [toList_scopePrefix, toList_miningStateKey, htail] at hl
  obtain ⟨-, hl⟩ := append_sep_inj ha ha' hl
  obtain ⟨-, hl⟩ := append_sep_inj hns.plain.1 (by decide) hl
  have hmem : ':' ∈ "state".toList := by rw [← hl]; simp
  exact absurd hmem (by decide)

/-- **Keys are told apart.** Over asset names without separator and well-formed namespaces two keys
of `NamespacedKeys` are equal only if asset and role are, and, the mining state apart, namespace
and id too. -/
theorem roleKey_inj (ha : ':' ∉ a.toList) (ha' : ':' ∉ a'.toList) (hns : ns.WellFormed) (hns' : ns'.WellFormed) :
    namespacedKeys.roleKey a ns r id = namespacedKeys.roleKey a' ns' r' id' ↔
      a = a' ∧ r = r' ∧ (r = .miningState ∨ (ns = ns' ∧ id = id')) := by
  constructor
  · intro h
    by_cases hr : r = .miningState <;> by_cases hr' : r' = .miningState
    · subst hr hr'
      have hl := congrArg String.toList h
      simp only [roleKey, toList_miningStateKey] at hl
      exact ⟨String.ext (List.append_cancel_right hl), rfl, Or.inl rfl⟩
    · subst hr
      rw [roleKey_scoped _ hr'] at h
      exact absurd h.symm (scopePrefix_append_ne_miningStateKey ha' ha hns')
    · subst hr'
      rw [roleKey_scoped _ hr] at h
      exact absurd h (scopePrefix_append_ne_miningStateKey ha ha' hns)
    · rw [roleKey_scoped _ hr, roleKey_scoped _ hr'] at h
      obtain ⟨h₁, h₂, hrest⟩ := scopePrefix_append_inj ha ha' hns hns' h
      obtain ⟨h₃, h₄⟩ := roleLabel_append_inj hr hr' hrest
      exact ⟨h₁, h₃, Or.inr ⟨h₂, h₄⟩⟩
  · rintro ⟨rfl, rfl, rfl | ⟨rfl, rfl⟩⟩ <;> rfl

/-- The word a legacy key starts with. -/
def legacyHeads : List String := ["token", "audit", "mining"]

theorem legacy_roleKey_head (a : String) (ns : Namespace) (r : KeyRole) (id : String) :
    ∃ w ∈ legacyHeads, ∃ x, (webcashLegacyKeys.roleKey a ns r id).toList = w.toList ++ ':' :: x := by
  cases r with
  | token => exact ⟨"token", by decide, id.toList, by simp [roleKey, tokenKey, tokenPrefix, scopePrefix]⟩
  | replacement =>
    exact ⟨"audit", by decide, ("replace:" ++ id).toList, by simp [roleKey, replacementKey, scopePrefix]⟩
  | burn => exact ⟨"audit", by decide, ("burn:" ++ id).toList, by simp [roleKey, burnKey, scopePrefix]⟩
  | miningState => exact ⟨"mining", by decide, "state".toList, by simp [roleKey, miningStateKey]⟩

theorem namespaced_roleKey_head (a : String) (ns : Namespace) (r : KeyRole) (id : String) :
    ∃ x, (namespacedKeys.roleKey a ns r id).toList = a.toList ++ ':' :: x := by
  by_cases hr : r = .miningState
  · subst hr
    exact ⟨_, toList_miningStateKey a⟩
  · rw [roleKey_scoped _ hr]
    exact ⟨_, toList_scopePrefix _⟩

/-- The two strategies share no key, unless an asset is called like a role. -/
theorem roleKey_ne_legacy (ha : ':' ∉ a.toList) (hw : a ∉ legacyHeads) :
    namespacedKeys.roleKey a ns r id ≠ webcashLegacyKeys.roleKey a' ns' r' id' := by
  intro h
  obtain ⟨x, hx⟩ := namespaced_roleKey_head a ns r id
  obtain ⟨w, hmem, y, hy⟩ := legacy_roleKey_head a' ns' r' id'
  have hcolon : ∀ w ∈ legacyHeads, ':' ∉ w.toList := by decide
  rw [h, hy] at hx
  obtain ⟨he, -⟩ := append_sep_inj (hcolon w hmem) ha hx
  exact hw (String.ext he ▸ hmem)

end KeyStrategy

/-! ## What a call may change -/

section

variable {ρ : Type} {cfg : StoreConfig ρ} {now : DateTime} {ns : Namespace} {op : ReplaceOp ρ}
  {rs : List ρ} {k : String}

namespace Redis

variable {db db' : Db}

theorem insert_changed (h : (insertTokens cfg rs db).2.tokens.lookup k ≠ db.tokens.lookup k) :
    k ∈ rs.map cfg.recordKey := by
  obtain ⟨c, hsub, -, -, -, hst, -⟩ := insertTokens_spec cfg rs db
  rw [hst] at h
  refine (hsub.map cfg.recordKey).subset (not_not.1 fun hk => h (FMap.lookup_putAll_of_notMem ?_ _))
  rwa [overlay_keys]

/-- What a script writes it writes in exchange for its inputs, all of them, also when it stops
half-way. -/
theorem replace_changed (h : (batchReplace cfg now ns [op] db).2.tokens.lookup k ≠ db.tokens.lookup k) :
    (seals db.tokens).Closes (seals (batchReplace cfg now ns [op] db).2.tokens) (inputKeys cfg ns op) ∧
      (k ∈ inputKeys cfg ns op ∨ (k ∈ outputKeys cfg ns op ∧ seals db.tokens k = none)) := by
  rw [batchReplace_single_db] at h ⊢
  rcases replaceLua_cases cfg now ns op db with ⟨-, e, he⟩ | ⟨hr, m, reply, -, -, hfresh, -, -, he⟩
  · rw [he] at h
    exact absurd rfl h
  rw [he] at h ⊢
  refine ⟨fun i hi => ⟨seals_eq_open.2 (hr i hi), seals_eq_closed.2 (spent_afterOutputs hi hr hfresh)⟩, ?_⟩
  by_cases hin : k ∈ inputKeys cfg ns op
  · exact Or.inl hin
  · have hk : k ∉ db.tokens := fun hk => h (lookup_afterOutputs_of_mem hk hin hfresh)
    have hput : k ∈ ((outputPuts (fieldsPerOutput cfg op.outputs) (flatEntries cfg op) 0
      (outputKeys cfg ns op)).take m).map
        Prod.fst := by
      by_contra hput
      exact h (by rw [afterOutputs, FMap.lookup_putAll_of_notMem hput, lookup_markInputs, if_neg hin])
    rw [List.map_take, outputPuts_keys] at hput
    exact Or.inr ⟨List.mem_of_mem_take hput, seals_eq_none.2 hk⟩

theorem burn_changed {hash : String} (record : BurnRecord)
    (h : (batchBurn cfg now ns [(hash, record)] db).2.tokens.lookup k ≠ db.tokens.lookup k) :
    k = cfg.tokenKey ns hash ∧
      (seals db.tokens).Closes (seals (batchBurn cfg now ns [(hash, record)] db).2.tokens) [cfg.tokenKey ns hash] := by
  have hdb : (batchBurn cfg now ns [(hash, record)] db).2 = (burnLua (cfg.tokenKey ns hash)
      (cfg.keys.burnKey cfg.name ns record.id) (cfg.chrono.toRfc3339 now) (.burn record) db).2 := rfl
  rw [hdb] at h ⊢
  refine ⟨not_not.1 fun hne => h (lookup_burnLua_of_ne fun _ => hne), ?_⟩
  rcases burnLua_cases (cfg.tokenKey ns hash) (cfg.keys.burnKey cfg.name ns record.id) (cfg.chrono.toRfc3339 now)
    (.burn record) db with ⟨-, e, he⟩ | ⟨hr, he⟩
  · rw [he] at h
    exact absurd rfl h
  · intro i hi
    obtain rfl := List.mem_singleton.1 hi
    refine ⟨seals_eq_open.2 hr, ?_⟩
    rw [he, seals_eq_closed, Spent, hget, lookup_markSpent, if_pos rfl]
    simp [lookup_spentFields]

theorem getTokens_congr {hashes : List String}
    (h : ∀ x, db'.tokens.lookup (cfg.tokenKey ns x) = db.tokens.lookup (cfg.tokenKey ns x)) :
    getTokens cfg now ns hashes db' = getTokens cfg now ns hashes db := by
  refine congrArg Except.ok (List.map_congr_left fun x _ => ?_)
  have hall : hgetall db'.tokens (cfg.tokenKey ns x) = hgetall db.tokens (cfg.tokenKey ns x) := by
    rw [hgetall, h, hgetall]
  exact congrArg (fun fields : Fields => if fields = ∅ then none else cfg.codec.fromFields now x fields) hall

theorem checkTokens_congr {hashes : List String}
    (h : ∀ x, db'.tokens.lookup (cfg.tokenKey ns x) = db.tokens.lookup (cfg.tokenKey ns x)) :
    checkTokens cfg ns hashes db' = checkTokens cfg ns hashes db := by
  simp only [checkTokens, hget, h]

end Redis

namespace Dynamo

variable {env : Env} {db db' : Db}

theorem insert_changed (h : (insertTokens cfg env rs db).2.tokens.lookup k ≠ db.tokens.lookup k) :
    k ∈ rs.map cfg.recordKey := by
  rw [insertTokens_eq] at h
  have hk : k ∈ (acked cfg env rs).map Prod.fst := not_not.1 fun hk => h (FMap.lookup_putAll_of_notMem hk _)
  obtain ⟨p, hp, rfl⟩ := List.mem_map.1 hk
  obtain ⟨r, hr, rfl⟩ := acked_mem hp
  exact List.mem_map.2 ⟨r, hr, rfl⟩

theorem replace_changed (h : (batchReplace cfg now ns [op] db).2.tokens.lookup k ≠ db.tokens.lookup k) :
    (seals db.tokens).Closes (seals (batchReplace cfg now ns [op] db).2.tokens) (inputKeys cfg ns op) ∧
      (k ∈ inputKeys cfg ns op ∨ (k ∈ outputKeys cfg ns op ∧ seals db.tokens k = none)) := by
  rw [batchReplace_single] at h ⊢
  have hok : (execReplace cfg now ns op db).1 = .ok () := not_not.1 fun hno => h (by rw [execReplace_of_not_ok hno])
  obtain ⟨-, -, hopen, -, hfree⟩ := execReplace_ok_iff.1 hok
  refine ⟨fun i hi => ⟨hopen i hi, (execReplace_exchanged hok).closed i hi⟩, ?_⟩
  by_cases hin : k ∈ inputKeys cfg ns op
  · exact Or.inl hin
  · have hout : k ∈ outputKeys cfg ns op := by
      by_contra hout
      refine h ?_
      rw [execReplace_tokens hok, lookup_replaced,
        FMap.lastPut_eq_none_iff.2 (by rwa [outputPuts_keys]), Option.none_or,
        if_neg hin]
    exact Or.inr ⟨hout, hfree k hout⟩

theorem burn_changed {hash : String} (record : BurnRecord)
    (h : (batchBurn cfg now ns [(hash, record)] db).2.tokens.lookup k ≠ db.tokens.lookup k) :
    k = cfg.tokenKey ns hash ∧
      (seals db.tokens).Closes (seals (batchBurn cfg now ns [(hash, record)] db).2.tokens) [cfg.tokenKey ns hash] := by
  rw [batchBurn_single] at h ⊢
  rcases burn_cases cfg now ns hash record db with ⟨-, e, he⟩ | ⟨hopen, he⟩
  · rw [he] at h
    exact absurd rfl h
  · rw [he] at h ⊢
    refine ⟨not_not.1 fun hne => h (Finmap.lookup_insert_of_ne _ hne), fun i hi => ?_⟩
    obtain rfl := List.mem_singleton.1 hi
    refine ⟨hopen, ?_⟩
    rw [seals, Finmap.lookup_insert, Option.map_some, lookup_spent_spendItem]
    rfl

theorem getTokens_congr {hashes : List String}
    (h : ∀ x, db'.tokens.lookup (cfg.tokenKey ns x) = db.tokens.lookup (cfg.tokenKey ns x)) :
    getTokens cfg now env ns hashes db' = getTokens cfg now env ns hashes db := by
  simp only [getTokens, List.map_map, Function.comp_def, h]

theorem checkTokens_congr {hashes : List String}
    (h : ∀ x, db'.tokens.lookup (cfg.tokenKey ns x) = db.tokens.lookup (cfg.tokenKey ns x)) :
    checkTokens cfg now env ns hashes db' = checkTokens cfg now env ns hashes db := by
  rw [checkTokens, getTokens_congr h, checkTokens]

end Dynamo

namespace Fdb

variable {db db' : Db}

theorem insert_changed (h : (insertTokens cfg rs db).2.tokens.lookup k ≠ db.tokens.lookup k) :
    k ∈ rs.map cfg.recordKey := by
  rw [insertTokens_tokens] at h
  split at h
  · have hk : k ∈ (rs.map (entryOf cfg)).map Prod.fst := not_not.1 fun hk => h (FMap.lookup_putAll_of_notMem hk _)
    rwa [List.map_map] at hk
  · exact absurd rfl h

theorem replace_changed (h : (batchReplace cfg now ns [op] db).2.tokens.lookup k ≠ db.tokens.lookup k) :
    (seals db.tokens).Closes (seals (batchReplace cfg now ns [op] db).2.tokens) (inputKeys cfg ns op) ∧
      (k ∈ inputKeys cfg ns op ∨ (k ∈ ownKeys cfg op ∧ seals db.tokens k = none)) := by
  rw [batchReplace_single] at h ⊢
  have hok : (execReplace cfg now ns op db).1 = .ok () := not_not.1 fun hno => h (by rw [execReplace_of_not_ok hno])
  obtain ⟨hnd, hopen, -, hfree⟩ := execReplace_ok_iff.1 hok
  refine ⟨fun i hi => ⟨hopen i hi, (execReplace_exchanged hok).closed i hi⟩, ?_⟩
  by_cases hin : k ∈ inputKeys cfg ns op
  · exact Or.inl hin
  · have hout : k ∈ ownKeys cfg op := by
      by_contra hout
      refine h ?_
      rw [execReplace_tokens hok, FMap.lookup_putAll_of_notMem (by rwa [entries_keys]),
        lookup_spendAll _ _ _ _ hnd, if_neg hin]
    exact Or.inr ⟨hout, hfree k hout⟩

theorem burn_changed {hash : String} (record : BurnRecord)
    (h : (batchBurn cfg now ns [(hash, record)] db).2.tokens.lookup k ≠ db.tokens.lookup k) :
    k = cfg.tokenKey ns hash ∧
      (seals db.tokens).Closes (seals (batchBurn cfg now ns [(hash, record)] db).2.tokens) [cfg.tokenKey ns hash] := by
  rw [batchBurn_single] at h ⊢
  rcases burn_cases cfg now ns hash record db with ⟨-, e, he⟩ | ⟨hopen, doc, -, he⟩
  · rw [he] at h
    exact absurd rfl h
  · rw [he] at h ⊢
    refine ⟨not_not.1 fun hne => h (Finmap.lookup_insert_of_ne _ hne), fun i hi => ?_⟩
    obtain rfl := List.mem_singleton.1 hi
    refine ⟨hopen, ?_⟩
    rw [seals_insert, if_pos rfl, alreadySpent_spendDoc]

theorem getTokens_congr {hashes : List String}
    (h : ∀ x, db'.tokens.lookup (cfg.tokenKey ns x) = db.tokens.lookup (cfg.tokenKey ns x)) :
    getTokens cfg ns hashes db' = getTokens cfg ns hashes db := by
  simp only [getTokens, getJson, h]

theorem checkTokens_congr {hashes : List String}
    (h : ∀ x, db'.tokens.lookup (cfg.tokenKey ns x) = db.tokens.lookup (cfg.tokenKey ns x)) :
    checkTokens cfg ns hashes db' = checkTokens cfg ns hashes db := by
  rw [checkTokens, getTokens_congr h, checkTokens]

end Fdb

/-! ## One interface -/

/-- Outputs of the call's own namespace are stored under its keys. -/
theorem ownKeys_eq_outputKeys (h : ∀ o ∈ op.outputs, cfg.codec.namespaceOf o = ns) :
    Fdb.ownKeys cfg op = outputKeys cfg ns op :=
  List.map_congr_left fun o ho => by rw [StoreConfig.recordKey, h o ho]

namespace Backend

variable {b : Backend} {service : Dynamo.Env} {db db' : b.Db}

/-- The same record, or none, under the key. -/
def AgreeAt : (b : Backend) → b.Db → b.Db → String → Prop
  | redis, db, db', k => db'.tokens.lookup k = db.tokens.lookup k
  | dynamo, db, db', k => db'.tokens.lookup k = db.tokens.lookup k
  | fdb, db, db', k => db'.tokens.lookup k = db.tokens.lookup k

theorem agreeAt_refl (db : b.Db) (k : String) : b.AgreeAt db db k := by
  cases b <;> rfl

theorem AgreeAt.seals (h : b.AgreeAt db db' k) : b.seals db' k = b.seals db k := by
  cases b with
  | redis => exact congrArg (Option.map _) h
  | dynamo => exact congrArg (Option.map _) h
  | fdb => exact congrArg (Option.map _) h

/-- **An insertion** changes records of its batch. -/
theorem insert_changed (h : ¬ b.AgreeAt db ((b.store cfg now service).insertTokens rs db).2 k) :
    k ∈ rs.map cfg.recordKey := by
  cases b with
  | redis => exact Redis.insert_changed h
  | dynamo => exact Dynamo.insert_changed h
  | fdb => exact Fdb.insert_changed h

theorem mint_changed {state : MiningState}
    (h : ¬ b.AgreeAt db ((b.store cfg now service).updateMiningState state
      ((b.store cfg now service).insertTokens rs db).2).2 k) :
    k ∈ rs.map cfg.recordKey := by
  cases b with
  | redis => exact Redis.insert_changed h
  | dynamo => exact Dynamo.insert_changed h
  | fdb => exact Fdb.insert_changed h

/-- **A replace** changes its inputs and makes its outputs, and it closes all the inputs for it. -/
theorem replace_changed (hns : ∀ o ∈ op.outputs, cfg.codec.namespaceOf o = ns)
    (h : ¬ b.AgreeAt db ((b.store cfg now service).batchReplace ns [op] db).2 k) :
    (b.seals db).Closes (b.seals ((b.store cfg now service).batchReplace ns [op] db).2) (inputKeys cfg ns op) ∧
      (k ∈ inputKeys cfg ns op ∨ (k ∈ outputKeys cfg ns op ∧ b.seals db k = none)) := by
  cases b with
  | redis => exact Redis.replace_changed h
  | dynamo => exact Dynamo.replace_changed h
  | fdb => exact ownKeys_eq_outputKeys hns ▸ Fdb.replace_changed h

/-- **A burn** closes its token and changes nothing else. -/
theorem burn_changed {hash : String} {record : BurnRecord}
    (h : ¬ b.AgreeAt db ((b.store cfg now service).batchBurn ns [(hash, record)] db).2 k) :
    k = cfg.tokenKey ns hash ∧
      (b.seals db).Closes (b.seals ((b.store cfg now service).batchBurn ns [(hash, record)] db).2)
        [cfg.tokenKey ns hash] := by
  cases b with
  | redis => exact Redis.burn_changed record h
  | dynamo => exact Dynamo.burn_changed record h
  | fdb => exact Fdb.burn_changed record h

/-- **What an answer depends on.** -/
theorem reads_congr (h : ∀ x, b.AgreeAt db db' (cfg.tokenKey ns x)) (hashes : List String) :
    (b.store cfg now service).getTokens ns hashes db' = (b.store cfg now service).getTokens ns hashes db ∧
    (b.store cfg now service).checkTokens ns hashes db' = (b.store cfg now service).checkTokens ns hashes db := by
  cases b with
  | redis => exact ⟨Redis.getTokens_congr h, Redis.checkTokens_congr h⟩
  | dynamo => exact ⟨Dynamo.getTokens_congr h, Dynamo.checkTokens_congr h⟩
  | fdb => exact ⟨Fdb.getTokens_congr h, Fdb.checkTokens_congr h⟩

end Backend

end

end Webycash
