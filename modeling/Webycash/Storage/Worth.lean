import Webycash.Lib.Transfer
import Webycash.Storage.Burn
import Webycash.Storage.Insert
import Webycash.Storage.RedisAmounts
/-!
# What the unspent records of an asset are worth

Each backend stores an amount with a record: a HASH field, a number attribute, a JSON member. The
weight of a key is that amount while the record is unspent and belongs to the asset. Insertion,
replace and burn are transfers between keys (`insert_transfer`, `replace_transfer`,
`burn_transfer` of each backend), so what they do to the total is read off their arguments.
-/

namespace Webycash

namespace KeyStrategy

/-- What every key of an asset starts with. -/
def assetPrefix : KeyStrategy → String → String
  | webcashLegacyKeys, _ => "token:"
  | namespacedKeys, assetName => assetName ++ ":"

def OfAsset (k : KeyStrategy) (assetName key : String) : Prop := (k.assetPrefix assetName).toList <+: key.toList

instance decidableOfAsset (k : KeyStrategy) (assetName key : String) : Decidable (k.OfAsset assetName key) :=
  inferInstanceAs (Decidable (_ <+: _))

theorem ofAsset_tokenKey (k : KeyStrategy) (assetName : String) (ns : Namespace) (hash : String) :
    k.OfAsset assetName (k.tokenKey assetName ns hash) := by
  cases k with
  | webcashLegacyKeys =>
    simp only [OfAsset, assetPrefix, tokenKey, tokenPrefix, scopePrefix, String.toList_append, List.append_assoc]
    exact List.prefix_append _ _
  | namespacedKeys =>
    simp only [OfAsset, assetPrefix, tokenKey, tokenPrefix, scopePrefix, String.toList_append, List.append_assoc]
    exact ⟨_, by simp only [List.append_assoc]; rfl⟩

end KeyStrategy

section

variable {ρ : Type} (cfg : StoreConfig ρ)

/-- The records of a batch with their amounts. -/
def worths (rs : List ρ) : List (String × Int) := rs.map fun r => (cfg.recordKey r, (cfg.codec.amountWats r).val)

theorem ofAsset_recordKey (r : ρ) : cfg.keys.OfAsset cfg.name (cfg.recordKey r) :=
  KeyStrategy.ofAsset_tokenKey _ _ _ _

/-! ## Redis -/

namespace Redis

def assetWeight (k : String) (f : Fields) : Int :=
  if cfg.keys.OfAsset cfg.name k ∧ f.lookup "spent" ≠ some "1" then storedAmount f else 0

variable {cfg} {rs : List ρ} {now : DateTime} {ns : Namespace} {op : ReplaceOp ρ} {db : Db}

theorem weight_of_unclaimed {t : Tokens} {k : String} (h : ¬ Claimed t k) : FMap.weight (assetWeight cfg) t k = 0 := by
  rw [Claimed, hget] at h
  rw [FMap.weight]
  cases hk : t.lookup k with
  | none => rfl
  | some f =>
    have hnone : f.lookup "amount_wats" = none := by simpa [hk] using h
    simp [assetWeight, storedAmount, readAmount, hnone]

/-- Distinct records under unclaimed keys are inserted with their amounts. -/
theorem insert_transfer (hnd : (rs.map cfg.recordKey).Nodup)
    (hfree : ∀ r ∈ rs, ¬ Claimed db.tokens (cfg.recordKey r))
    (hun : ∀ r ∈ rs, cfg.codec.spent r = false) : (insertTokens cfg rs db).1 = .ok () ∧
      FMap.Transfer (assetWeight cfg) db.tokens (insertTokens cfg rs db).2.tokens [] (worths cfg rs) := by
  have hok := (insertTokens_ok_iff cfg).2 ⟨hnd, hfree⟩
  refine ⟨hok, ?_⟩
  rw [insertTokens_of_ok cfg hok]
  have htransfer := FMap.transfer_putAll (w := assetWeight cfg) (m := db.tokens) (l := rs.map (overlay cfg db.tokens))
    (by rwa [overlay_keys]) fun p hp => by
      obtain ⟨r, hr, rfl⟩ := List.mem_map.1 hp
      exact weight_of_unclaimed (hfree r hr)
  have hworths : (rs.map (overlay cfg db.tokens)).map (fun p => (p.1, assetWeight cfg p.1 p.2)) = worths cfg rs := by
    rw [List.map_map, worths]
    refine List.map_congr_left fun r hr => ?_
    have hspent : (overlay cfg db.tokens r).2.lookup "spent" = some "0" := by
      have := FMap.lookup_putAll_of_mem (cfg.codec.names_nodup r) (cfg.codec.spent_mem r)
        (hgetall db.tokens (cfg.recordKey r))
      simpa [overlay, hun r hr] using this
    have hamount : (overlay cfg db.tokens r).2.lookup "amount_wats" = some (cfg.codec.amountWats r).toText :=
      FMap.lookup_putAll_of_mem (cfg.codec.names_nodup r) (cfg.codec.amount_mem r) _
    have hkey : (overlay cfg db.tokens r).1 = cfg.recordKey r := rfl
    simp [assetWeight, hkey, ofAsset_recordKey, hspent, storedAmount, readAmount, hamount, I64.ofText_toText]
  rw [hworths] at htransfer
  exact htransfer

/-- A batch of claimed keys is refused and leaves the store alone. -/
theorem insert_declined (hne : rs ≠ []) (hall : ∀ r ∈ rs, Claimed db.tokens (cfg.recordKey r)) :
    (insertTokens cfg rs db).1 ≠ .ok () ∧ (insertTokens cfg rs db).2 = db := by
  obtain ⟨c, hsub, -, hun, -, hdb, hiff⟩ := insertTokens_spec cfg rs db
  have hnil : c = [] := List.eq_nil_iff_forall_not_mem.2 fun r hr => hun r hr (hall r (hsub.subset hr))
  subst hnil
  exact ⟨fun hok => hne (hiff.1 hok).symm, hdb⟩

theorem replace_declined (h : ¬ (seals db.tokens).Open (inputKeys cfg ns op) ∨
    (op.inputs = [] ∧ ∃ k, (outputKeys cfg ns op).head? = some k ∧ k ∈ db.tokens)) :
    (batchReplace cfg now ns [op] db).2 = db := by
  rw [batchReplace_single_db, replaceLua_unchanged_iff, inputsReady_iff]
  rcases h with h | ⟨hin, hout⟩
  · exact Or.inl h
  · exact Or.inr ⟨hin, Or.inl hout⟩

/-- The outputs with the amounts they find in their slices. -/
def outputWorths (cfg : StoreConfig ρ) (ns : Namespace) (op : ReplaceOp ρ) : List (String × Int) :=
  op.outputs.zipIdx.map fun p => (cfg.tokenKey ns (cfg.codec.publicHash p.1), sliceAmount cfg op p.2)

theorem outputWorths_keys : (outputWorths cfg ns op).map Prod.fst = outputKeys cfg ns op := by
  simp only [outputWorths, outputKeys, List.map_map]
  conv_rhs => rw [← List.zipIdx_map_fst 0 op.outputs, List.map_map]
  rfl

/-- An accepted replace moves weight from its inputs to its outputs. -/
theorem replace_transfer (hok : (batchReplace cfg now ns [op] db).1 = [.ok])
    (hun : ∀ o ∈ op.outputs, cfg.codec.spent o = false) :
    FMap.Transfer (assetWeight cfg) db.tokens (batchReplace cfg now ns [op] db).2.tokens (inputKeys cfg ns op)
      (outputWorths cfg ns op) := by
  obtain ⟨hopen, hfresh, -⟩ := batchReplace_single_ok_iff.1 hok
  obtain ⟨hframe, hmark, hslice⟩ := lookup_accepted hok
  generalize (batchReplace cfg now ns [op] db).2.tokens = t' at hframe hmark hslice ⊢
  refine ⟨by rw [outputWorths_keys]; exact hfresh.1, fun k hk => ?_, fun k hk => ?_, fun p hp => ?_, fun p hp => ?_,
    fun k hin hout => ?_⟩
  · rw [outputWorths_keys]
    exact hopen.notMem hfresh hk
  · simp [FMap.weight, hmark k hk, assetWeight, lookup_spentFields]
  · have hk : p.1 ∈ (outputWorths cfg ns op).map Prod.fst := List.mem_map.2 ⟨p, hp, rfl⟩
    rw [outputWorths_keys] at hk
    exact FMap.weight_of_notMem (seals_eq_none.1 (hfresh.2 _ hk))
  · obtain ⟨⟨o, i⟩, hoi, rfl⟩ := List.mem_map.1 hp
    have hget : op.outputs[i]? = some o := List.mem_zipIdx_iff_getElem?.1 hoi
    obtain ⟨hi, rfl⟩ := List.getElem?_eq_some_iff.1 hget
    have hasset : cfg.keys.OfAsset cfg.name (cfg.tokenKey ns (cfg.codec.publicHash op.outputs[i])) :=
      KeyStrategy.ofAsset_tokenKey _ _ _ _
    rw [FMap.weight, hslice i hi]
    simp only [Option.map_some, Option.getD_some, assetWeight, hasset, slice_unspent hun i, ne_eq, not_false_eq_true,
      and_self, if_true]
    rfl
  · exact hframe k hin (by rwa [outputWorths_keys] at hout)

/-- A burn takes the weight of its key, whatever it answers. -/
theorem burn_transfer (ops : String × BurnRecord) : FMap.Transfer (assetWeight cfg) db.tokens
    (batchBurn cfg now ns [ops] db).2.tokens [cfg.tokenKey ns ops.1] [] := by
  have hdb : (batchBurn cfg now ns [ops] db).2 = (burnOne cfg now ns ops db).2 := rfl
  rw [hdb]
  refine ⟨by simp, by simp, fun k hk => ?_, by simp, by simp, fun k hk _ => ?_⟩
  · obtain rfl : k = cfg.tokenKey ns ops.1 := by simpa using hk
    rcases burnLua_cases (cfg.tokenKey ns ops.1) (cfg.keys.burnKey cfg.name ns ops.2.id) (cfg.chrono.toRfc3339 now)
      (.burn ops.2) db with ⟨hr, e, he⟩ | ⟨hr, he⟩
    · -- refused: the key is absent or spent
      have hsame : (burnOne cfg now ns ops db).2 = db := by simp [burnOne, burnKeyOf, he]
      rw [hsame, FMap.weight]
      cases hlook : db.tokens.lookup (cfg.tokenKey ns ops.1) with
      | none => rfl
      | some f =>
        have hspent : f.lookup "spent" = some "1" := by
          by_contra hne
          exact hr ⟨Finmap.lookup_isSome.1 (by simp [hlook]), by simpa [Spent, hget, hlook] using hne⟩
        simp [assetWeight, hspent]
    · have hmark : (burnOne cfg now ns ops db).2.tokens = markSpent (cfg.chrono.toRfc3339 now) db.tokens
          (cfg.tokenKey ns ops.1) := by
        simp [burnOne, burnKeyOf, he]
      simp [hmark, FMap.weight, lookup_markSpent, assetWeight, lookup_spentFields]
  · exact lookup_burnLua_of_ne fun _ => by simpa [burnKeyOf] using hk

end Redis

/-! ## DynamoDB -/

namespace Dynamo

/-- The `N` attribute, nothing when it is absent or malformed. -/
def storedAmount (item : Item) : Int :=
  match item.lookup "amount_wats" with
  | some (.N n) => ((I64.ofText n).map I64.val).getD 0
  | _ => 0

def assetWeight (k : String) (item : Item) : Int :=
  if cfg.keys.OfAsset cfg.name k ∧ item.lookup "spent" = some (.Bool false) then storedAmount item else 0

variable {cfg} {rs : List ρ} {now : DateTime} {ns : Namespace} {op : ReplaceOp ρ} {db : Db}

theorem lookup_amount_itemFor (ns : Namespace) (r : ρ) :
    (itemFor cfg ns r).lookup "amount_wats" = some (.N (cfg.codec.amountWats r).toText) := by
  have hnames : ((cfg.codec.toFields r).map attributeOf).map Prod.fst = (cfg.codec.toFields r).map Prod.fst := by
    rw [List.map_map]
    rfl
  have hmem : ("amount_wats", AttributeValue.N (cfg.codec.amountWats r).toText) ∈
      (cfg.codec.toFields r).map attributeOf :=
    List.mem_map.2 ⟨_, cfg.codec.amount_mem r, rfl⟩
  exact FMap.lookup_putAll_of_mem (hnames ▸ cfg.codec.names_nodup r) hmem _

/-- A stored unspent record weighs its amount. -/
theorem assetWeight_itemFor {r : ρ} (hun : cfg.codec.spent r = false) (ns ns' : Namespace) (hash : String) :
    assetWeight cfg (cfg.tokenKey ns hash) (itemFor cfg ns' r) = (cfg.codec.amountWats r).val := by
  have hasset : cfg.keys.OfAsset cfg.name (cfg.tokenKey ns hash) := KeyStrategy.ofAsset_tokenKey _ _ _ _
  simp [assetWeight, hasset, lookup_spent_itemFor, hun, storedAmount, lookup_amount_itemFor, I64.ofText_toText]

/-- Without failures, chunks that name no key twice are put as they are. -/
theorem acks_calm : ∀ {chunks : List (List ρ)}, (∀ chunk ∈ chunks, (chunk.map cfg.recordKey).Nodup) →
    acks cfg [] chunks = (chunks.flatten.map (putOf cfg), true)
  | [], _ => rfl
  | chunk :: chunks, h => by
    have hhead : ¬ Refused cfg (.done []) chunk := by
      rintro (hf | hnd)
      · cases hf
      · exact hnd (h chunk List.mem_cons_self)
    have hrest := acks_calm fun c hc => h c (List.mem_cons_of_mem _ hc)
    simp [acks, hhead, hrest, ackedOf]

theorem acked_calm (hnd : (rs.map cfg.recordKey).Nodup) : AllCarriedOut cfg .calm rs ∧
    acked cfg .calm rs = rs.map (putOf cfg) := by
  have hflat : (Stride.chunks 25 rs).flatten = rs := Stride.flatten_chunks (by decide) rs
  have hchunks : ∀ chunk ∈ Stride.chunks 25 rs, (chunk.map cfg.recordKey).Nodup := by
    intro chunk hchunk
    have hsub : chunk.Sublist rs := hflat ▸ List.sublist_flatten_of_mem hchunk
    exact hnd.sublist (hsub.map _)
  have hacks := acks_calm hchunks
  rw [hflat] at hacks
  exact ⟨congrArg Prod.snd hacks, congrArg Prod.fst hacks⟩

theorem insert_transfer (hnew : NewKeys cfg rs (seals db.tokens)) (hun : ∀ r ∈ rs, cfg.codec.spent r = false) :
    (insertTokens cfg .calm rs db).1 = .ok () ∧
      FMap.Transfer (assetWeight cfg) db.tokens (insertTokens cfg .calm rs db).2.tokens [] (worths cfg rs) := by
  obtain ⟨hall, hacked⟩ : AllCarriedOut cfg .calm rs ∧ acked cfg .calm rs = rs.map (putOf cfg) :=
    acked_calm hnew.1
  refine ⟨insertTokens_ok_iff.2 hall, ?_⟩
  rw [insertTokens_eq, hacked]
  have htransfer := FMap.transfer_putAll (w := assetWeight cfg) (m := db.tokens) (l := rs.map (putOf cfg))
    (by rw [putOf_keys]; exact hnew.1) fun p hp => by
      obtain ⟨r, hr, rfl⟩ := List.mem_map.1 hp
      exact FMap.weight_of_notMem (seals_eq_none.1 (hnew.2 _ (List.mem_map.2 ⟨r, hr, rfl⟩)))
  have hworths : (rs.map (putOf cfg)).map (fun p => (p.1, assetWeight cfg p.1 p.2)) = worths cfg rs := by
    rw [List.map_map, worths]
    exact List.map_congr_left fun r hr => Prod.ext rfl (assetWeight_itemFor (hun r hr) _ _ _)
  rw [hworths] at htransfer
  exact htransfer

/-- A batch whose first chunk repeats a key is refused and leaves the store alone. -/
theorem insert_declined (h : ¬ ((rs.take 25).map cfg.recordKey).Nodup) :
    (insertTokens cfg .calm rs db).1 ≠ .ok () ∧ (insertTokens cfg .calm rs db).2 = db := by
  have hacks : acks cfg [] (Stride.chunks 25 rs) = ([], false) := by
    cases rs with
    | nil => simp at h
    | cons r rs =>
      have href : Refused cfg (.done []) ((r :: rs).take 25) := Or.inr h
      exact if_pos href
  have hcarried : ¬ AllCarriedOut cfg .calm rs := fun hall =>
    absurd (hall.symm.trans (congrArg Prod.snd hacks)) (by decide)
  have hacked : acked cfg .calm rs = [] := congrArg Prod.fst hacks
  refine ⟨fun hok => hcarried (insertTokens_ok_iff.1 hok), ?_⟩
  rw [insertTokens_eq, hacked]
  rfl

/-- The outputs under the namespace of the call. -/
def outputWorths (cfg : StoreConfig ρ) (ns : Namespace) (op : ReplaceOp ρ) : List (String × Int) :=
  op.outputs.map fun o => (cfg.tokenKey ns (cfg.codec.publicHash o), (cfg.codec.amountWats o).val)

theorem outputWorths_keys : (outputWorths cfg ns op).map Prod.fst = outputKeys cfg ns op := by
  rw [outputWorths, List.map_map]
  rfl

theorem replace_transfer (hok : (execReplace cfg now ns op db).1 = .ok ())
    (hun : ∀ o ∈ op.outputs, cfg.codec.spent o = false) :
    FMap.Transfer (assetWeight cfg) db.tokens (execReplace cfg now ns op db).2.tokens (inputKeys cfg ns op)
      (outputWorths cfg ns op) := by
  obtain ⟨-, -, hopen, hfresh⟩ := execReplace_ok_iff.1 hok
  have hlook : ∀ k, k ∉ outputKeys cfg ns op → (execReplace cfg now ns op db).2.tokens.lookup k =
      if k ∈ inputKeys cfg ns op then some (spendItem (cfg.chrono.toRfc3339 now) ((db.tokens.lookup k).getD ∅))
      else db.tokens.lookup k := fun k hk => by
    rw [execReplace_tokens hok, lookup_replaced, FMap.lastPut_eq_none_iff.2 (by rwa [outputPuts_keys]), Option.none_or]
  refine ⟨by rw [outputWorths_keys]; exact hfresh.1, fun k hk => ?_, fun k hk => ?_, fun p hp => ?_, fun p hp => ?_,
    fun k hin hout => ?_⟩
  · rw [outputWorths_keys]
    exact hopen.notMem hfresh hk
  · rw [FMap.weight, hlook k (hopen.notMem hfresh hk), if_pos hk]
    simp [assetWeight, lookup_spent_spendItem]
  · have hk : p.1 ∈ (outputWorths cfg ns op).map Prod.fst := List.mem_map.2 ⟨p, hp, rfl⟩
    rw [outputWorths_keys] at hk
    exact FMap.weight_of_notMem (seals_eq_none.1 (hfresh.2 _ hk))
  · obtain ⟨o, ho, rfl⟩ := List.mem_map.1 hp
    have hput : FMap.lastPut (outputPuts cfg ns op) (cfg.tokenKey ns (cfg.codec.publicHash o)) =
        some (itemFor cfg ns o) :=
      FMap.lastPut_of_mem (by rw [outputPuts_keys]; exact hfresh.1) (List.mem_map.2 ⟨o, ho, rfl⟩)
    rw [FMap.weight, execReplace_tokens hok, lookup_replaced, hput]
    exact assetWeight_itemFor (hun o ho) _ _ _
  · rw [outputWorths_keys] at hout
    rw [hlook k hout, if_neg hin]

theorem weight_of_not_open {t : Tokens} {k : String} (h : seals t k ≠ some false) :
    FMap.weight (assetWeight cfg) t k = 0 := by
  rw [Ne, seals_eq_open] at h
  rw [FMap.weight]
  cases hlook : t.lookup k with
  | none => rfl
  | some item =>
    have hclosed : item.lookup "spent" ≠ some (.Bool false) := by simpa [hlook] using h
    simp [assetWeight, hclosed]

theorem burn_transfer (ops : String × BurnRecord) : FMap.Transfer (assetWeight cfg) db.tokens
    (batchBurn cfg now ns [ops] db).2.tokens [cfg.tokenKey ns ops.1] [] := by
  have hone : batchBurn cfg now ns [ops] db = execBurn cfg now ns ops.1 ops.2 db := batchBurn_single _ _
  rw [hone]
  rcases burn_cases cfg now ns ops.1 ops.2 db with ⟨hnot, e, he⟩ | ⟨-, he⟩
  · rw [he]
    refine ⟨by simp, by simp, fun k hk => ?_, by simp, by simp, fun _ _ _ => rfl⟩
    obtain rfl : k = cfg.tokenKey ns ops.1 := by simpa using hk
    exact weight_of_not_open hnot
  · rw [he]
    refine ⟨by simp, by simp, fun k hk => ?_, by simp, by simp, fun k hk _ => ?_⟩
    · obtain rfl : k = cfg.tokenKey ns ops.1 := by simpa using hk
      simp [FMap.weight, assetWeight, lookup_spent_spendItem]
    · have hne : k ≠ cfg.tokenKey ns ops.1 := by simpa using hk
      exact Finmap.lookup_insert_of_ne _ hne

end Dynamo

/-! ## FoundationDB -/

namespace Fdb

/-- The number member, nothing when it is absent or out of range. -/
def storedAmount (doc : Doc) : Int := ((docI64 doc "amount_wats").map I64.val).getD 0

def assetWeight (k : String) (doc : Doc) : Int :=
  if cfg.keys.OfAsset cfg.name k ∧ alreadySpent doc = false then storedAmount doc else 0

/-- The JSON form of a record says what it is worth. -/
def JsonAmounts : Prop := ∀ r, storedAmount (cfg.codec.toJson r) = (cfg.codec.amountWats r).val

variable {cfg} {rs : List ρ} {now : DateTime} {ns : Namespace} {op : ReplaceOp ρ} {db : Db}

theorem weight_of_closed {t : Tokens} {k : String} (h : seals t k = some true) :
    FMap.weight (assetWeight cfg) t k = 0 := by
  rw [seals] at h
  obtain ⟨doc, hdoc, hspent⟩ := Option.map_eq_some_iff.1 h
  simp [FMap.weight, hdoc, assetWeight, hspent]

theorem weight_of_not_open {t : Tokens} {k : String} (h : seals t k ≠ some false) :
    FMap.weight (assetWeight cfg) t k = 0 := by
  cases hs : seals t k with
  | none => exact FMap.weight_of_notMem (seals_eq_none.1 hs)
  | some closed =>
    cases closed with
    | true => exact weight_of_closed hs
    | false => exact absurd hs h

theorem assetWeight_entryOf {r : ρ} (hjson : JsonAmounts cfg) (hun : cfg.codec.spent r = false) :
    assetWeight cfg (entryOf cfg r).1 (entryOf cfg r).2 = (cfg.codec.amountWats r).val := by
  have hasset : cfg.keys.OfAsset cfg.name (entryOf cfg r).1 := ofAsset_recordKey cfg r
  have hopen : alreadySpent (entryOf cfg r).2 = false := by
    simp [entryOf, alreadySpent, cfg.codec.json_spent, hun, Json.asBool]
  rw [assetWeight, if_pos ⟨hasset, hopen⟩]
  exact hjson r

theorem entryOf_keys (rs : List ρ) : (rs.map (entryOf cfg)).map Prod.fst = rs.map cfg.recordKey := by
  rw [List.map_map]
  rfl

theorem entryOf_worths (hjson : JsonAmounts cfg) (hun : ∀ r ∈ rs, cfg.codec.spent r = false) :
    (rs.map (entryOf cfg)).map (fun p => (p.1, assetWeight cfg p.1 p.2)) = worths cfg rs := by
  rw [List.map_map, worths]
  exact List.map_congr_left fun r hr => Prod.ext rfl (assetWeight_entryOf hjson (hun r hr))

theorem insert_transfer (hjson : JsonAmounts cfg) (hnew : NewKeys cfg rs (seals db.tokens))
    (hun : ∀ r ∈ rs, cfg.codec.spent r = false) : (insertTokens cfg rs db).1 = .ok () ∧
      FMap.Transfer (assetWeight cfg) db.tokens (insertTokens cfg rs db).2.tokens [] (worths cfg rs) := by
  have hok := insertTokens_ok_iff.2 hnew
  refine ⟨hok, ?_⟩
  rw [insertTokens_tokens, if_pos hok, ← entryOf_worths hjson hun]
  refine FMap.transfer_putAll (by rw [entryOf_keys]; exact hnew.1) fun p hp => ?_
  obtain ⟨r, hr, rfl⟩ := List.mem_map.1 hp
  exact FMap.weight_of_notMem (seals_eq_none.1 (hnew.2 _ (List.mem_map.2 ⟨r, hr, rfl⟩)))

theorem replace_transfer (hjson : JsonAmounts cfg) (hok : (execReplace cfg now ns op db).1 = .ok ())
    (hun : ∀ o ∈ op.outputs, cfg.codec.spent o = false) :
    FMap.Transfer (assetWeight cfg) db.tokens (execReplace cfg now ns op db).2.tokens (inputKeys cfg ns op)
      (worths cfg op.outputs) := by
  obtain ⟨hnodup, hopen, hfresh⟩ := execReplace_ok_iff.1 hok
  have hclosed := (execReplace_exchanged hok).closed
  have hkeys : (worths cfg op.outputs).map Prod.fst = ownKeys cfg op := by
    rw [worths, List.map_map]
    rfl
  refine ⟨by rw [hkeys]; exact hfresh.1, fun k hk => ?_, fun k hk => weight_of_closed (hclosed k hk), fun p hp => ?_,
    fun p hp => ?_, fun k hin hout => ?_⟩
  · rw [hkeys]
    exact hopen.notMem hfresh hk
  · have hk : p.1 ∈ ownKeys cfg op := hkeys ▸ List.mem_map.2 ⟨p, hp, rfl⟩
    exact FMap.weight_of_notMem (seals_eq_none.1 (hfresh.2 _ hk))
  · obtain ⟨o, ho, rfl⟩ := List.mem_map.1 hp
    have hput : (execReplace cfg now ns op db).2.tokens.lookup (cfg.recordKey o) = some (entryOf cfg o).2 := by
      have hnd : ((op.outputs.map (entryOf cfg)).map Prod.fst).Nodup := by
        rw [entries_keys]
        exact hfresh.1
      have hmem : (cfg.recordKey o, (entryOf cfg o).2) ∈ op.outputs.map (entryOf cfg) :=
        List.mem_map.2 ⟨o, ho, rfl⟩
      rw [execReplace_tokens hok]
      exact FMap.lookup_putAll_of_mem hnd hmem _
    rw [FMap.weight, hput]
    exact assetWeight_entryOf hjson (hun o ho)
  · rw [hkeys] at hout
    rw [execReplace_tokens hok, FMap.lookup_putAll_of_notMem (by rwa [entries_keys]), lookup_spendAll _ _ _ _ hnodup,
      if_neg hin]

theorem burn_transfer (ops : String × BurnRecord) : FMap.Transfer (assetWeight cfg) db.tokens
    (batchBurn cfg now ns [ops] db).2.tokens [cfg.tokenKey ns ops.1] [] := by
  have hone : batchBurn cfg now ns [ops] db = execBurn cfg now ns ops.1 ops.2 db := batchBurn_single _ _
  rw [hone]
  rcases burn_cases cfg now ns ops.1 ops.2 db with ⟨hnot, e, he⟩ | ⟨-, doc, -, he⟩
  · rw [he]
    refine ⟨by simp, by simp, fun k hk => ?_, by simp, by simp, fun _ _ _ => rfl⟩
    obtain rfl : k = cfg.tokenKey ns ops.1 := by simpa using hk
    exact weight_of_not_open hnot
  · rw [he]
    refine ⟨by simp, by simp, fun k hk => weight_of_closed ?_, by simp, by simp, fun k hk _ => ?_⟩
    · obtain rfl : k = cfg.tokenKey ns ops.1 := by simpa using hk
      rw [seals_insert, if_pos rfl, alreadySpent_spendDoc]
    · have hne : k ≠ cfg.tokenKey ns ops.1 := by simpa using hk
      exact Finmap.lookup_insert_of_ne _ hne

end Fdb

end

end Webycash
