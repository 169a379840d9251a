import Webycash.Storage.Accept
/-!
# What an accepted replace does to the stored amounts (Redis)

The script never looks at `amount_wats`: the records it closes keep theirs, the records it makes
get whatever their slice of `ARGV` carries. `conserved_iff` compares the two sums;
`unspentTotal_of_fair` turns an equal sum into an unchanged total of every namespace.
-/

namespace Webycash.Redis

open Stride

/-- The amount `from_fields` reads, nothing when it is absent or malformed. -/
def storedAmount (f : Fields) : Int := ((readAmount f).map I64.val).getD 0

def amountAt (t : Tokens) (k : String) : Int := FMap.weight (fun _ => storedAmount) t k

/-- The keys a step turned from unspent to spent. -/
def spentBy (t t' : Tokens) : Finset String := t'.keys.filter fun k => Ready t k ∧ Spent t' k

/-- The keys a step inserted. -/
def insertedBy (t t' : Tokens) : Finset String := t'.keys \ t.keys

/-- What became spent was worth what was inserted. -/
def Conserved (t t' : Tokens) : Prop := ∑ k ∈ spentBy t t', amountAt t k = ∑ k ∈ insertedBy t t', amountAt t' k

instance decidableConserved (t t' : Tokens) : Decidable (Conserved t t') := inferInstanceAs (Decidable (_ = _))

section

variable {ρ : Type} {cfg : StoreConfig ρ} {now : DateTime} {ns : Namespace} {op : ReplaceOp ρ} {db : Db}

/-- What a key of the namespace adds to its unspent total. -/
def unspentWeight (cfg : StoreConfig ρ) (ns : Namespace) (k : String) (f : Fields) : Int :=
  if cfg.keys.Owns cfg.name ns k ∧ f.lookup "spent" ≠ some "1" then storedAmount f else 0

/-- The total stored amount of the unspent records of a namespace. -/
def unspentTotal (cfg : StoreConfig ρ) (ns : Namespace) (t : Tokens) : Int := FMap.total (unspentWeight cfg ns) t

/-- The amount output `i` finds in its slice. -/
def sliceAmount (cfg : StoreConfig ρ) (op : ReplaceOp ρ) (i : Nat) : Int :=
  storedAmount (FMap.ofPairs (outputSlice cfg op i))

/-- The amounts the distinct inputs hold are the amounts the outputs get. -/
def FairOp (cfg : StoreConfig ρ) (ns : Namespace) (op : ReplaceOp ρ) (t : Tokens) : Prop :=
  ∑ k ∈ (inputKeys cfg ns op).toFinset, amountAt t k = ((List.range op.outputs.length).map (sliceAmount cfg op)).sum

instance decidableFairOp (t : Tokens) : Decidable (FairOp cfg ns op t) := inferInstanceAs (Decidable (_ = _))

/-- Everything an accepted replace leaves under its keys. -/
theorem lookup_accepted (hok : (batchReplace cfg now ns [op] db).1 = [.ok]) :
    (∀ k, k ∉ inputKeys cfg ns op → k ∉ outputKeys cfg ns op →
      (batchReplace cfg now ns [op] db).2.tokens.lookup k = db.tokens.lookup k) ∧
    (∀ k ∈ inputKeys cfg ns op, (batchReplace cfg now ns [op] db).2.tokens.lookup k =
      some (spentFields (cfg.chrono.toRfc3339 now) (hgetall db.tokens k))) ∧
    ∀ (i : Nat) (hi : i < op.outputs.length), (batchReplace cfg now ns [op] db).2.tokens.lookup
      (cfg.tokenKey ns (cfg.codec.publicHash op.outputs[i])) = some (FMap.ofPairs (outputSlice cfg op i)) := by
  obtain ⟨hopen, hfresh, hfill⟩ := batchReplace_single_ok_iff.1 hok
  have hr := inputsReady_iff.2 hopen
  have hins := insertable_iff.2 ⟨hfresh, hfill⟩
  rw [batchReplace_single_db]
  refine ⟨?_, ?_, fun i hi => lookup_output hr hins hi⟩
  all_goals
    rcases replaceLua_cases cfg now ns op db with ⟨h, -⟩ | ⟨-, m, reply, -, -, hnew, -, -, he⟩
    · exact absurd hr h
    have hputs : ∀ k, k ∉ outputKeys cfg ns op → (afterOutputs cfg now ns op m db.tokens).lookup k =
        (markInputs (cfg.chrono.toRfc3339 now) db.tokens (inputKeys cfg ns op)).lookup k := fun k hk => by
      refine FMap.lookup_putAll_of_notMem (fun hm => hk ?_) _
      rw [List.map_take, outputPuts_keys] at hm
      exact List.mem_of_mem_take hm
    rw [he]
  · intro k hin hout
    rw [hputs k hout, lookup_markInputs, if_neg hin]
  · intro k hin
    rw [hputs k (hopen.notMem hfresh hin), lookup_markInputs, if_pos hin]

/-- No slice of unspent outputs says spent: every `spent` pair in `ARGV` is `0`. -/
theorem slice_unspent (hun : ∀ o ∈ op.outputs, cfg.codec.spent o = false) (i : Nat) :
    (FMap.ofPairs (outputSlice cfg op i)).lookup "spent" ≠ some "1" := by
  intro h
  rw [FMap.lookup_ofPairs] at h
  obtain ⟨l, hl, hmem⟩ := List.mem_flatten.1 (mem_of_mem_slice (FMap.lastPut_mem h))
  obtain ⟨o, ho, rfl⟩ := List.mem_map.1 hl
  have hfield := cfg.codec.lookup_fieldMap ((cfg.codec.entries_perm o).mem_iff.1 hmem)
  rw [cfg.codec.lookup_spent, hun o ho] at hfield
  simp at hfield

theorem spentBy_accepted (hok : (batchReplace cfg now ns [op] db).1 = [.ok]) :
    spentBy db.tokens (batchReplace cfg now ns [op] db).2.tokens = (inputKeys cfg ns op).toFinset := by
  obtain ⟨hopen, hfresh, -⟩ := batchReplace_single_ok_iff.1 hok
  obtain ⟨hframe, hin, -⟩ := lookup_accepted hok
  ext k
  simp only [spentBy, Finset.mem_filter, Finmap.mem_keys, List.mem_toFinset]
  constructor
  · rintro ⟨-, hready, hspent⟩
    by_contra hk
    have hout : k ∉ outputKeys cfg ns op := fun h => by
      have := hfresh.2 k h
      rw [seals_eq_open.2 hready] at this
      cases this
    exact hready.2 ((spent_congr (hframe k hk hout)).1 hspent)
  · intro hk
    have hsp : Spent (batchReplace cfg now ns [op] db).2.tokens k := by
      rw [Spent, hget, hin k hk]
      simp [lookup_spentFields]
    exact ⟨mem_of_spent hsp, seals_eq_open.1 (hopen k hk), hsp⟩

theorem insertedBy_accepted (hok : (batchReplace cfg now ns [op] db).1 = [.ok]) :
    insertedBy db.tokens (batchReplace cfg now ns [op] db).2.tokens = (outputKeys cfg ns op).toFinset := by
  obtain ⟨hopen, hfresh, -⟩ := batchReplace_single_ok_iff.1 hok
  have hex := batchReplace_exchanged hok
  ext k
  simp only [insertedBy, Finset.mem_sdiff, Finmap.mem_keys, List.mem_toFinset, ← seals_eq_none]
  constructor
  · rintro ⟨hnew, hold⟩
    by_contra hk
    have hin : k ∉ inputKeys cfg ns op := fun h => by
      have := hopen k h
      rw [hold] at this
      cases this
    exact seals_eq_none.1 ((hex.frame k hin hk).trans hold) hnew
  · intro hk
    refine ⟨?_, hfresh.2 k hk⟩
    by_contra hnot
    exact hex.made k hk (seals_eq_none.2 hnot)

/-- What the outputs hold, key by key, is what their slices carry, index by index. -/
theorem sum_outputs {f : String → Int} {g : Nat → Int} (hnd : (outputKeys cfg ns op).Nodup)
    (h : ∀ (i : Nat) (hi : i < op.outputs.length), f (cfg.tokenKey ns (cfg.codec.publicHash op.outputs[i])) = g i) :
    ∑ k ∈ (outputKeys cfg ns op).toFinset, f k = ((List.range op.outputs.length).map g).sum := by
  rw [List.sum_toFinset f hnd]
  congr 1
  refine List.ext_getElem (by simp [outputKeys]) fun i h₁ h₂ => ?_
  have hi : i < op.outputs.length := by simpa [outputKeys] using h₁
  simpa [outputKeys] using h i hi

/-- **Conservation, at one accepted replace.** -/
theorem conserved_iff (hok : (batchReplace cfg now ns [op] db).1 = [.ok]) :
    Conserved db.tokens (batchReplace cfg now ns [op] db).2.tokens ↔ FairOp cfg ns op db.tokens := by
  obtain ⟨-, hfresh, -⟩ := batchReplace_single_ok_iff.1 hok
  obtain ⟨-, -, hout⟩ := lookup_accepted hok
  rw [Conserved, spentBy_accepted hok, insertedBy_accepted hok, FairOp, sum_outputs hfresh.1 fun i hi => ?_]
  rw [amountAt, FMap.weight, hout i hi]
  rfl

/-! ## Totals of a namespace -/

theorem weight_input {ns' : Namespace} {k : String} (hk : Ready db.tokens k) :
    FMap.weight (unspentWeight cfg ns') db.tokens k = if cfg.keys.Owns cfg.name ns' k then amountAt db.tokens k
      else 0 := by
  obtain ⟨f, hf⟩ := Finmap.lookup_isSome.2 hk.1 |> Option.isSome_iff_exists.1
  have hs : f.lookup "spent" ≠ some "1" := by simpa [hget, hf] using hk.2
  simp only [amountAt, FMap.weight, hf, Option.map_some, Option.getD_some, unspentWeight, hs, ne_eq, not_false_eq_true,
    and_true]

/-- Every key of the op is owned by a namespace, or none is. -/
theorem owns_opKey_iff {ns' : Namespace} {h : String} (hns : KeyStrategy.PlainNamespace ns) (hh : ':' ∉ h.toList) :
    cfg.keys.Owns cfg.name ns' (cfg.tokenKey ns h) ↔
      cfg.keys.tokenPrefix cfg.name ns' = cfg.keys.tokenPrefix cfg.name ns := by
  refine ⟨KeyStrategy.tokenPrefix_eq_of_owns hns hh, fun he => ?_⟩
  rw [KeyStrategy.Owns, he]
  exact KeyStrategy.owns_tokenKey

/-- **Totals, at one accepted fair replace.** The unspent total of every namespace stays. -/
theorem unspentTotal_of_fair (hok : (batchReplace cfg now ns [op] db).1 = [.ok]) (hfair : FairOp cfg ns op db.tokens)
    (hun : ∀ o ∈ op.outputs, cfg.codec.spent o = false) (hns : KeyStrategy.PlainNamespace ns)
    (hin : ∀ h ∈ op.inputs, ':' ∉ h.toList) (hout : ∀ o ∈ op.outputs, ':' ∉ (cfg.codec.publicHash o).toList)
    (ns' : Namespace) :
    unspentTotal cfg ns' (batchReplace cfg now ns [op] db).2.tokens = unspentTotal cfg ns' db.tokens := by
  obtain ⟨hopen, hfresh, -⟩ := batchReplace_single_ok_iff.1 hok
  obtain ⟨hframe, hmark, hslice⟩ := lookup_accepted hok
  generalize (batchReplace cfg now ns [op] db).2.tokens = t' at hframe hmark hslice ⊢
  have hdisj : Disjoint (inputKeys cfg ns op).toFinset (outputKeys cfg ns op).toFinset :=
    Finset.disjoint_left.2 fun k hk hk' => hopen.notMem hfresh (List.mem_toFinset.1 hk) (List.mem_toFinset.1 hk')
  have hagree : ∀ k, k ∉ (inputKeys cfg ns op).toFinset ∪ (outputKeys cfg ns op).toFinset →
      t'.lookup k = db.tokens.lookup k := by
    intro k hk
    simp only [Finset.mem_union, List.mem_toFinset, not_or] at hk
    exact hframe k hk.1 hk.2
  have hacc := FMap.total_add_of_agree (unspentWeight cfg ns') hagree
  rw [Finset.sum_union hdisj, Finset.sum_union hdisj] at hacc
  -- before: the inputs count, the outputs are not there
  have hbefore : ∑ k ∈ (outputKeys cfg ns op).toFinset, FMap.weight (unspentWeight cfg ns') db.tokens k = 0 :=
    Finset.sum_eq_zero fun k hk =>
      FMap.weight_of_notMem (seals_eq_none.1 (hfresh.2 k (List.mem_toFinset.1 hk)))
  -- after: the inputs are spent, the outputs count
  have hafter : ∑ k ∈ (inputKeys cfg ns op).toFinset, FMap.weight (unspentWeight cfg ns') t' k = 0 :=
    Finset.sum_eq_zero fun k hk => by
      simp [FMap.weight, hmark k (List.mem_toFinset.1 hk), unspentWeight, lookup_spentFields]
  have hins : ∑ k ∈ (inputKeys cfg ns op).toFinset, FMap.weight (unspentWeight cfg ns') db.tokens k =
      if cfg.keys.tokenPrefix cfg.name ns' = cfg.keys.tokenPrefix cfg.name ns then
        ∑ k ∈ (inputKeys cfg ns op).toFinset, amountAt db.tokens k else 0 := by
    have hterm : ∀ k ∈ (inputKeys cfg ns op).toFinset, FMap.weight (unspentWeight cfg ns') db.tokens k =
        if cfg.keys.tokenPrefix cfg.name ns' = cfg.keys.tokenPrefix cfg.name ns then amountAt db.tokens k else 0 := by
      intro k hk
      obtain ⟨h, hh, rfl⟩ := List.mem_map.1 (List.mem_toFinset.1 hk)
      rw [weight_input (seals_eq_open.1 (hopen _ (List.mem_toFinset.1 hk)))]
      simp only [owns_opKey_iff hns (hin h hh)]
    rw [Finset.sum_congr rfl hterm]
    split <;> simp
  have houts : ∑ k ∈ (outputKeys cfg ns op).toFinset, FMap.weight (unspentWeight cfg ns') t' k =
      if cfg.keys.tokenPrefix cfg.name ns' = cfg.keys.tokenPrefix cfg.name ns then
        ((List.range op.outputs.length).map (sliceAmount cfg op)).sum else 0 := by
    rw [sum_outputs (g := fun i => if cfg.keys.tokenPrefix cfg.name ns' = cfg.keys.tokenPrefix cfg.name ns then
      sliceAmount cfg op i else 0) hfresh.1 fun i hi => ?_]
    · split <;> simp
    · simp only [FMap.weight, hslice i hi, Option.map_some, Option.getD_some, unspentWeight,
        owns_opKey_iff hns (hout _ (List.getElem_mem hi)), slice_unspent hun i, ne_eq, not_false_eq_true, and_true]
      rfl
  rw [hbefore, hafter, hins, houts, ← hfair] at hacc
  simp only [unspentTotal]
  omega

/-- Aligned outputs get their own amounts. -/
theorem sliceAmount_of_aligned (hal : LayoutAligned cfg op) {i : Nat} (hi : i < op.outputs.length) :
    sliceAmount cfg op i = (cfg.codec.amountWats op.outputs[i]).val := by
  rw [sliceAmount, (slices_own_iff_aligned op).2 hal i hi, storedAmount, readAmount, cfg.codec.lookup_amount]
  simp [I64.ofText_toText]

theorem sum_sliceAmount_of_aligned (hal : LayoutAligned cfg op) :
    ((List.range op.outputs.length).map (sliceAmount cfg op)).sum =
      (op.outputs.map fun o => (cfg.codec.amountWats o).val).sum := by
  congr 1
  refine List.ext_getElem (by simp) fun i h₁ h₂ => ?_
  have hi : i < op.outputs.length := by simpa using h₁
  simpa using sliceAmount_of_aligned hal hi

end

end Webycash.Redis
