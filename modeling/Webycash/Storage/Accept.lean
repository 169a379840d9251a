import Webycash.Storage.DynamoTrx
import Webycash.Storage.FdbTrx
import Webycash.Storage.RedisReplace
/-!
# One replace on three backends

The three implementations of `batch_replace` against one registry of seals. DynamoDB and
FoundationDB accept what `Seals.Accepts` allows; `REPLACE_LUA` checks all inputs before it
marks any, so a key listed twice passes both checks. `accepted_alike_iff` says exactly when the
three answer alike and every input slot consumes a record of its own.
-/

namespace Webycash

namespace Redis

/-- Present and `spent ≠ 1` is open. -/
def seals (t : Tokens) : Seals String := fun k => (t.lookup k).map fun f => decide (f.lookup "spent" = some "1")

theorem seals_eq_none {t : Tokens} {k : String} : seals t k = none ↔ k ∉ t := by
  rw [seals, Option.map_eq_none_iff, Finmap.lookup_eq_none]

theorem seals_eq_closed {t : Tokens} {k : String} : seals t k = some true ↔ Spent t k := by
  unfold seals Spent hget
  cases t.lookup k <;> simp

theorem seals_eq_open {t : Tokens} {k : String} : seals t k = some false ↔ Ready t k := by
  unfold seals Ready hget
  rw [← Finmap.lookup_isSome]
  cases t.lookup k <;> simp

section

variable {ρ : Type} {cfg : StoreConfig ρ} {now : DateTime} {ns : Namespace} {op : ReplaceOp ρ} {db : Db}

/-- Every output finds arguments in its slice of `ARGV`. -/
def SlicesFilled (cfg : StoreConfig ρ) (op : ReplaceOp ρ) : Prop :=
  ∀ i < op.outputs.length, outputSlice cfg op i ≠ []

instance decidableSlicesFilled (op : ReplaceOp ρ) : Decidable (SlicesFilled cfg op) :=
  inferInstanceAs (Decidable (∀ i < op.outputs.length, outputSlice cfg op i ≠ []))

theorem inputsReady_iff {t : Tokens} : InputsReady cfg ns op t ↔ (seals t).Open (inputKeys cfg ns op) :=
  forall₂_congr fun _ _ => seals_eq_open.symm

theorem insertable_iff {t : Tokens} :
    Insertable cfg ns op t ↔ (seals t).Fresh (outputKeys cfg ns op) ∧ SlicesFilled cfg op := by
  simp only [Insertable, Seals.Fresh, SlicesFilled, seals_eq_none, and_assoc]

/-- **Which single replaces Redis accepts.** Nothing asks the inputs to be distinct. -/
theorem batchReplace_single_ok_iff : (batchReplace cfg now ns [op] db).1 = [.ok] ↔
    (seals db.tokens).Open (inputKeys cfg ns op) ∧ (seals db.tokens).Fresh (outputKeys cfg ns op) ∧
      SlicesFilled cfg op := by
  have hlen : (batchReplace cfg now ns [op] db).1 = [.ok] ↔ (batchReplace cfg now ns [op] db).1[0]? = some .ok := by
    by_cases hR : PipelineRaises cfg now ns [op] db
    · simp [batchReplace_of_raises hR]
    · simp [batchReplace_of_not_raises hR, runReplace]
  rw [hlen, batchReplace_ok_iff (by simp)]
  simp only [List.getElem_cons_zero]
  rw [inputsReady_iff, insertable_iff]
  refine ⟨fun h => h.2, fun h => ⟨?_, h⟩⟩
  rintro ⟨i, hi, -, m, k, hk, -, -, -, hs⟩
  obtain rfl : i = 0 := by simpa using hi
  obtain ⟨hlt, -⟩ := List.getElem?_eq_some_iff.1 hk
  exact h.2.2 m (by simpa [outputKeys] using hlt) hs

theorem batchReplace_single_db : (batchReplace cfg now ns [op] db).2 =
    (replaceLua (replaceCall cfg now ns op) db).2 := by
  rw [batchReplace_db]
  rfl

/-- **An accepted replace is an exchange of seals.** -/
theorem batchReplace_exchanged (h : (batchReplace cfg now ns [op] db).1 = [.ok]) :
    Seals.Exchanged (seals db.tokens) (seals (batchReplace cfg now ns [op] db).2.tokens) (inputKeys cfg ns op)
      (outputKeys cfg ns op) := by
  obtain ⟨hopen, hfresh, hfill⟩ := batchReplace_single_ok_iff.1 h
  have hr := inputsReady_iff.2 hopen
  have hins := insertable_iff.2 ⟨hfresh, hfill⟩
  rw [batchReplace_single_db]
  rcases replaceLua_cases cfg now ns op db with ⟨h, -⟩ | ⟨-, m, reply, -, -, hnew, -, -, he⟩
  · exact absurd hr h
  · refine ⟨fun k hk => ?_, fun k hk => ?_, fun k hin hout => ?_⟩
    · rw [he, seals_eq_closed]
      exact spent_afterOutputs hk hr hnew
    · obtain ⟨o, ho, rfl⟩ := List.mem_map.1 hk
      obtain ⟨i, hi, rfl⟩ := List.mem_iff_getElem.1 ho
      rw [seals, lookup_output hr hins hi]
      simp
    · have hputs : k ∉ ((outputPuts (fieldsPerOutput cfg op.outputs) (flatEntries cfg op) 0
          (outputKeys cfg ns op)).take m).map Prod.fst := by
        rw [List.map_take, outputPuts_keys]
        exact fun hm => hout (List.mem_of_mem_take hm)
      rw [he, seals, seals]
      simp only [afterOutputs]
      rw [FMap.lookup_putAll_of_notMem hputs, lookup_markInputs, if_neg hin]

end

end Redis

/-! ## The same records in three stores -/

section

variable {ρ : Type} {cfg : StoreConfig ρ}

/-- The three stores agree on which keys exist and which are spent. -/
def SameLedger (r : Redis.Db) (d : Dynamo.Db) (f : Fdb.Db) : Prop :=
  Redis.seals r.tokens = Dynamo.seals d.tokens ∧ Dynamo.seals d.tokens = Fdb.seals f.tokens

/-- The registry a list of records stands for. -/
def sealsOf (cfg : StoreConfig ρ) (rs : List ρ) : Seals String :=
  FMap.lastPut (rs.map fun r => (cfg.recordKey r, cfg.codec.spent r))

theorem Redis.seals_ofPairs (rs : List ρ) :
    Redis.seals (FMap.ofPairs (rs.map fun r => (cfg.recordKey r, cfg.codec.fieldMap r))) = sealsOf cfg rs := by
  funext k
  rw [Redis.seals, FMap.lookup_ofPairs, sealsOf, ← FMap.lastPut_map, List.map_map]
  congr 1
  refine List.map_congr_left fun r _ => ?_
  simp only [Function.comp_apply, cfg.codec.lookup_spent]
  cases cfg.codec.spent r <;> rfl

theorem Dynamo.lookup_spent_itemFor (ns : Namespace) (r : ρ) :
    (Dynamo.itemFor cfg ns r).lookup "spent" = some (.Bool (cfg.codec.spent r)) := by
  have hnames : ((cfg.codec.toFields r).map Dynamo.attributeOf).map Prod.fst = (cfg.codec.toFields r).map Prod.fst := by
    rw [List.map_map]
    rfl
  have hmem : ("spent", Dynamo.AttributeValue.Bool (cfg.codec.spent r)) ∈
      (cfg.codec.toFields r).map Dynamo.attributeOf := by
    refine List.mem_map.2 ⟨_, cfg.codec.spent_mem r, ?_⟩
    cases cfg.codec.spent r <;> rfl
  exact FMap.lookup_putAll_of_mem (hnames ▸ cfg.codec.names_nodup r) hmem _

theorem Dynamo.seals_ofPairs (rs : List ρ) : Dynamo.seals (FMap.ofPairs (rs.map (Dynamo.putOf cfg))) =
    sealsOf cfg rs := by
  funext k
  rw [Dynamo.seals, FMap.lookup_ofPairs, sealsOf, ← FMap.lastPut_map, List.map_map]
  congr 1
  refine List.map_congr_left fun r _ => ?_
  simp only [Function.comp_apply, Dynamo.putOf, Dynamo.lookup_spent_itemFor]
  cases cfg.codec.spent r <;> rfl

theorem Fdb.seals_ofPairs (rs : List ρ) : Fdb.seals (FMap.ofPairs (rs.map (Fdb.entryOf cfg))) = sealsOf cfg rs := by
  funext k
  rw [Fdb.seals, FMap.lookup_ofPairs, sealsOf, ← FMap.lastPut_map, List.map_map]
  congr 1
  refine List.map_congr_left fun r _ => ?_
  simp [Fdb.entryOf, Fdb.alreadySpent, cfg.codec.json_spent, Json.asBool]

/-- The tables that hold exactly these records, and the same for FoundationDB. -/
def Dynamo.dbOf (cfg : StoreConfig ρ) (rs : List ρ) : Dynamo.Db :=
  { Dynamo.Db.empty with tokens := FMap.ofPairs (rs.map (Dynamo.putOf cfg)) }

def Fdb.dbOf (cfg : StoreConfig ρ) (rs : List ρ) : Fdb.Db :=
  { Fdb.Db.empty with tokens := FMap.ofPairs (rs.map (Fdb.entryOf cfg)) }

/-- **One logical state.** The three encodings of the same records are the same ledger. -/
theorem sameLedger_dbOf (rs : List ρ) : SameLedger (Redis.dbOf cfg rs) (Dynamo.dbOf cfg rs) (Fdb.dbOf cfg rs) :=
  ⟨(Redis.seals_ofPairs rs).trans (Dynamo.seals_ofPairs rs).symm,
    (Dynamo.seals_ofPairs rs).trans (Fdb.seals_ofPairs rs).symm⟩

/-! ## The verdict -/

/-- An accepted op closes a record of its own for every input slot. -/
def ConsumesEachSlot (accepted : Prop) (before after : Seals String) (ins : List String) : Prop :=
  accepted → ins.Nodup ∧ before.Open ins ∧ ∀ k ∈ ins, after k = some true

theorem consumesEachSlot_of_nodup {accepted : Prop} {before after : Seals String} {ins outs : List String}
    (hnd : accepted → ins.Nodup ∧ before.Open ins) (hex : accepted → Seals.Exchanged before after ins outs) :
    ConsumesEachSlot accepted before after ins :=
  fun h => ⟨(hnd h).1, (hnd h).2, (hex h).closed⟩

/-- What the op and the registry must look like: some input is not open; or the inputs repeat
and the outputs stop Redis too; or the inputs are distinct and either every backend can take
the outputs or none can. -/
def AlikeCondition (cfg : StoreConfig ρ) (ns : Namespace) (op : ReplaceOp ρ) (s : Seals String) : Prop :=
  ¬ s.Open (inputKeys cfg ns op) ∨
  (¬ (inputKeys cfg ns op).Nodup ∧ ¬ (s.Fresh (outputKeys cfg ns op) ∧ Redis.SlicesFilled cfg op)) ∨
  ((inputKeys cfg ns op).Nodup ∧ s.Fresh (outputKeys cfg ns op) ∧ s.Fresh (Fdb.ownKeys cfg op) ∧
    Redis.SlicesFilled cfg op ∧ op.inputs.length + op.outputs.length + 1 ≤ 100) ∨
  ((inputKeys cfg ns op).Nodup ∧ ¬ s.Fresh (Fdb.ownKeys cfg op) ∧
    (¬ s.Fresh (outputKeys cfg ns op) ∨
      (¬ Redis.SlicesFilled cfg op ∧ ¬ op.inputs.length + op.outputs.length + 1 ≤ 100)))

/-- **One replace, three backends.** From one logical state: on every backend an accepted op
closes a record of its own for each input slot, and the three accept the same, if and only if
the op and the state meet `AlikeCondition`. -/
theorem accepted_alike_iff (cfg : StoreConfig ρ) (now : DateTime) (ns : Namespace) (op : ReplaceOp ρ) (r : Redis.Db)
    (d : Dynamo.Db) (f : Fdb.Db) (hsame : SameLedger r d f) :
    (ConsumesEachSlot ((Redis.batchReplace cfg now ns [op] r).1 = [.ok]) (Redis.seals r.tokens)
        (Redis.seals (Redis.batchReplace cfg now ns [op] r).2.tokens) (inputKeys cfg ns op) ∧
      ConsumesEachSlot ((Dynamo.batchReplace cfg now ns [op] d).1 = [.ok]) (Dynamo.seals d.tokens)
        (Dynamo.seals (Dynamo.batchReplace cfg now ns [op] d).2.tokens) (inputKeys cfg ns op) ∧
      ConsumesEachSlot ((Fdb.batchReplace cfg now ns [op] f).1 = [.ok]) (Fdb.seals f.tokens)
        (Fdb.seals (Fdb.batchReplace cfg now ns [op] f).2.tokens) (inputKeys cfg ns op) ∧
      ((Redis.batchReplace cfg now ns [op] r).1 = [.ok] ↔ (Dynamo.batchReplace cfg now ns [op] d).1 = [.ok]) ∧
      ((Dynamo.batchReplace cfg now ns [op] d).1 = [.ok] ↔ (Fdb.batchReplace cfg now ns [op] f).1 = [.ok])) ↔
    AlikeCondition cfg ns op (Redis.seals r.tokens) := by
  obtain ⟨hrd, hdf⟩ := hsame
  have hD : ConsumesEachSlot ((Dynamo.batchReplace cfg now ns [op] d).1 = [.ok]) (Dynamo.seals d.tokens)
      (Dynamo.seals (Dynamo.batchReplace cfg now ns [op] d).2.tokens) (inputKeys cfg ns op) :=
    consumesEachSlot_of_nodup (fun h => have hacc := (Dynamo.batchReplace_single_ok_iff.1 h).2; ⟨hacc.1, hacc.2.1⟩)
      Dynamo.batchReplace_exchanged
  have hF : ConsumesEachSlot ((Fdb.batchReplace cfg now ns [op] f).1 = [.ok]) (Fdb.seals f.tokens)
      (Fdb.seals (Fdb.batchReplace cfg now ns [op] f).2.tokens) (inputKeys cfg ns op) :=
    consumesEachSlot_of_nodup (fun h => have hacc := Fdb.batchReplace_single_ok_iff.1 h; ⟨hacc.1, hacc.2.1⟩)
      Fdb.batchReplace_exchanged
  have hR : ConsumesEachSlot ((Redis.batchReplace cfg now ns [op] r).1 = [.ok]) (Redis.seals r.tokens)
      (Redis.seals (Redis.batchReplace cfg now ns [op] r).2.tokens) (inputKeys cfg ns op) ↔
      ((Redis.batchReplace cfg now ns [op] r).1 = [.ok] → (inputKeys cfg ns op).Nodup) :=
    ⟨fun h hok => (h hok).1, fun h => consumesEachSlot_of_nodup
      (fun hok => ⟨h hok, (Redis.batchReplace_single_ok_iff.1 hok).1⟩) Redis.batchReplace_exchanged⟩
  rw [hR, and_iff_right hD, and_iff_right hF, Redis.batchReplace_single_ok_iff, Dynamo.batchReplace_single_ok_iff,
    Fdb.batchReplace_single_ok_iff, ← hdf, ← hrd]
  unfold AlikeCondition Seals.Accepts
  by_cases hopen : (Redis.seals r.tokens).Open (inputKeys cfg ns op)
  · by_cases hnd : (inputKeys cfg ns op).Nodup <;>
      by_cases hout : (Redis.seals r.tokens).Fresh (outputKeys cfg ns op) <;>
        by_cases hown : (Redis.seals r.tokens).Fresh (Fdb.ownKeys cfg op) <;>
          by_cases hfill : Redis.SlicesFilled cfg op <;> simp [hopen, hnd, hout, hown, hfill]
  · simp [hopen]

end

/-! ## A key listed twice -/

open Redis.Sample

/-- One record listed in two input slots, worth twice its amount as an output. -/
def twiceOp : ReplaceOp RgbFungibleRecord := replaceOp [hash 'a', hash 'a'] [record 'b' 6 none]

/-- Redis accepts it; from the same records DynamoDB and FoundationDB do not. -/
theorem repeated_input_accepted :
    SameLedger (Redis.dbOf cfg [record 'a' 3 none]) (Dynamo.dbOf cfg [record 'a' 3 none])
      (Fdb.dbOf cfg [record 'a' 3 none]) ∧
    (Redis.batchReplace cfg ⟨0⟩ ns [twiceOp] (Redis.dbOf cfg [record 'a' 3 none])).1 = [.ok] ∧
    ¬ (inputKeys cfg ns twiceOp).Nodup ∧
    (Dynamo.batchReplace cfg ⟨0⟩ ns [twiceOp] (Dynamo.dbOf cfg [record 'a' 3 none])).1 ≠ [.ok] ∧
    (Fdb.batchReplace cfg ⟨0⟩ ns [twiceOp] (Fdb.dbOf cfg [record 'a' 3 none])).1 ≠ [.ok] :=
  ⟨sameLedger_dbOf _, by decide +kernel, by decide +kernel, by decide +kernel, by decide +kernel⟩

/-- A split of one record is accepted by all three. -/
theorem plain_split_alike :
    SameLedger (Redis.dbOf cfg [record 'a' 3 none]) (Dynamo.dbOf cfg [record 'a' 3 none])
      (Fdb.dbOf cfg [record 'a' 3 none]) ∧
    ((Redis.batchReplace cfg ⟨0⟩ ns [plainOp] (Redis.dbOf cfg [record 'a' 3 none])).1 = [.ok] ↔
      (Dynamo.batchReplace cfg ⟨0⟩ ns [plainOp] (Dynamo.dbOf cfg [record 'a' 3 none])).1 = [.ok]) ∧
    ((Dynamo.batchReplace cfg ⟨0⟩ ns [plainOp] (Dynamo.dbOf cfg [record 'a' 3 none])).1 = [.ok] ↔
      (Fdb.batchReplace cfg ⟨0⟩ ns [plainOp] (Fdb.dbOf cfg [record 'a' 3 none])).1 = [.ok]) := by
  refine ⟨sameLedger_dbOf _, ?_⟩
  have hcond : AlikeCondition cfg ns plainOp (Redis.seals (Redis.dbOf cfg [record 'a' 3 none]).tokens) :=
    Or.inr (Or.inr (Or.inl (by decide +kernel)))
  exact ((accepted_alike_iff cfg ⟨0⟩ ns plainOp _ _ _ (sameLedger_dbOf [record 'a' 3 none])).2 hcond).2.2.2

end Webycash
