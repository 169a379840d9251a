import Webycash.Legacy.Miner
/-!
# What a legacy report mints and what it counts

The circulation grows by the mining amount plus one subsidy per subsidy output. The records are
those of both lists without the repeated ones, whose amounts were counted all the same, and how
many subsidy outputs there are is not checked. `minted_counted_iff` says for which accepted reports
the minted and the counted amounts are both the reward.
-/

namespace Webycash.Legacy

/-- What the tokens of a list claim to be worth. -/
def worth (tokens : List String) : Int := ((tokens.filterMap fromStr).map fun s => s.amount.wats.val).sum

/-- What those are worth that repeat the hash of an earlier one. -/
def repeatedWorth (tokens : List String) : Int :=
  ((SortedMap.repeats (fun s : SecretWebcash => s.toPublic.hash) [] (tokens.filterMap fromStr)).map fun s =>
    s.amount.wats.val).sum

/-- One subsidy output (or no subsidy), and the subsidy list makes up for what is dropped. -/
def PaysSubsidyOnce (preimage : MiningPreimage) (s : MiningState) : Prop :=
  (s.subsidyAmountWats.val = 0 ∨ (I64.wrap preimage.subsidy.length).val = 1) ∧
    worth preimage.subsidy ≡ s.subsidyAmountWats.val + repeatedWorth (preimage.webcash ++ preimage.subsidy)
      [ZMOD 18446744073709551616]

instance decidablePaysSubsidyOnce (preimage : MiningPreimage) (s : MiningState) :
    Decidable (PaysSubsidyOnce preimage s) :=
  inferInstanceAs (Decidable (_ ∧ _))

/-- The records of a report are worth its reward, and the circulation has grown by that. -/
def MintedCounted (records : List TokenRecord) (s s' : MiningState) : Prop :=
  ((records.map fun r => r.amountWats.val).sum ≡ s.miningAmountWats.val + s.subsidyAmountWats.val
      [ZMOD 18446744073709551616]) ∧
    (s'.totalCirculationWats.val - s.totalCirculationWats.val ≡ (records.map fun r => r.amountWats.val).sum
      [ZMOD 18446744073709551616])

section

variable {now : DateTime} {invalid : String} {check : SecretWebcash → Except String Unit}

/-- The records of parsed outputs. -/
theorem parseOutputs_ok : ∀ {tokens : List String} {rs : List TokenRecord},
    parseOutputs now invalid check tokens = .ok rs →
    rs = (tokens.filterMap fromStr).map (minedRecord now)
  | [], rs, h => by
    cases h
    rfl
  | token :: tokens, rs, h => by
    obtain ⟨s, hs, h⟩ := Except.bind_ok_iff.1 h
    obtain ⟨_, -, h⟩ := Except.bind_ok_iff.1 h
    obtain ⟨rs', hrec, h⟩ := Except.bind_ok_iff.1 h
    cases h
    rw [parseOutputs_ok hrec, List.filterMap_cons, require?_ok_iff.1 hs]
    rfl

end

theorem sum_minedRecords (now : DateTime) (ss : List SecretWebcash) :
    ((ss.map (minedRecord now)).map fun r => r.amountWats.val).sum = (ss.map fun s => s.amount.wats.val).sum := by
  rw [List.map_map]
  rfl

theorem sum_deduplicate (rs : List TokenRecord) : ((deduplicate rs).map fun r => r.amountWats.val).sum =
    (rs.map fun r => r.amountWats.val).sum -
      ((SortedMap.repeats WebcashRecord.publicHash [] rs).map fun r => r.amountWats.val).sum := by
  have hperm := ((SortedMap.values_collectFirst WebcashRecord.publicHash rs).map fun r => r.amountWats.val).sum_eq
  have hsplit : (rs.map fun r => r.amountWats.val).sum = _ :=
    SortedMap.sum_eq_firsts_add_repeats WebcashRecord.publicHash (fun r : TokenRecord => r.amountWats.val) rs []
  rw [deduplicate, hperm, hsplit]
  exact (Int.add_sub_cancel _ _).symm

/-- **A report past its checks.** -/
theorem validate_inv {actor : MinerActor} {clock : Clock} {preimageStr : String} {s : MiningState} {minted : Minted}
    (h : validate actor clock preimageStr s = .ok minted) : ∃ preimage webcash subsidy subsidies totalMined,
      actor.decodePreimage preimageStr = .ok preimage ∧ preimage.webcash ≠ [] ∧
      parseOutputs clock.created "invalid webcash in preimage: " (fun _ => .ok ()) preimage.webcash = .ok webcash ∧
      totalWats webcash = s.miningAmountWats ∧
      parseOutputs clock.created "invalid subsidy in preimage: " (checkSubsidy s) preimage.subsidy = .ok subsidy ∧
      minted.records = deduplicate (webcash ++ subsidy) ∧
      s.subsidyAmountWats.checkedMul (I64.wrap preimage.subsidy.length) = some subsidies ∧
      s.miningAmountWats.checkedAdd subsidies = some totalMined ∧
      s.totalCirculationWats.checkedAdd totalMined = some minted.newCirculation := by
  unfold validate at h
  obtain ⟨preimage, hpre, h⟩ := Except.bind_ok_iff.1 h
  obtain ⟨_, -, h⟩ := Except.bind_ok_iff.1 h
  obtain ⟨_, -, h⟩ := Except.bind_ok_iff.1 h
  obtain ⟨_, -, h⟩ := Except.bind_ok_iff.1 h
  obtain ⟨_, -, h⟩ := Except.bind_ok_iff.1 h
  obtain ⟨_, hsome, h⟩ := Except.bind_ok_iff.1 h
  obtain ⟨webcash, hweb, h⟩ := Except.bind_ok_iff.1 h
  obtain ⟨_, htotal, h⟩ := Except.bind_ok_iff.1 h
  obtain ⟨subsidy, hsub, h⟩ := Except.bind_ok_iff.1 h
  obtain ⟨subsidies, hmul, h⟩ := Except.bind_ok_iff.1 h
  obtain ⟨totalMined, hadd, h⟩ := Except.bind_ok_iff.1 h
  obtain ⟨newCirculation, hcirc, h⟩ := Except.bind_ok_iff.1 h
  cases h
  obtain ⟨_, -, hdecode⟩ := Except.bind_ok_iff.1 hpre
  exact ⟨preimage, webcash, subsidy, subsidies, totalMined, orElse_ok_iff.1 hdecode, require_ok_iff.1 hsome, hweb,
    require_ok_iff.1 htotal, hsub, rfl, require?_ok_iff.1 hmul, require?_ok_iff.1 hadd, require?_ok_iff.1 hcirc⟩

/-- What its records are worth and what it adds to the circulation. -/
theorem validate_sums {actor : MinerActor} {clock : Clock} {preimageStr : String} {s : MiningState} {minted : Minted}
    (h : validate actor clock preimageStr s = .ok minted) : ∃ preimage, actor.decodePreimage preimageStr =
    .ok preimage ∧
      (minted.records.map fun r => r.amountWats.val).sum =
        worth preimage.webcash + worth preimage.subsidy - repeatedWorth (preimage.webcash ++ preimage.subsidy) ∧
      I64.wrap (worth preimage.webcash) = s.miningAmountWats ∧
      I64.InRange (s.subsidyAmountWats.val * (I64.wrap preimage.subsidy.length).val) ∧
      minted.newCirculation.val = s.totalCirculationWats.val +
        (s.miningAmountWats.val + s.subsidyAmountWats.val * (I64.wrap preimage.subsidy.length).val) := by
  obtain ⟨preimage, webcash, subsidy, subsidies, totalMined, hdecode, -, hweb, htotal, hsub, hrecords, hmul,
      hadd, hcirc⟩ :=
    validate_inv h
  obtain rfl := parseOutputs_ok hweb
  obtain rfl := parseOutputs_ok hsub
  have hsubsidies := I64.val_checkedMul hmul
  refine ⟨preimage, hdecode, ?_, ?_, ?_, ?_⟩
  · rw [hrecords, ← List.map_append, ← List.filterMap_append, sum_deduplicate, sum_minedRecords,
      SortedMap.repeats_map,
      sum_minedRecords]
    simp only [worth, repeatedWorth, minedRecord, List.filterMap_append, List.map_append, List.sum_append]
  · rw [totalWats, sum_minedRecords] at htotal
    exact htotal
  · rw [← hsubsidies]
    exact ⟨subsidies.lo, subsidies.hi⟩
  · rw [I64.val_checkedAdd hcirc, I64.val_checkedAdd hadd, hsubsidies]

theorem wrap_modEq (z : Int) : (I64.wrap z).val ≡ z [ZMOD 18446744073709551616] := by
  simp only [Int.ModEq, I64.wrap]
  omega

/-- A product that fits is congruent to its first factor only when it is that factor. -/
theorem mul_modEq_self_iff {a : I64} {n : Int} (h : I64.InRange (a.val * n)) :
    a.val * n ≡ a.val [ZMOD 18446744073709551616] ↔ a.val = 0 ∨ n = 1 := by
  have hlo := a.lo
  have hhi := a.hi
  obtain ⟨h₁, h₂⟩ := h
  constructor
  · intro hmod
    have heq : a.val * n = a.val := by
      rw [Int.ModEq] at hmod
      omega
    rcases Int.mul_eq_zero.1 (show a.val * (n - 1) = 0 by rw [Int.mul_sub, heq]; omega) with h0 | h1
    · exact Or.inl h0
    · exact Or.inr (by omega)
  · rintro (h0 | h1)
    · simp [h0, Int.ModEq]
    · simp [h1, Int.ModEq]

/-- **The reward in the records and in the counter, from the tokens alone.** -/
theorem mintedCounted_iff {actor : MinerActor} {clock : Clock} {preimageStr : String} {s s' : MiningState}
    {minted : Minted}
    (h : validate actor clock preimageStr s = .ok minted) (hs' : s'.totalCirculationWats = minted.newCirculation) :
    ∃ preimage, actor.decodePreimage preimageStr = .ok preimage ∧
      (MintedCounted minted.records s s' ↔ PaysSubsidyOnce preimage s) := by
  obtain ⟨preimage, hdecode, hsum, hweb, hfits, hcirc⟩ := validate_sums h
  refine ⟨preimage, hdecode, ?_⟩
  have hmining : worth preimage.webcash ≡ s.miningAmountWats.val [ZMOD 18446744073709551616] := by
    rw [← hweb]
    exact (wrap_modEq _).symm
  rw [MintedCounted, PaysSubsidyOnce, hs', hcirc, hsum, ← mul_modEq_self_iff hfits]
  -- modulo 2^64 the webcash list is worth the mining amount, which cancels
  simp only [Int.ModEq] at hmining ⊢
  omega

/-- The report was accepted, in this state of the store and with these failures. -/
def Accepted (cfg : StoreConfig TokenRecord) (faults : StoreFaults) (actor : MinerActor) (clock : Clock)
    (preimageStr : String) (m m' : Miner) : Prop :=
  ∃ bits, handleMiningReport cfg faults actor clock preimageStr m = (.ok bits, m')

theorem nextState_circulation {actor : MinerActor} {clock : Clock} {c : I64} {s next : MiningState}
    (h : nextState actor clock c s = some next) : next.totalCirculationWats = c ∧
      next.miningReportsCount = (s.miningReportsCount + 1) % 18446744073709551616 := by
  unfold nextState at h
  dsimp only at h
  split at h
  · cases h
    exact ⟨rfl, rfl⟩
  · cases h
  · split at h <;> cases h <;> exact ⟨rfl, rfl⟩

/-- What an accepted report has gone through. -/
theorem Accepted.passed {cfg : StoreConfig TokenRecord} {faults : StoreFaults} {actor : MinerActor} {clock : Clock}
    {preimageStr : String} {m m' : Miner} (h : Accepted cfg faults actor clock preimageStr m m') :
    ∃ minted, validate actor clock preimageStr m.memory = .ok minted ∧
      m'.memory.totalCirculationWats = minted.newCirculation := by
  obtain ⟨bits, h⟩ := h
  unfold handleMiningReport at h
  split at h
  · cases h
  · rename_i minted hval
    split at h
    · cases h
    · rename_i next hnext
      unfold commit at h
      split at h
      · cases h
      · split at h
        · cases h
        · cases h
          exact ⟨minted, hval, (nextState_circulation hnext).1⟩

/-- **Minted is counted, exactly when.** For every state, store and accepted preimage: the records
passed to `insert_tokens` are worth the mining amount plus the subsidy, and the circulation has
grown by that (modulo 2^64), if and only if the report pays the subsidy once. -/
theorem minted_counted_iff (cfg : StoreConfig TokenRecord) (faults : StoreFaults) (actor : MinerActor) (clock : Clock)
    (preimageStr : String) (m m' : Miner) (h : Accepted cfg faults actor clock preimageStr m m') :
    ∃ minted preimage, validate actor clock preimageStr m.memory = .ok minted ∧
      actor.decodePreimage preimageStr = .ok preimage ∧
      (MintedCounted minted.records m.memory m'.memory ↔ PaysSubsidyOnce preimage m.memory) := by
  obtain ⟨minted, hval, hcirc⟩ := h.passed
  obtain ⟨preimage, hdecode, hiff⟩ := mintedCounted_iff hval hcirc
  exact ⟨minted, preimage, hval, hdecode, hiff⟩

/-! ## Two reports, for fixed inputs -/

namespace Sample

open Webycash.Sample (hex token)

/-- The given outputs and one subsidy output of half a webcash. -/
def preimage (webcash : List String) : MiningPreimage := ⟨webcash, [token "0.5" 'b'], 1, 0⟩

/-- The JSON text of it. -/
def preimageText (webcash : List String) : String :=
  "\x7b\"webcash\": [\"" ++ "\", \"".intercalate webcash ++ "\"], \"subsidy\": [\"" ++ token "0.5" 'b' ++
    "\"], \"timestamp\": 1, \"difficulty\": 0\x7d"

/-- A miner without work that grants 1 and a subsidy of 0.5; the decoder knows one preimage. -/
def actor (webcash : List String) : MinerActor where
  mode := .testnet
  miningConfig := ⟨0, 100, 1000, I64.wrap 100000000, I64.wrap 50000000⟩
  decodePreimage text :=
    if text = preimageText webcash then .ok (preimage webcash) else .error "expected value at line 1 column 1"

theorem decodePreimage_text (webcash : List String) :
    (actor webcash).decodePreimage (preimageText webcash) = .ok (preimage webcash) := if_pos rfl

def clock : Clock := ⟨⟨0⟩, ⟨0⟩, ⟨0⟩, ⟨0⟩⟩

def config : StoreConfig TokenRecord := storeConfig .atEpoch "service error"

/-- A miner that has just started on an empty store. -/
def started : Miner :=
  let initial := MiningState.initial ⟨0⟩ 0 (I64.wrap 100000000) (I64.wrap 50000000)
  ⟨initial, ⟨∅, some initial⟩⟩

def reported (webcash : List String) : Outcome × Miner :=
  handleMiningReport config .none (actor webcash) clock (preimageText webcash) started

/-- What the records are worth, and what was counted. -/
def mintedAndCounted (webcash : List String) : Option Int × Int :=
  ((validate (actor webcash) clock (preimageText webcash) started.memory).toOption.map fun minted =>
      (minted.records.map fun r => r.amountWats.val).sum,
    (reported webcash).2.memory.totalCirculationWats.val - started.memory.totalCirculationWats.val)

theorem validated {webcash : List String} {w c : Int} (h : mintedAndCounted webcash = (some w, c)) :
    ∃ minted, validate (actor webcash) clock (preimageText webcash) started.memory = .ok minted ∧
      (minted.records.map fun r => r.amountWats.val).sum = w := by
  obtain ⟨hw, -⟩ := Prod.mk.inj h
  generalize validate (actor webcash) clock (preimageText webcash) started.memory = v at hw ⊢
  cases v with
  | error e => cases hw
  | ok minted => exact ⟨minted, rfl, Option.some.inj hw⟩

end Sample

open Legacy.Sample
open Webycash.Sample (token)

/-- A report names one output twice: it is accepted, 1 webcash is minted and 1.5 are counted. -/
theorem repeated_output_miscounted :
    (reported [token "0.5" 'a', token "0.5" 'a']).1 = .ok 0 ∧
    mintedAndCounted [token "0.5" 'a', token "0.5" 'a'] = (some 100000000, 150000000) ∧
    ∃ minted, validate (actor [token "0.5" 'a', token "0.5" 'a']) clock
      (preimageText [token "0.5" 'a', token "0.5" 'a'])
        started.memory = .ok minted ∧
      ¬ MintedCounted minted.records started.memory (reported [token "0.5" 'a', token "0.5" 'a']).2.memory := by
  have hrun : (reported [token "0.5" 'a', token "0.5" 'a']).1 = .ok 0 ∧
      mintedAndCounted [token "0.5" 'a', token "0.5" 'a'] = (some 100000000, 150000000) := by decide +kernel
  obtain ⟨minted, hval, hsum⟩ := validated hrun.2
  refine ⟨hrun.1, hrun.2, minted, hval, fun h => ?_⟩
  have hmod := h.1
  rw [hsum] at hmod
  exact absurd hmod (by decide +kernel)

/-- A report with one subsidy output and nothing repeated mints and counts 1.5. -/
theorem subsidy_paid_once :
    mintedAndCounted [token "1" 'a'] = (some 150000000, 150000000) ∧
    ∃ minted, validate (actor [token "1" 'a']) clock (preimageText [token "1" 'a']) started.memory = .ok minted ∧
      MintedCounted minted.records started.memory (reported [token "1" 'a']).2.memory := by
  have hrun : (reported [token "1" 'a']).1 = .ok 0 ∧ mintedAndCounted [token "1" 'a'] =
      (some 150000000, 150000000) := by
    decide +kernel
  have hpays : PaysSubsidyOnce (preimage [token "1" 'a']) started.memory := by decide +kernel
  have haccepted : reported [token "1" 'a'] = (.ok 0, (reported [token "1" 'a']).2) := by
    rw [← hrun.1]
  obtain ⟨minted, p, hval, hdecode, hiff⟩ := minted_counted_iff config .none (actor [token "1" 'a']) clock
    (preimageText [token "1" 'a']) started (reported [token "1" 'a']).2 ⟨0, haccepted⟩
  rw [decodePreimage_text] at hdecode
  obtain rfl : preimage [token "1" 'a'] = p := Except.ok.inj hdecode
  exact ⟨hrun.2, minted, hval, hiff.2 hpays⟩

end Webycash.Legacy
