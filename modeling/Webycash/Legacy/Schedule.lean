import Webycash.Legacy.Faults
import Webycash.Server.LeadingZeros
/-!
# The difficulty schedule of the legacy miner (`server/src/actors/miner.rs:220`)

Every `reports_per_epoch`-th accepted report ends an epoch: the difficulty is adjusted by the seconds since
the last adjustment. The two ratios of `adjust_difficulty` are compared with one as the integers they are
quotients of (`Ratios.exact`); with the comparisons of `f64` in their place the definitions are those of the
miner (`handleMiningReportBy_float`).

The schedule is the documented one over every run (`difficulty_schedule`), as long as the counters hold the
numbers: the epoch is a `u32` and the count a `u64`, and both wrap (`epoch_wraps`).

| here | there |
| --- | --- |
| `adjustDifficultyBy`     | protocol/mining.rs:146 |
| `nextStateBy`            | actors/miner.rs:222 |
| `handleMiningReportBy`   | actors/miner.rs:90 |
-/

namespace Webycash.Legacy

open Redis (Tokens)

/-! ## The comparisons as a parameter -/

/-- How a quotient compares with `1.0`. -/
structure Ratios where
  atMostOne : Nat → Nat → Bool
  atLeastOne : Nat → Nat → Bool

def Ratios.float : Ratios where
  atMostOne a b := decide (Float.ofNat a / Float.ofNat b ≤ 1.0)
  atLeastOne a b := decide (1.0 ≤ Float.ofNat a / Float.ofNat b)

def Ratios.exact : Ratios where
  atMostOne a b := decide (a ≤ b)
  atLeastOne a b := decide (b ≤ a)

section

variable (R : Ratios)

def adjustDifficultyBy (currentDifficulty actualTimeSecs targetTimeSecs actualReports expectedReports : Nat) : Nat :=
  let newDiff :=
    if R.atMostOne actualTimeSecs targetTimeSecs = true ∧ R.atLeastOne actualReports expectedReports = true then
      saturatingAddU32 currentDifficulty 1
    else if R.atLeastOne actualTimeSecs targetTimeSecs = true ∧ R.atMostOne actualReports expectedReports = true then
      max (currentDifficulty - 1) 1
    else currentDifficulty
  max (max (currentDifficulty - 2) 1) (min newDiff (saturatingAddU32 currentDifficulty 2))

def nextStateBy (actor : MinerActor) (clock : Clock) (newCirculation : I64) (s : MiningState) : Option MiningState :=
  let count := (s.miningReportsCount + 1) % 18446744073709551616
  let next : MiningState :=
    { s with
      miningReportsCount := count
      totalCirculationWats := newCirculation
      aggregateWork := s.aggregateWork + Float.scaleB 1.0 s.difficultyTargetBits }
  match actor.mode, actor.miningConfig.reportsPerEpoch with
  | .testnet, _ => some next
  | .production, 0 => none
  | .production, n + 1 =>
    if count % (n + 1) = 0 then
      some { next with
        difficultyTargetBits := adjustDifficultyBy R s.difficultyTargetBits
          (secondsBetween clock.elapsed s.lastAdjustmentAt)
          actor.miningConfig.targetEpochSeconds (n + 1) (n + 1)
        epoch := (s.epoch + 1) % 4294967296
        lastAdjustmentAt := clock.adjusted }
    else some next

def handleMiningReportBy (cfg : StoreConfig TokenRecord) (faults : StoreFaults) (actor : MinerActor) (clock : Clock)
    (preimageStr : String) (m : Miner) : Outcome × Miner :=
  match validate actor clock preimageStr m.memory with
  | .error e => (.err e, m)
  | .ok minted =>
    match nextStateBy R actor clock minted.newCirculation m.memory with
    | none => (.panicked, m)
    | some next => commit cfg faults minted next m

end

theorem adjustDifficultyBy_float : adjustDifficultyBy .float = adjustDifficulty := by
  funext d t target r expected
  simp only [adjustDifficultyBy, adjustDifficulty, Ratios.float, decide_eq_true_eq]

theorem nextStateBy_float : nextStateBy .float = nextState := by
  funext actor clock c s
  unfold nextStateBy nextState
  exact adjustDifficultyBy_float ▸ rfl

/-- With the comparisons of `f64`, this is the miner. -/
theorem handleMiningReportBy_float : handleMiningReportBy .float = handleMiningReport := by
  funext cfg faults actor clock preimageStr m
  unfold handleMiningReportBy handleMiningReport
  exact nextStateBy_float ▸ rfl

/-! ## One adjustment -/

/-- An epoch always has the expected number of reports, so the time alone decides. -/
theorem adjustDifficulty_exact {d : Nat} (hd : 1 ≤ d) (hle : d ≤ 256) (time target reports : Nat) :
    adjustDifficultyBy .exact d time target reports reports = if time ≤ target then d + 1 else max (d - 1) 1 := by
  simp only [adjustDifficultyBy, Ratios.exact, saturatingAddU32, decide_eq_true_eq, le_refl, and_true]
  by_cases hfast : time ≤ target
  · rw [if_pos hfast, if_pos hfast]
    omega
  · rw [if_neg hfast, if_neg hfast, if_pos (by omega)]
    omega

/-! ## One accepted report -/

/-- A report is accepted, both store calls going through. What else is done to the tokens between two
reports is not the miner's, so they are whatever they are. -/
def Reported (cfg : StoreConfig TokenRecord) (actor : MinerActor) (m : Miner) (clock : Clock) (m' : Miner) : Prop :=
  ∃ tokens preimageStr bits,
    handleMiningReportBy .exact cfg .none actor clock preimageStr { m with db := { m.db with tokens := tokens } } =
      (.ok bits, m')

section

variable {cfg : StoreConfig TokenRecord} {actor : MinerActor} {clock : Clock} {m m' : Miner} {s s' : MiningState}

theorem Reported.stepped (h : Reported cfg actor m clock m') : ∃ circulation,
    nextStateBy .exact actor clock circulation m.memory = some m'.memory ∧ m.memory.difficultyTargetBits ≤ 256 := by
  obtain ⟨tokens, preimageStr, bits, h⟩ := h
  unfold handleMiningReportBy at h
  dsimp only at h
  cases hval : validate actor clock preimageStr m.memory with
  | error e =>
    rw [hval] at h
    cases h
  | ok minted =>
    have hpow : m.memory.difficultyTargetBits ≤ 256 := by
      obtain ⟨preimage, hverify, -⟩ := Except.bind_ok_iff.1 hval
      obtain ⟨_, hreq, -⟩ := Except.bind_ok_iff.1 hverify
      exact difficulty_le_of_verifyPow (require_ok_iff.1 hreq)
    refine ⟨minted.newCirculation, ?_, hpow⟩
    rw [hval] at h
    dsimp only at h
    cases hnext : nextStateBy .exact actor clock minted.newCirculation m.memory with
    | none =>
      rw [hnext] at h
      cases h
    | some next =>
      rw [hnext] at h
      unfold commit at h
      dsimp only at h
      split at h
      · cases h
      · split at h
        · cases h
        · cases h
          rfl

/-- What a report does to the difficulty: nothing within an epoch, at most one bit at its end. -/
structure Adjusts (config : MiningConfig) (clock : Clock) (s s' : MiningState) : Prop where
  inside : ¬ config.reportsPerEpoch ∣ s'.miningReportsCount →
    s'.epoch = s.epoch ∧ s'.difficultyTargetBits = s.difficultyTargetBits ∧ s'.lastAdjustmentAt = s.lastAdjustmentAt
  one_bit : s'.difficultyTargetBits ≤ s.difficultyTargetBits + 1 ∧ s.difficultyTargetBits ≤
    s'.difficultyTargetBits + 1
  rises_iff : config.reportsPerEpoch ∣ s'.miningReportsCount → s'.lastAdjustmentAt = clock.adjusted ∧
    (s.difficultyTargetBits < s'.difficultyTargetBits ↔
      secondsBetween clock.elapsed s.lastAdjustmentAt ≤ config.targetEpochSeconds)

/-- The next state, field by field. -/
theorem nextStateBy_spec {circulation : I64} (hmode : actor.mode = .production)
    (hlo : 1 ≤ s.difficultyTargetBits) (hhi : s.difficultyTargetBits ≤ 256)
    (h : nextStateBy .exact actor clock circulation s = some s') :
    s'.miningReportsCount = (s.miningReportsCount + 1) % 18446744073709551616 ∧
    s'.epoch = (if actor.miningConfig.reportsPerEpoch ∣ s'.miningReportsCount then (s.epoch + 1) % 4294967296
      else s.epoch) ∧
    1 ≤ s'.difficultyTargetBits ∧ Adjusts actor.miningConfig clock s s' := by
  unfold nextStateBy at h
  rw [hmode] at h
  dsimp only at h
  split at h
  · rename_i heq
    cases heq
  · cases h
  · rename_i n _ hn
    have hcases : ∀ count, (n + 1 ∣ count ↔ count % (n + 1) = 0) := fun count => Nat.dvd_iff_mod_eq_zero
    rw [adjustDifficulty_exact hlo hhi] at h
    split at h
    · rename_i hboundary
      cases h
      rw [hn]
      refine ⟨rfl, by rw [if_pos ((hcases _).2 hboundary)], ?_, ⟨?_, ?_, ?_⟩⟩
      · dsimp only
        split <;> omega
      · intro hno
        rw [hn] at hno
        exact absurd ((hcases _).2 hboundary) hno
      · dsimp only
        split <;> omega
      · intro _
        refine ⟨rfl, ?_⟩
        dsimp only
        split <;> omega
    · rename_i hinside
      cases h
      rw [hn]
      refine ⟨rfl, by rw [if_neg (fun hdvd => hinside ((hcases _).1 hdvd))], hlo, ⟨?_, ?_, ?_⟩⟩
      · intro _
        exact ⟨rfl, rfl, rfl⟩
      · exact ⟨Nat.le_succ _, Nat.le_succ _⟩
      · intro hdvd
        rw [hn] at hdvd
        exact absurd ((hcases _).1 hdvd) hinside

theorem Reported.spec (hmode : actor.mode = .production)
    (hlo : 1 ≤ m.memory.difficultyTargetBits) (h : Reported cfg actor m clock m') :
    m'.memory.miningReportsCount = (m.memory.miningReportsCount + 1) % 18446744073709551616 ∧
    m'.memory.epoch = (if actor.miningConfig.reportsPerEpoch ∣ m'.memory.miningReportsCount then
      (m.memory.epoch + 1) % 4294967296 else m.memory.epoch) ∧
    1 ≤ m'.memory.difficultyTargetBits ∧ Adjusts actor.miningConfig clock m.memory m'.memory := by
  obtain ⟨circulation, hnext, hhi⟩ := h.stepped
  exact nextStateBy_spec hmode hlo hhi hnext

/-! ## Runs -/

/-- A miner that has accepted `n` reports, as long as its counters hold the numbers. -/
structure Counted (reportsPerEpoch n : Nat) (s : MiningState) : Prop where
  positive : 1 ≤ s.difficultyTargetBits
  count : n < 2 ^ 64 → s.miningReportsCount = n
  epoch : n < 2 ^ 64 → n / reportsPerEpoch < 2 ^ 32 → s.epoch = n / reportsPerEpoch

theorem Counted.next {n : Nat} (hmode : actor.mode = .production)
    (hs : Counted actor.miningConfig.reportsPerEpoch n m.memory) (h : Reported cfg actor m clock m') :
    Counted actor.miningConfig.reportsPerEpoch (n + 1) m'.memory := by
  obtain ⟨hcount, hepoch, hpos, -⟩ := h.spec hmode hs.positive
  have hnext : n + 1 < 2 ^ 64 → m'.memory.miningReportsCount = n + 1 := by
    intro hn
    rw [hcount, hs.count (by omega)]
    omega
  refine ⟨hpos, hnext, fun hn hepochs => ?_⟩
  rw [hepoch, hnext hn]
  have hmono : n / actor.miningConfig.reportsPerEpoch ≤ (n + 1) / actor.miningConfig.reportsPerEpoch :=
    Nat.div_le_div_right (Nat.le_succ n)
  rw [hs.epoch (by omega) (Nat.lt_of_le_of_lt hmono hepochs)]
  by_cases hdvd : actor.miningConfig.reportsPerEpoch ∣ n + 1
  · rw [if_pos hdvd]
    rw [Nat.succ_div_of_dvd hdvd] at hepochs ⊢
    exact Nat.mod_eq_of_lt hepochs
  · rw [if_neg hdvd, Nat.succ_div_of_not_dvd hdvd]

/-- **The schedule**, over every run of accepted reports. The epoch is the number of reports divided by the
length of an epoch while the two counters have not wrapped; the difficulty keeps to the schedule throughout. -/
theorem difficulty_schedule (cfg : StoreConfig TokenRecord) (actor : MinerActor) (hmode : actor.mode = .production)
    (now : DateTime) (difficulty : Nat) (hdifficulty : 1 ≤ difficulty)
    (miningAmountWats subsidyAmountWats : I64) (db : Db) (clocks : List Clock) (m : Miner)
    (hrun : Run (Reported cfg actor) ⟨.initial now difficulty miningAmountWats subsidyAmountWats, db⟩ clocks m) :
    (clocks.length < 2 ^ 64 → clocks.length / actor.miningConfig.reportsPerEpoch < 2 ^ 32 →
      m.memory.miningReportsCount = clocks.length ∧
      m.memory.epoch = m.memory.miningReportsCount / actor.miningConfig.reportsPerEpoch) ∧
    1 ≤ m.memory.difficultyTargetBits ∧
    ∀ clock m', Reported cfg actor m clock m' → Adjusts actor.miningConfig clock m.memory m'.memory := by
  have hinv : Counted actor.miningConfig.reportsPerEpoch clocks.length m.memory := by
    refine Run.history (I := fun clocks m =>
      Counted actor.miningConfig.reportsPerEpoch clocks.length m.memory) ?_ ?_ hrun
    · exact ⟨hdifficulty, fun _ => rfl, fun _ _ => (Nat.zero_div _).symm⟩
    · intro as t a u _ hs hstep
      rw [List.length_append]
      exact hs.next hmode hstep
  refine ⟨fun hn hepochs => ?_, hinv.positive, fun clock m' hstep => (hstep.spec hmode hinv.positive).2.2.2⟩
  have hcount := hinv.count hn
  exact ⟨hcount, hcount ▸ hinv.epoch hn hepochs⟩

end

/-! ## More than `u32::MAX` epochs -/

namespace Rounds

open Webycash.Sample (hex token)

/-- The text of a report whose hash has one leading zero bit. -/
def preimageText : String :=
  "\x7b\"webcash\": [\"" ++ token "0" 'a' ++ "\"], \"subsidy\": [], \"timestamp\": 1, \"difficulty\": 1\x7d"

/-- A miner that grants nothing, with epochs of one report and one second; the decoder knows one preimage. -/
def actor : MinerActor where
  mode := .production
  miningConfig := ⟨1, 1, 1, 0, 0⟩
  decodePreimage text :=
    if text = preimageText then .ok ⟨[token "0" 'a'], [], 1, 1⟩ else .error "expected value at line 1 column 1"

def config : StoreConfig TokenRecord := storeConfig .atEpoch "service error"

/-- The time, set back and forth by 100 s. -/
def now (n : Nat) : DateTime := if n % 2 = 0 then ⟨0⟩ else ⟨100000000000⟩

def clock (n : Nat) : Clock := ⟨now n, now n, now n, now n⟩

theorem elapsed (n : Nat) : secondsBetween (now (n + 1)) (now n) = 100 := by
  by_cases h : n % 2 = 0
  · rw [now, now, if_pos h, if_neg (by omega)]
    decide
  · rw [now, now, if_neg h, if_pos (by omega)]
    decide

/-- Where such a miner stands after `n` reports. -/
structure At (n : Nat) (s : MiningState) : Prop where
  difficulty : s.difficultyTargetBits = 1
  epoch : s.epoch = n % 4294967296
  circulation : s.totalCirculationWats = 0
  count : s.miningReportsCount = n % 18446744073709551616
  mining : s.miningAmountWats = 0
  subsidy : s.subsidyAmountWats = 0
  adjusted : s.lastAdjustmentAt = now n

/-- The checks read four fields of the state. -/
theorem validate_congr {actor : MinerActor} {clock : Clock} {text : String} {s t : MiningState}
    (hd : s.difficultyTargetBits = t.difficultyTargetBits) (hc : s.totalCirculationWats = t.totalCirculationWats)
    (hm : s.miningAmountWats = t.miningAmountWats) (hs : s.subsidyAmountWats = t.subsidyAmountWats) :
    validate actor clock text s = validate actor clock text t := by
  have hcheck : checkSubsidy s = checkSubsidy t := by
    funext secret
    rw [checkSubsidy, checkSubsidy, hs]
  unfold validate
  rw [hd, hc, hm, hs, hcheck]

/-- The records of the report are new to an empty store. -/
theorem validated (n : Nat) : ∃ minted,
    validate actor (clock n) preimageText (.initial ⟨0⟩ 1 0 0) = .ok minted ∧
    minted.newCirculation = 0 ∧ ∃ t, insertTokens config .none minted.records ∅ = (.ok (), t) := by
  have key : ∀ c : Clock, (c = clock 0 ∨ c = clock 1) →
      ((validate actor c preimageText (.initial ⟨0⟩ 1 0 0)).toOption.map fun minted =>
        (minted.newCirculation, (insertTokens config .none minted.records ∅).1)) = some (0, .ok ()) := by
    rintro c (rfl | rfl) <;> decide +kernel
  have hclock : clock n = clock 0 ∨ clock n = clock 1 := by
    by_cases h : n % 2 = 0
    · exact Or.inl (by rw [clock, now, if_pos h]; rfl)
    · exact Or.inr (by rw [clock, now, if_neg h]; rfl)
  have hrun := key (clock n) hclock
  cases hval : validate actor (clock n) preimageText (.initial ⟨0⟩ 1 0 0) with
  | error e =>
    rw [hval] at hrun
    cases hrun
  | ok minted =>
    rw [hval] at hrun
    obtain ⟨hcirc, hins⟩ := Prod.mk.inj (Option.some.inj hrun)
    exact ⟨minted, rfl, hcirc, _, Prod.ext hins rfl⟩

/-- The state after the next report: the count and the epoch move on, the difficulty stays at its minimum. -/
def nextRound (n : Nat) (s : MiningState) : MiningState :=
  { s with
    miningReportsCount := (s.miningReportsCount + 1) % 18446744073709551616
    totalCirculationWats := 0
    aggregateWork := s.aggregateWork + Float.scaleB 1.0 s.difficultyTargetBits
    difficultyTargetBits := 1
    epoch := (s.epoch + 1) % 4294967296
    lastAdjustmentAt := now (n + 1) }

theorem At.round {n : Nat} {s : MiningState} (h : At n s) : At (n + 1) (nextRound n s) where
  difficulty := rfl
  epoch := by
    show (s.epoch + 1) % 4294967296 = _
    rw [h.epoch]
    omega
  circulation := rfl
  count := by
    show (s.miningReportsCount + 1) % 18446744073709551616 = _
    rw [h.count]
    omega
  mining := h.mining
  subsidy := h.subsidy
  adjusted := rfl

theorem nextState_round {n : Nat} {s : MiningState} (h : At n s) :
    nextStateBy .exact actor (clock (n + 1)) 0 s = some (nextRound n s) := by
  have htime : secondsBetween (clock (n + 1)).elapsed s.lastAdjustmentAt = 100 := by
    rw [h.adjusted]
    exact elapsed n
  have hadjust : adjustDifficultyBy .exact s.difficultyTargetBits
      (secondsBetween (clock (n + 1)).elapsed s.lastAdjustmentAt) 1 1 1 = 1 := by
    rw [htime, h.difficulty, adjustDifficulty_exact (by decide) (by decide)]
    rfl
  have hstep : nextStateBy .exact actor (clock (n + 1)) 0 s = some
      { nextRound n s with
        difficultyTargetBits := adjustDifficultyBy .exact s.difficultyTargetBits
          (secondsBetween (clock (n + 1)).elapsed s.lastAdjustmentAt) 1 1 1 } := if_pos (Nat.mod_one _)
  rw [hstep, hadjust]
  rfl

theorem At.reported {n : Nat} {m : Miner} (h : At n m.memory) :
    ∃ m', Reported config actor m (clock (n + 1)) m' ∧ At (n + 1) m'.memory := by
  obtain ⟨minted, hval, hcirc, t, hins⟩ := validated (n + 1)
  have hval : validate actor (clock (n + 1)) preimageText m.memory = .ok minted :=
    (validate_congr h.difficulty h.circulation h.mining h.subsidy).trans hval
  have hnext := nextState_round h
  refine ⟨⟨nextRound n m.memory, ⟨t, some (nextRound n m.memory)⟩⟩, ⟨∅, preimageText, 1, ?_⟩, h.round⟩
  unfold handleMiningReportBy
  dsimp only
  rw [hval]
  dsimp only
  rw [hcirc, hnext]
  dsimp only
  unfold commit
  simp only [updateMiningState, StoreFaults.none]
  rw [show StoreFaults.mk none none none = StoreFaults.none from rfl, hins]
  rfl

/-- However many reports there are to be. -/
theorem exists_run (db : Db) (n : Nat) : ∃ clocks m, clocks.length = n ∧
    Run (Reported config actor) ⟨.initial (now 0) 1 0 0, db⟩ clocks m ∧ At n m.memory := by
  induction n with
  | zero => exact ⟨[], _, rfl, .nil _, ⟨rfl, rfl, rfl, rfl, rfl, rfl, rfl⟩⟩
  | succ n ih =>
    obtain ⟨clocks, m, hlen, hrun, hat⟩ := ih
    obtain ⟨m', hstep, hat'⟩ := hat.reported
    exact ⟨clocks ++ [clock (n + 1)], m', by rw [List.length_append, hlen]; rfl,
      hrun.append (.cons hstep (.nil _)), hat'⟩

end Rounds

/-- **The epoch wraps.** After `2 ^ 32` epochs of one report each, the epoch is zero again. One preimage stands
for all the reports, its token taken out of the store in between: the counters see that a report is accepted and
neither its text nor the tokens (`Reported.stepped`), so as many preimages with secrets of their own do the same. -/
theorem epoch_wraps : ¬ ∀ (cfg : StoreConfig TokenRecord) (actor : MinerActor), actor.mode = .production →
    1 ≤ actor.miningConfig.reportsPerEpoch → 1 ≤ actor.miningConfig.targetEpochSeconds →
    ∀ (now : DateTime) (difficulty : Nat), 1 ≤ difficulty →
      ∀ (miningAmountWats subsidyAmountWats : I64) (db : Db) clocks m,
      Run (Reported cfg actor) ⟨.initial now difficulty miningAmountWats subsidyAmountWats, db⟩ clocks m →
      m.memory.epoch = m.memory.miningReportsCount / actor.miningConfig.reportsPerEpoch := by
  intro h
  obtain ⟨clocks, m, -, hrun, hat⟩ := Rounds.exists_run ⟨∅, none⟩ (2 ^ 32)
  have hepoch := h Rounds.config Rounds.actor rfl le_rfl le_rfl (Rounds.now 0) 1 le_rfl 0 0
    ⟨∅, none⟩ clocks m hrun
  rw [hat.epoch, hat.count] at hepoch
  exact absurd hepoch (by decide)

/-- Two reports. -/
theorem two_reports_scheduled : ∃ clocks m, clocks.length = 2 ∧
    Run (Reported Rounds.config Rounds.actor) ⟨.initial (Rounds.now 0) 1 0 0, ⟨∅, none⟩⟩ clocks m ∧
    m.memory.miningReportsCount = 2 ∧ m.memory.epoch = 2 ∧ 1 ≤ m.memory.difficultyTargetBits := by
  obtain ⟨clocks, m, hlen, hrun, -⟩ := Rounds.exists_run ⟨∅, none⟩ 2
  obtain ⟨hcounts, hpos, -⟩ := difficulty_schedule Rounds.config Rounds.actor rfl (Rounds.now 0) 1 le_rfl 0 0
    ⟨∅, none⟩ clocks m hrun
  obtain ⟨hcount, hepoch⟩ := hcounts (by rw [hlen]; decide) (by rw [hlen]; decide)
  rw [hlen] at hcount
  rw [hcount] at hepoch
  exact ⟨clocks, m, hlen, hrun, hcount, hepoch, hpos⟩

end Webycash.Legacy
