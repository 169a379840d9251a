import Mathlib.Algebra.BigOperators.Group.Finset.Basic
import Mathlib.Data.Fintype.Card
import Webycash.Lib.Run
import Webycash.Server.Mint
/-!
# The mining counters under concurrent reports

`mining_report` inserts its records, reads the mining state, and writes it back, in three store
calls; `update_mining_state` is a plain write on every backend, although its contract calls it a
compare-and-swap (storage/src/lib.rs:225). Any number of reports may be between two of their calls
at once. `mining_updates_kept_iff`: as long as the counters have room, no update is lost exactly
in the interleavings where every report writes onto the state it has read.

| here | there |
| --- | --- |
| `Reporter`      | a report past its checks (server-core/src/lib.rs:751) |
| `ReportAct.insert`, `.get`, `.update` | the three store calls (server-core/src/lib.rs:822, :827, :840) |
-/

namespace Webycash

/-- A report past its checks: its clock, the target and the records it brings. -/
structure Reporter (ρ : Type) where
  now : DateTime
  service : Dynamo.Env
  bits : Nat
  records : List ρ

/-- How far a report is. -/
inductive Phase
  | started
  | inserted
  | read (snapshot : MiningState)
  | done
  deriving DecidableEq

/-- The store and every report's progress. -/
structure MiningNet (b : Backend) (n : Nat) where
  db : b.Db
  phase : Fin n → Phase

/-- The next store call of report `i`. -/
inductive ReportAct (n : Nat)
  | insert (i : Fin n)
  | get (i : Fin n)
  | update (i : Fin n)

/-- The mining state a store holds. -/
def Backend.miningState {ρ : Type} (cfg : StoreConfig ρ) (b : Backend) (db : b.Db) : MiningState :=
  currentMiningState (b.store cfg ⟨0⟩ .calm) db

section

variable {ρ : Type} (cfg : StoreConfig ρ) (mining : MiningConfig) {b : Backend} {n : Nat}
  (reports : Fin n → Reporter ρ)

/-- What the records of a report are worth. -/
def Reporter.worth (r : Reporter ρ) : Int := (r.records.map fun x => (cfg.codec.amountWats x).val).sum

/-- The store report `i` talks to. -/
def Reporter.store (r : Reporter ρ) : LedgerStore b.Db ρ := b.store cfg r.now r.service

namespace MiningNet

/-- All reports are past their checks, none has touched the store. -/
def start (n : Nat) (db : b.Db) : MiningNet b n := ⟨db, fun _ => .started⟩

def step (net : MiningNet b n) : ReportAct n → Option (MiningNet b n)
  | .insert i =>
    match net.phase i, (reports i).store cfg |>.insertTokens (reports i).records net.db with
    | .started, (.ok (), db) => some ⟨db, Function.update net.phase i .inserted⟩
    | _, _ => none
  | .get i =>
    match net.phase i with
    | .inserted =>
      some { net with phase := Function.update net.phase i (.read (currentMiningState ((reports i).store cfg) net.db)) }
    | _ => none
  | .update i =>
    match net.phase i with
    | .read s => some ⟨((reports i).store cfg |>.updateMiningState
        (nextMiningState cfg.codec mining (reports i).bits (reports i).records s) net.db).2,
          Function.update net.phase i .done⟩
    | _ => none

/-- The mining state held now. -/
def held (net : MiningNet b n) : MiningState := b.miningState cfg net.db

def finished (net : MiningNet b n) : Finset (Fin n) := Finset.univ.filter fun i => net.phase i = .done

/-- A report that updates finds the state it has read. -/
def Fresh (net : MiningNet b n) : ReportAct n → Prop
  | .update i => ∀ s, net.phase i = .read s → s = net.held cfg
  | _ => True

end MiningNet

def ReportStep (s : MiningNet b n) (a : ReportAct n) (t : MiningNet b n) : Prop := s.step cfg mining reports a = some t

def FreshReportStep (s : MiningNet b n) (a : ReportAct n) (t : MiningNet b n) : Prop :=
  s.Fresh cfg a ∧ s.step cfg mining reports a = some t

/-- The counters have room for all reports: no count and no partial sum overflows. -/
structure CountersFit (old : MiningState) : Prop where
  count : old.miningReportsCount + n < 18446744073709551616
  each : ∀ i, I64.InRange ((reports i).worth cfg)
  sums : ∀ S : Finset (Fin n), I64.InRange (old.totalCirculationWats.val + ∑ i ∈ S, (reports i).worth cfg)

variable {cfg mining reports}

/-! ## One step -/

theorem currentMiningState_eq (now : DateTime) (service : Dynamo.Env) (db : b.Db) :
    currentMiningState (b.store cfg now service) db = b.miningState cfg db := by
  cases b <;> rfl

theorem miningState_update (now : DateTime) (service : Dynamo.Env) (state : MiningState) (db : b.Db) :
    b.miningState cfg ((b.store cfg now service).updateMiningState state db).2 = state := by
  have hget : (b.store cfg ⟨0⟩ .calm).getMiningState ((b.store cfg now service).updateMiningState state db).2 =
      .ok (some state) := by
    cases b <;> exact congrArg Except.ok (Finmap.lookup_insert _)
  exact currentMiningState_ok hget

/-- The mining state is read under one key. -/
theorem miningState_congr {db db' : b.Db}
    (h : (b.store cfg ⟨0⟩ .calm).getMiningState db' = (b.store cfg ⟨0⟩ .calm).getMiningState db) :
    b.miningState cfg db' = b.miningState cfg db := by
  rw [Backend.miningState, currentMiningState, h]
  rfl

/-- Insertion does not touch the mining state. -/
theorem miningState_insert (now : DateTime) (service : Dynamo.Env) (rs : List ρ) (db : b.Db) :
    b.miningState cfg ((b.store cfg now service).insertTokens rs db).2 = b.miningState cfg db := by
  cases b with
  | redis => cases rs <;> rfl
  | dynamo => cases rs <;> rfl
  | fdb => exact miningState_congr (congrArg (fun m => Except.ok (Finmap.lookup _ m))
      (Fdb.insertTokens_mining cfg rs db))

variable {s t : MiningNet b n} {a : ReportAct n}

/-- Everything a step can do to the counters and to the reports. -/
theorem ReportStep.cases (h : ReportStep cfg mining reports s a t) :
    (∃ i, a = .insert i ∧ s.phase i = .started ∧ t.held cfg = s.held cfg ∧
      t.phase = Function.update s.phase i .inserted) ∨
    (∃ i, a = .get i ∧ s.phase i = .inserted ∧ t.held cfg = s.held cfg ∧
      t.phase = Function.update s.phase i (.read (s.held cfg))) ∨
    (∃ i snap, a = .update i ∧ s.phase i = .read snap ∧
      t.held cfg = nextMiningState cfg.codec mining (reports i).bits (reports i).records snap ∧
      t.phase = Function.update s.phase i .done) := by
  unfold ReportStep MiningNet.step at h
  cases a with
  | insert i =>
    dsimp only at h
    split at h
    · rename_i db hphase hins
      cases h
      refine Or.inl ⟨i, rfl, hphase, ?_, rfl⟩
      have hdb : db = ((reports i).store cfg |>.insertTokens (reports i).records s.db).2 := by rw [hins]
      rw [MiningNet.held, hdb]
      exact miningState_insert _ _ _ _
    · cases h
  | get i =>
    dsimp only at h
    split at h
    · rename_i hphase
      cases h
      exact Or.inr (Or.inl ⟨i, rfl, hphase, rfl, by rw [Reporter.store, currentMiningState_eq]; rfl⟩)
    · cases h
  | update i =>
    dsimp only at h
    split at h
    · rename_i snap hphase
      cases h
      exact Or.inr (Or.inr ⟨i, snap, rfl, hphase, miningState_update _ _ _ _, rfl⟩)
    · cases h

theorem finished_update {i : Fin n} {p : Phase} (hp : p ≠ .done) (hi : s.phase i ≠ .done)
    (h : t.phase = Function.update s.phase i p) : t.finished = s.finished := by
  ext j
  simp only [MiningNet.finished, Finset.mem_filter, Finset.mem_univ, true_and, h]
  by_cases hj : j = i
  · subst hj
    simp [hp, hi]
  · simp [hj]

theorem finished_insert {i : Fin n} (h : t.phase = Function.update s.phase i .done) :
    t.finished = insert i s.finished := by
  ext j
  simp only [MiningNet.finished, Finset.mem_filter, Finset.mem_univ, true_and, h, Finset.mem_insert]
  by_cases hj : j = i
  · subst hj
    simp
  · simp [hj]

theorem notMem_finished {i : Fin n} {snap : MiningState} (h : s.phase i = .read snap) : i ∉ s.finished := by
  simp [MiningNet.finished, h]

/-- A read snapshot after a step is an old one, or was taken by it. -/
theorem read_update {i j : Fin n} {p : Phase} {snap : MiningState} (h : t.phase = Function.update s.phase i p)
    (hj : t.phase j = .read snap) : s.phase j = .read snap ∨ (j = i ∧ p = .read snap) := by
  rw [h] at hj
  by_cases hji : j = i
  · subst hji
    rw [Function.update_self] at hj
    exact Or.inr ⟨rfl, hj⟩
  · rw [Function.update_of_ne hji] at hj
    exact Or.inl hj

/-! ## Runs -/

/-- Every finished report is counted, and a snapshot that is not behind is the state itself. -/
structure Counted (cfg : StoreConfig ρ) (reports : Fin n → Reporter ρ) (old : MiningState)
    (net : MiningNet b n) : Prop where
  count : (net.held cfg).miningReportsCount = old.miningReportsCount + net.finished.card
  total : (net.held cfg).totalCirculationWats.val =
    old.totalCirculationWats.val + ∑ i ∈ net.finished, (reports i).worth cfg
  behind : ∀ i snap, net.phase i = .read snap →
    snap.miningReportsCount ≤ old.miningReportsCount + net.finished.card
  current : ∀ i snap, net.phase i = .read snap →
    snap.miningReportsCount = old.miningReportsCount + net.finished.card → snap = net.held cfg

/-- The count has fallen behind the finished reports, and no snapshot can make up for it. -/
structure Lost (cfg : StoreConfig ρ) (old : MiningState) (net : MiningNet b n) : Prop where
  count : (net.held cfg).miningReportsCount < old.miningReportsCount + net.finished.card
  behind : ∀ i snap, net.phase i = .read snap → snap.miningReportsCount < old.miningReportsCount + net.finished.card

variable {old : MiningState}

theorem counted_start (db : b.Db) : Counted cfg reports (b.miningState cfg db) (MiningNet.start n db) := by
  have hnone : (MiningNet.start n db).finished = ∅ := by
    simp [MiningNet.finished, MiningNet.start]
  refine ⟨by rw [hnone]; rfl, by rw [hnone, Finset.sum_empty, Int.add_zero]; rfl, ?_, ?_⟩
  · intro i snap h
    cases h
  · intro i snap h
    cases h

theorem saturatingSucc_le (k : Nat) : saturatingSucc k ≤ k + 1 := by
  simp only [saturatingSucc, saturatingAddU64]
  omega

/-- **A fresh step keeps the count.** -/
theorem FreshReportStep.counted (hfit : CountersFit cfg reports old) (h : FreshReportStep cfg mining reports s a t)
    (hs : Counted cfg reports old s) : Counted cfg reports old t := by
  obtain ⟨hfresh, hstep⟩ := h
  rcases ReportStep.cases hstep with ⟨i, -, hp, hheld, hphase⟩ | ⟨i, -, hp, hheld, hphase⟩ |
    ⟨i, snap, rfl, hp, hheld, hphase⟩
  · have hfin : t.finished = s.finished := finished_update (by decide) (by simp [hp]) hphase
    refine ⟨by rw [hheld, hfin, hs.count], by rw [hheld, hfin, hs.total], fun j snap hj => ?_,
      fun j snap hj hc => ?_⟩
    · rcases read_update hphase hj with hj | ⟨-, hj⟩
      · rw [hfin]
        exact hs.behind j snap hj
      · cases hj
    · rcases read_update hphase hj with hj | ⟨-, hj⟩
      · rw [hheld]
        exact hs.current j snap hj (hfin ▸ hc)
      · cases hj
  · have hfin : t.finished = s.finished := finished_update (by simp) (by simp [hp]) hphase
    refine ⟨by rw [hheld, hfin, hs.count], by rw [hheld, hfin, hs.total], fun j snap hj => ?_,
      fun j snap hj hc => ?_⟩
    · rcases read_update hphase hj with hj | ⟨-, hj⟩
      · rw [hfin]
        exact hs.behind j snap hj
      · cases hj
        rw [hfin, hs.count]
    · rcases read_update hphase hj with hj | ⟨-, hj⟩
      · rw [hheld]
        exact hs.current j snap hj (hfin ▸ hc)
      · cases hj
        exact hheld.symm
  · -- the report adds to the state it has read, which is the one that is there
    obtain rfl : snap = s.held cfg := hfresh snap hp
    have hfin : t.finished = insert i s.finished := finished_insert hphase
    have hnew : i ∉ s.finished := notMem_finished hp
    have hcard : t.finished.card = s.finished.card + 1 := by rw [hfin, Finset.card_insert_of_notMem hnew]
    have hle : t.finished.card ≤ n := by simpa using Finset.card_le_univ t.finished
    have hroom := hfit.count
    have hcount := hs.count
    refine ⟨?_, ?_, fun j snap hj => ?_, fun j snap hj hc => ?_⟩
    · rw [hheld]
      simp only [nextMiningState, saturatingSucc, saturatingAddU64]
      omega
    · have hsum := hfit.sums t.finished
      have hworth : (I64.wrap ((reports i).worth cfg)).val = (reports i).worth cfg := I64.val_wrap (hfit.each i)
      rw [hfin, Finset.sum_insert hnew] at hsum ⊢
      have hadd : (s.held cfg).totalCirculationWats.val + (I64.wrap ((reports i).worth cfg)).val =
          old.totalCirculationWats.val + ((reports i).worth cfg + ∑ j ∈ s.finished, (reports j).worth cfg) := by
        rw [hworth, hs.total]
        omega
      rw [hheld, ← hadd]
      exact I64.val_saturatingAdd (hadd ▸ hsum)
    · rcases read_update hphase hj with hj | ⟨-, hj⟩
      · have := hs.behind j snap hj
        omega
      · cases hj
    · rcases read_update hphase hj with hj | ⟨-, hj⟩
      · have := hs.behind j snap hj
        omega
      · cases hj

/-- **A stale update loses.** -/
theorem ReportStep.lost_of_stale (h : ReportStep cfg mining reports s a t) (hstale : ¬ s.Fresh cfg a)
    (hs : Counted cfg reports old s) : Lost cfg old t := by
  rcases ReportStep.cases h with ⟨i, rfl, -⟩ | ⟨i, rfl, -⟩ | ⟨i, snap, rfl, hp, hheld, hphase⟩
  · exact absurd trivial hstale
  · exact absurd trivial hstale
  · have hcard : t.finished.card = s.finished.card + 1 := by
      rw [finished_insert hphase, Finset.card_insert_of_notMem (notMem_finished hp)]
    have hold : snap ≠ s.held cfg := fun he => hstale fun snap' hp' => by
      rw [hp] at hp'
      cases hp'
      exact he
    have hlt : snap.miningReportsCount < old.miningReportsCount + s.finished.card :=
      Nat.lt_of_le_of_ne (hs.behind i snap hp) fun he => hold (hs.current i snap hp he)
    have hsucc := saturatingSucc_le snap.miningReportsCount
    refine ⟨?_, fun j snap' hj => ?_⟩
    · rw [hheld]
      simp only [nextMiningState]
      omega
    · rcases read_update hphase hj with hj | ⟨-, hj⟩
      · have := hs.behind j snap' hj
        omega
      · cases hj

/-- **What is lost stays lost.** -/
theorem ReportStep.lost (h : ReportStep cfg mining reports s a t) (hs : Lost cfg old s) : Lost cfg old t := by
  rcases ReportStep.cases h with ⟨i, -, hp, hheld, hphase⟩ | ⟨i, -, hp, hheld, hphase⟩ |
    ⟨i, snap, rfl, hp, hheld, hphase⟩
  · have hfin : t.finished = s.finished := finished_update (by decide) (by simp [hp]) hphase
    refine ⟨by rw [hheld, hfin]; exact hs.count, fun j snap hj => ?_⟩
    rcases read_update hphase hj with hj | ⟨-, hj⟩
    · rw [hfin]
      exact hs.behind j snap hj
    · cases hj
  · have hfin : t.finished = s.finished := finished_update (by simp) (by simp [hp]) hphase
    refine ⟨by rw [hheld, hfin]; exact hs.count, fun j snap hj => ?_⟩
    rcases read_update hphase hj with hj | ⟨-, hj⟩
    · rw [hfin]
      exact hs.behind j snap hj
    · cases hj
      rw [hfin]
      exact hs.count
  · have hcard : t.finished.card = s.finished.card + 1 := by
      rw [finished_insert hphase, Finset.card_insert_of_notMem (notMem_finished hp)]
    have hlt := hs.behind i snap hp
    have hsucc := saturatingSucc_le snap.miningReportsCount
    refine ⟨?_, fun j snap' hj => ?_⟩
    · rw [hheld]
      simp only [nextMiningState]
      omega
    · rcases read_update hphase hj with hj | ⟨-, hj⟩
      · have := hs.behind j snap' hj
        omega
      · cases hj

/-- Every run is fresh throughout and counted, or has lost an update. -/
theorem fresh_or_lost (db : b.Db) (hfit : CountersFit cfg reports (b.miningState cfg db)) {acts : List (ReportAct n)}
    (h : Run (ReportStep cfg mining reports) (MiningNet.start n db) acts t) :
    (Run (FreshReportStep cfg mining reports) (MiningNet.start n db) acts t ∧
      Counted cfg reports (b.miningState cfg db) t) ∨
      Lost cfg (b.miningState cfg db) t := by
  refine Run.history (I := fun acts t => (Run (FreshReportStep cfg mining reports) (MiningNet.start n db) acts t ∧
    Counted cfg reports (b.miningState cfg db) t) ∨ Lost cfg (b.miningState cfg db) t)
    (Or.inl ⟨.nil _, counted_start db⟩) ?_ h
  rintro acts t a u - (⟨hrun, hcounted⟩ | hlost) hs
  · by_cases hfresh : t.Fresh cfg a
    · have hstep : FreshReportStep cfg mining reports t a u := ⟨hfresh, hs⟩
      exact Or.inl ⟨hrun.append (.cons hstep (.nil _)), hstep.counted hfit hcounted⟩
    · exact Or.inr (hs.lost_of_stale hfresh hcounted)
  · exact Or.inr (hs.lost hlost)

/-- **No mining update is lost, exactly when.** For every number of concurrent reports, every store
and every interleaving of their calls that completes them all, where the counters have room: the
count has grown by the number of reports and the circulation by what they inserted if and only if
every update wrote onto the state its report had read. -/
theorem mining_updates_kept_iff (cfg : StoreConfig ρ) (mining : MiningConfig) (b : Backend) (n : Nat)
    (reports : Fin n → Reporter ρ) (db : b.Db) (acts : List (ReportAct n)) (net : MiningNet b n)
    (hfit : CountersFit cfg reports (b.miningState cfg db))
    (hrun : Run (ReportStep cfg mining reports) (MiningNet.start n db) acts net) (hdone : ∀ i, net.phase i = .done) :
    ((b.miningState cfg net.db).miningReportsCount = (b.miningState cfg db).miningReportsCount + n ∧
      (b.miningState cfg net.db).totalCirculationWats.val =
        (b.miningState cfg db).totalCirculationWats.val + ∑ i, (reports i).worth cfg) ↔
    Run (FreshReportStep cfg mining reports) (MiningNet.start n db) acts net := by
  have hfin : net.finished = Finset.univ := by simp [MiningNet.finished, hdone]
  have hcard : net.finished.card = n := by simp [hfin]
  constructor
  · rintro ⟨hcount, -⟩
    rcases fresh_or_lost db hfit hrun with ⟨hfresh, -⟩ | hlost
    · exact hfresh
    · have hlt := hlost.count
      rw [hcard, MiningNet.held, hcount] at hlt
      exact absurd hlt (Nat.lt_irrefl _)
  · intro hfresh
    have hcounted := Run.invariant (I := Counted cfg reports (b.miningState cfg db))
      (fun _ _ _ hs hI => hs.counted hfit hI) hfresh (counted_start db)
    have hcount := hcounted.count
    have htotal := hcounted.total
    rw [hcard] at hcount
    rw [hfin] at htotal
    exact ⟨hcount, htotal⟩

/-- A report that nobody interrupts takes the three steps in a row. -/
theorem miningReport_eq_steps {σ : Type} {A : SplittableAsset σ ρ} {config : ServeConfig} {env : RequestEnv}
    {service : Dynamo.Env} {body : Except String MiningReportBody} {bits : Nat} {records : List ρ} {db db' : b.Db}
    (hcodec : cfg.codec = A.codec) (hplan : planMint A config env body = .ok (bits, records))
    (h : miningReport A config (b.store cfg env.now service) env body db = (success, db')) :
    ∃ net : MiningNet b 1, Run (ReportStep cfg config.mining fun _ => ⟨env.now, service, bits, records⟩)
      (MiningNet.start 1 db) [.insert 0, .get 0, .update 0] net ∧ net.db = db' := by
  unfold miningReport at h
  rw [hplan] at h
  dsimp only at h
  split at h
  · cases h
  · rename_i db₁ hins
    obtain ⟨-, rfl⟩ := Prod.mk.inj h
    rw [← hcodec]
    have hexec : ∃ net, Run.exec (MiningNet.step cfg config.mining fun _ => ⟨env.now, service, bits, records⟩)
        (MiningNet.start 1 db) [.insert 0, .get 0, .update 0] = some net ∧
        net.db = ((b.store cfg env.now service).updateMiningState (nextMiningState cfg.codec config.mining bits records
          (currentMiningState (b.store cfg env.now service) db₁)) db₁).2 := by
      simp [Run.exec, MiningNet.step, MiningNet.start, Reporter.store, hins]
    obtain ⟨net, hnet, hdb⟩ := hexec
    exact ⟨net, Run.of_exec (fun _ _ _ hs => hs) hnet, hdb⟩

end

namespace Sample

/-- Two reports of one webcash each, on Redis. -/
def twoReports (i : Fin 2) : Reporter WebcashRecord :=
  ⟨⟨0⟩, .calm, 0, [⟨sha256HexOfAscii (hex (if i = 0 then 'a' else 'b')), I64.wrap 100000000, false, ⟨0⟩,
    none, .mined⟩]⟩

/-- The server they report to. -/
def reported (acts : List (ReportAct 2)) : Option (MiningNet .redis 2) :=
  Run.exec (MiningNet.step (webcashServer .redis).storeConfig (serveConfig (token "1" 'a')).mining twoReports)
    (MiningNet.start 2 Backend.redis.empty) acts

/-- Both read before either writes. -/
def crossed : List (ReportAct 2) := [.insert 0, .insert 1, .get 0, .get 1, .update 0, .update 1]

/-- One after the other, the insertions mixed. -/
def inTurn : List (ReportAct 2) := [.insert 1, .insert 0, .get 0, .update 0, .get 1, .update 1]

/-- Whether all reports are done, and the counters. -/
def countersOf (net : MiningNet .redis 2) : Bool × Nat × Int :=
  let s := Backend.redis.miningState (webcashServer .redis).storeConfig net.db
  (decide (net.phase 0 = .done) && decide (net.phase 1 = .done), s.miningReportsCount, s.totalCirculationWats.val)

end Sample

open Sample

/-- Two reports are accepted, each with a token of one webcash, and one of them is counted. -/
theorem crossed_reports_lose_one :
    (reported crossed).map countersOf = some (true, 1, 100000000) ∧
    countersOf (MiningNet.start 2 Backend.redis.empty) = (false, 0, 0) ∧
    ((twoReports 0).worth (webcashServer .redis).storeConfig = 100000000 ∧
      (twoReports 1).worth (webcashServer .redis).storeConfig = 100000000) ∧
    ∃ net : MiningNet .redis 2, Run (ReportStep (webcashServer .redis).storeConfig
      (serveConfig (token "1" 'a')).mining twoReports) (MiningNet.start 2 Backend.redis.empty) crossed net := by
  have hcounters : (reported crossed).map countersOf = some (true, 1, 100000000) := by decide +kernel
  obtain ⟨net, hnet, -⟩ := Option.map_eq_some_iff.1 hcounters
  have hrun : Run (ReportStep (webcashServer .redis).storeConfig (serveConfig (token "1" 'a')).mining twoReports)
      (MiningNet.start 2 Backend.redis.empty) crossed net := Run.of_exec (fun _ _ _ hs => hs) hnet
  exact And.intro hcounters (And.intro (by decide +kernel) (And.intro (by decide +kernel) ⟨net, hrun⟩))

/-- Two reports that take turns are both counted, so no update was stale. -/
theorem reports_in_turn :
    (reported inTurn).map countersOf = some (true, 2, 200000000) ∧
    ∃ net : MiningNet .redis 2, Run (FreshReportStep (webcashServer .redis).storeConfig
      (serveConfig (token "1" 'a')).mining twoReports) (MiningNet.start 2 Backend.redis.empty) inTurn net := by
  have hcounters : (reported inTurn).map countersOf = some (true, 2, 200000000) := by decide +kernel
  obtain ⟨net, hnet, hthere⟩ := Option.map_eq_some_iff.1 hcounters
  have hrun : Run (ReportStep (webcashServer .redis).storeConfig (serveConfig (token "1" 'a')).mining twoReports)
      (MiningNet.start 2 Backend.redis.empty) inTurn net := Run.of_exec (fun _ _ _ hs => hs) hnet
  obtain ⟨hphase, hcount, htotal⟩ : (net.phase 0 = .done ∧ net.phase 1 = .done) ∧
      (Backend.redis.miningState (webcashServer .redis).storeConfig net.db).miningReportsCount = 2 ∧
      (Backend.redis.miningState (webcashServer .redis).storeConfig net.db).totalCirculationWats.val = 200000000 := by
    simpa [countersOf] using hthere
  have hdone : ∀ i, net.phase i = .done := Fin.forall_fin_two.2 hphase
  have hworth : ∀ i, (twoReports i).worth (webcashServer .redis).storeConfig = 100000000 :=
    Fin.forall_fin_two.2 ⟨by decide +kernel, by decide +kernel⟩
  have hold : Backend.redis.miningState (webcashServer .redis).storeConfig Backend.redis.empty = .default := rfl
  have hfit : CountersFit (webcashServer .redis).storeConfig twoReports
      (Backend.redis.miningState (webcashServer .redis).storeConfig Backend.redis.empty) := by
    rw [hold]
    refine ⟨by decide, fun i => by rw [hworth]; decide, fun S => ?_⟩
    rw [Finset.sum_congr rfl fun i _ => hworth i, Finset.sum_const]
    have hcard : S.card ≤ 2 := by simpa using Finset.card_le_univ S
    have hzero : MiningState.default.totalCirculationWats.val = 0 := rfl
    have hmul : S.card • (100000000 : Int) = S.card * 100000000 := by simp
    rw [hzero, hmul]
    constructor <;> omega
  refine And.intro hcounters ⟨net, ((mining_updates_kept_iff _ _ .redis 2 twoReports Backend.redis.empty inTurn
    net hfit hrun hdone).1 ?_)⟩
  rw [hold]
  refine And.intro hcount (htotal.trans ?_)
  rw [Finset.sum_congr rfl fun i _ => hworth i]
  decide

end Webycash
