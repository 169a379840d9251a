import Webycash.Legacy.Mint
import Webycash.Lib.Run
/-!
# Store failures in the legacy miner

The mining state is persisted before the records are inserted, and the state in memory changes
last. When the insertion fails (because a call fails, or because a token exists already) the
persisted state has moved on and the one in memory has not. `rejected_without_trace_iff` says
exactly which failures of which reports leave nothing behind, and that the two states agree in
every run made of such reports, of restarts and of whatever the ledger does to the tokens.
-/

namespace Webycash.Legacy

open Redis (Claimed Tokens)

/-! ## One report -/

/-- The records whose `HSETNX` is carried out. -/
def StoreFaults.reached (faults : StoreFaults) (records : List TokenRecord) : List TokenRecord :=
  match faults.claim with
  | .none => records
  | some mask => Redis.created mask records

section

variable (cfg : StoreConfig TokenRecord) (faults : StoreFaults) (actor : MinerActor) (clock : Clock)
  (preimageStr : String) (m : Miner)

/-- A rejected report has changed neither the store nor the memory. -/
def LeavesNoTrace : Prop :=
  ∀ msg, (handleMiningReport cfg faults actor clock preimageStr m).1 = .err msg →
    (handleMiningReport cfg faults actor clock preimageStr m).2 = m

/-- The first write is not carried out; or every call goes through and all keys are free; or
everything that is carried out writes what is there already. -/
def CommitSettles (minted : Minted) (next : MiningState) : Prop :=
  faults.update = some false ∨
    (faults = .none ∧ ∀ r ∈ minted.records, ¬ Claimed m.db.tokens (cfg.recordKey r)) ∨
    (m.db.mining = some next ∧ (faults.update = some true ∨
      (faults.update = none ∧ ∀ r ∈ faults.reached minted.records, Claimed m.db.tokens (cfg.recordKey r))))

/-- The report does not get past its checks, or its store calls settle. -/
def Settles : Prop :=
  ∀ minted next, validate actor clock preimageStr m.memory = .ok minted →
    nextState actor clock minted.newCirculation m.memory = some next → CommitSettles cfg faults m minted next

end

section

variable {cfg : StoreConfig TokenRecord} {faults : StoreFaults} {records : List TokenRecord} {t : Tokens}

/-- `insert_tokens` succeeds when no call fails and all keys are free. -/
theorem insertTokens_ok_iff (hne : records ≠ []) (hnd : (records.map cfg.recordKey).Nodup) :
    (insertTokens cfg faults records t).1 = .ok () ↔
      faults.claim = none ∧ faults.fill = none ∧ ∀ r ∈ records, ¬ Claimed t (cfg.recordKey r) := by
  have hanswer : Redis.insertAnswer cfg (Redis.claim cfg records t).1 records = .ok () ↔
      ∀ r ∈ records, ¬ Claimed t (cfg.recordKey r) := by
    rw [← Redis.created_claim_eq_self_iff hnd]
    obtain ⟨c, hc, -, -, -, -, -, hiff⟩ := Redis.claim_spec cfg records t
    rw [hc, Redis.insertAnswer_ok_iff cfg (Redis.length_claim cfg records t), hiff]
  cases records with
  | nil => exact absurd rfl hne
  | cons r rs =>
    unfold insertTokens
    cases hclaim : faults.claim with
    | some mask => simp
    | none =>
      dsimp only
      split
      · rename_i hnew
        -- nothing was created, so the first key is taken
        have hsome : ¬ ∀ r' ∈ r :: rs, ¬ Claimed t (cfg.recordKey r') := by
          rw [← Redis.created_claim_eq_self_iff hnd, hnew]
          simp
        rw [hanswer]
        exact iff_of_false hsome fun h => hsome h.2.2
      · rename_i hfill _
        simp [hfill]
      · rename_i hfill _
        obtain ⟨c, hc, -, hcnd, -⟩ := Redis.claim_spec cfg (r :: rs) t
        rw [hc, Redis.fill_spec cfg c _ hcnd]
        simp only [if_true, hanswer, hfill, true_and]

/-- `insert_tokens` leaves the tokens alone when every `HSETNX` that is carried out finds its key
taken. -/
theorem insertTokens_eq_self_iff (hne : records ≠ []) :
    (insertTokens cfg faults records t).2 = t ↔ ∀ r ∈ faults.reached records, Claimed t (cfg.recordKey r) := by
  cases records with
  | nil => exact absurd rfl hne
  | cons r rs =>
    unfold insertTokens StoreFaults.reached
    cases hclaim : faults.claim with
    | some mask => exact Redis.claim_eq_self_iff
    | none =>
      dsimp only
      have hkept : ∀ t', (∀ k, Claimed (Redis.claim cfg (r :: rs) t).2 k → Claimed t' k) →
          (∃ r' ∈ r :: rs, ¬ Claimed t (cfg.recordKey r')) →
          (t' = t ↔ ∀ r' ∈ r :: rs, Claimed t (cfg.recordKey r')) := by
        rintro t' hmono ⟨r', hr', hfree⟩
        refine iff_of_false (fun he => hfree ?_) fun hall => hfree (hall r' hr')
        rw [← he]
        exact hmono _ (Redis.claimed_claim hr')
      have hcreated : Redis.created (Redis.claim cfg (r :: rs) t).1 (r :: rs) ≠ [] →
          ∃ r' ∈ r :: rs, ¬ Claimed t (cfg.recordKey r') := by
        obtain ⟨c, hc, hsub, -, hun, -⟩ := Redis.claim_spec cfg (r :: rs) t
        rw [hc]
        intro hcne
        obtain ⟨r', hr'⟩ := List.exists_mem_of_ne_nil c hcne
        exact ⟨r', hsub.subset hr', hun r' hr'⟩
      split
      · exact Redis.claim_eq_self_iff
      · rename_i hnew
        exact hkept _ (fun k hk => Redis.claimed_fill _ hk) (hcreated hnew)
      · rename_i hnew
        exact hkept _ (fun k hk => Redis.claimed_fill _ hk) (hcreated hnew)

end

/-! ### The records of a report -/

theorem deduplicate_nodup (chrono : Codec) (serviceError : String) (rs : List TokenRecord) :
    ((deduplicate rs).map (storeConfig chrono serviceError).recordKey).Nodup := by
  have hperm := (SortedMap.values_collectFirst WebcashRecord.publicHash rs).map WebcashRecord.publicHash
  have hhash : ((deduplicate rs).map WebcashRecord.publicHash).Nodup :=
    hperm.nodup_iff.2 (SortedMap.firsts_fresh WebcashRecord.publicHash rs []).2
  have hkeys := hhash.map (f := KeyStrategy.webcashLegacyKeys.tokenKey "webcash" .unscoped) fun h h' he =>
    KeyStrategy.tokenKey_inj he
  rw [List.map_map] at hkeys
  exact hkeys

theorem deduplicate_ne_nil {rs : List TokenRecord} (h : rs ≠ []) : deduplicate rs ≠ [] := by
  intro hnil
  have hperm := SortedMap.values_collectFirst WebcashRecord.publicHash rs
  rw [show SortedMap.values (SortedMap.collectFirst WebcashRecord.publicHash rs) = [] from hnil] at hperm
  exact SortedMap.firsts_ne_nil WebcashRecord.publicHash h hperm.symm.eq_nil

theorem parseOutputs_ne_nil {now : DateTime} {invalid : String} {check : SecretWebcash → Except String Unit}
    {tokens : List String} {rs : List TokenRecord} (h : parseOutputs now invalid check tokens = .ok rs)
    (hne : tokens ≠ []) :
    rs ≠ [] := by
  cases tokens with
  | nil => exact absurd rfl hne
  | cons token tokens =>
    obtain ⟨s, -, h⟩ := Except.bind_ok_iff.1 h
    obtain ⟨_, -, h⟩ := Except.bind_ok_iff.1 h
    obtain ⟨rs', -, h⟩ := Except.bind_ok_iff.1 h
    cases h
    simp

/-- A report past its checks brings records, no two under one key. -/
theorem validate_records {actor : MinerActor} {clock : Clock} {preimageStr : String} {s : MiningState} {minted : Minted}
    (chrono : Codec) (serviceError : String) (h : validate actor clock preimageStr s = .ok minted) :
    minted.records ≠ [] ∧ (minted.records.map (storeConfig chrono serviceError).recordKey).Nodup := by
  obtain ⟨preimage, webcash, subsidy, -, -, -, hsome, hweb, -, -, hrecords, -, -, -⟩ := validate_inv h
  have hne := parseOutputs_ne_nil hweb hsome
  rw [hrecords]
  exact ⟨deduplicate_ne_nil (List.append_ne_nil_of_left_ne_nil hne _), deduplicate_nodup chrono serviceError _⟩

/-! ### The report as a whole -/

section

variable {chrono : Codec} {serviceError : String} {faults : StoreFaults} {actor : MinerActor} {clock : Clock}
  {preimageStr : String} {m : Miner}

/-- **The two store calls.** -/
theorem commit_unchanged_iff {cfg : StoreConfig TokenRecord} {minted : Minted} {next : MiningState}
    (hne : minted.records ≠ []) (hnd : (minted.records.map cfg.recordKey).Nodup) :
    (∀ msg, (commit cfg faults minted next m).1 = .err msg → (commit cfg faults minted next m).2 = m) ↔
      CommitSettles cfg faults m minted next := by
  obtain ⟨memory, tokens, mining⟩ := m
  obtain ⟨update, claim, fill⟩ := faults
  unfold commit updateMiningState CommitSettles
  cases update with
  | some written =>
    cases written with
    | false => simp
    | true => simp [StoreFaults.none, eq_comm]
  | none =>
    have hok : (insertTokens cfg ⟨none, claim, fill⟩ minted.records tokens).1 = .ok () ↔
        claim = none ∧ fill = none ∧ ∀ r ∈ minted.records, ¬ Claimed tokens (cfg.recordKey r) :=
          insertTokens_ok_iff hne hnd
    have hself : (insertTokens cfg ⟨none, claim, fill⟩ minted.records tokens).2 = tokens ↔
        ∀ r ∈ StoreFaults.reached ⟨none, claim, fill⟩ minted.records, Claimed tokens (cfg.recordKey r) :=
      insertTokens_eq_self_iff hne
    dsimp only at hself ⊢
    generalize insertTokens cfg ⟨none, claim, fill⟩ minted.records tokens = result at hok hself ⊢
    obtain ⟨answer, t⟩ := result
    cases answer with
    | ok u =>
      obtain ⟨rfl, rfl, hfree⟩ := hok.1 rfl
      simpa [StoreFaults.none] using Or.inl hfree
    | error e =>
      have hfail : ¬ (StoreFaults.mk none claim fill = .none ∧ ∀ r ∈ minted.records,
          ¬ Claimed tokens (cfg.recordKey r)) := by
        rintro ⟨hnone, hfree⟩
        cases hnone
        exact absurd (hok.2 ⟨rfl, rfl, hfree⟩) (by simp)
      dsimp only at hself
      rw [← hself]
      simp only [hfail, reduceCtorEq, false_or, true_and, Outcome.err.injEq, forall_eq', Miner.mk.injEq, Db.mk.injEq]
      exact ⟨fun ⟨ht, hm⟩ => ⟨hm.symm, ht⟩, fun ⟨hm, ht⟩ => ⟨ht, hm.symm⟩⟩

/-- **One report, exactly when.** -/
theorem leavesNoTrace_iff : LeavesNoTrace (storeConfig chrono serviceError) faults actor clock preimageStr m ↔
    Settles (storeConfig chrono serviceError) faults actor clock preimageStr m := by
  unfold LeavesNoTrace Settles handleMiningReport
  cases hval : validate actor clock preimageStr m.memory with
  | error e => simp
  | ok minted =>
    dsimp only
    obtain ⟨hne, hnd⟩ := validate_records chrono serviceError hval
    cases hnext : nextState actor clock minted.newCirculation m.memory with
    | none =>
      refine iff_of_true (by simp) ?_
      rintro _ next ⟨⟩ hsome
      rw [hnext] at hsome
      cases hsome
    | some next =>
      dsimp only
      rw [commit_unchanged_iff hne hnd]
      constructor
      · rintro hsettles _ _ ⟨⟩ hsome
        rw [hnext] at hsome
        cases hsome
        exact hsettles
      · exact fun h => h minted next rfl hnext

end

/-! ## Runs -/

/-- What happens to a miner and its store: a report, a restart, or whatever the ledger does to the
tokens in between. -/
inductive Event
  | report (faults : StoreFaults) (clock : Clock) (preimageStr : String)
  | restart (faults : StoreFaults) (now : DateTime) (readable : Bool)
  | ledger (tokens : Tokens)

section

variable (cfg : StoreConfig TokenRecord) (actor : MinerActor)

def Miner.step (m : Miner) : Event → Option Miner
  | .report faults clock preimageStr => some (handleMiningReport cfg faults actor clock preimageStr m).2
  | .restart faults now readable => (preStart cfg faults actor now readable m.db).toOption
  | .ledger tokens => some { m with db := { m.db with tokens := tokens } }

/-- A step whose report, if it is one, settles. -/
def SettledStep (m : Miner) (e : Event) (m' : Miner) : Prop :=
  m.step cfg actor e = some m' ∧ ∀ faults clock preimageStr, e = .report faults clock preimageStr →
    Settles cfg faults actor clock preimageStr m

/-- The persisted mining state is the one in memory. -/
def Miner.Synced (m : Miner) : Prop := m.db.mining = some m.memory

end

section

variable {chrono : Codec} {serviceError : String} {cfg : StoreConfig TokenRecord} {faults : StoreFaults}
  {actor : MinerActor} {clock : Clock} {preimageStr : String} {m m' : Miner}

theorem preStart_synced {now : DateTime} {readable : Bool} {db : Db}
    (h : preStart cfg faults actor now readable db = .ok m) :
    m.Synced := by
  unfold preStart at h
  split at h
  · cases h
  · rename_i state hstate
    cases h
    exact hstate
  · dsimp only at h
    split at h
    · cases h
    · rename_i db₁ hupdate
      cases h
      unfold updateMiningState at hupdate
      split at hupdate <;> cases hupdate
      rfl

/-- An accepted report has persisted what it holds in memory. -/
theorem handleMiningReport_synced {bits : Nat}
    (h : handleMiningReport cfg faults actor clock preimageStr m = (.ok bits, m')) :
    m'.Synced := by
  unfold handleMiningReport at h
  split at h
  · cases h
  · split at h
    · cases h
    · unfold commit at h
      split at h
      · cases h
      · rename_i next _ db₁ hupdate
        split at h
        · cases h
        · cases h
          unfold updateMiningState at hupdate
          split at hupdate <;> cases hupdate
          rfl

/-- A panic comes before the first write. -/
theorem handleMiningReport_panicked (h : handleMiningReport cfg faults actor clock preimageStr m =
    (.panicked, m')) : m' = m := by
  unfold handleMiningReport at h
  split at h
  · cases h
  · split at h
    · exact (Prod.mk.inj h).2.symm
    · unfold commit at h
      split at h
      · cases h
      · split at h <;> cases h

/-- **A settled step keeps the two states together.** -/
theorem SettledStep.synced {e : Event} (h : SettledStep (storeConfig chrono serviceError) actor m e m')
    (hm : m.Synced) :
    m'.Synced := by
  obtain ⟨hstep, hsettles⟩ := h
  cases e with
  | report faults clock preimageStr =>
    have hno := leavesNoTrace_iff.2 (hsettles faults clock preimageStr rfl)
    unfold LeavesNoTrace at hno
    simp only [Miner.step, Option.some.injEq] at hstep
    cases hrun : handleMiningReport (storeConfig chrono serviceError) faults actor clock preimageStr m with
    | mk outcome m₁ =>
      rw [hrun] at hno hstep
      obtain rfl : m₁ = m' := hstep
      cases outcome with
      | ok bits => exact handleMiningReport_synced hrun
      | err msg =>
        obtain rfl : m₁ = m := hno msg rfl
        exact hm
      | panicked =>
        rw [handleMiningReport_panicked hrun]
        exact hm
  | restart faults now readable =>
    unfold Miner.step at hstep
    cases hpre : preStart (storeConfig chrono serviceError) faults actor now readable m.db with
    | error e => simp [hpre, Except.toOption] at hstep
    | ok m₁ =>
      obtain rfl : m₁ = m' := by simpa [hpre, Except.toOption] using hstep
      exact preStart_synced hpre
  | ledger tokens =>
    cases hstep
    exact hm

end

/-- **A rejected report leaves no trace, exactly when.** For every miner, store, report and failure
of the store calls: a rejected report leaves store and memory as they were if and only if it
settles. And from any store on which the actor starts, in every run whose reports settle, the
persisted mining state is the one in memory. -/
theorem rejected_without_trace_iff (chrono : Codec) (serviceError : String) (actor : MinerActor) :
    (∀ faults clock preimageStr m, LeavesNoTrace
      (storeConfig chrono serviceError) faults actor clock preimageStr m ↔
      Settles (storeConfig chrono serviceError) faults actor clock preimageStr m) ∧
    (∀ faults now readable db m, preStart (storeConfig chrono serviceError) faults actor now readable db = .ok m →
      ∀ events m', Run (SettledStep (storeConfig chrono serviceError) actor) m events m' → m'.Synced) := by
  refine ⟨fun faults clock preimageStr m => leavesNoTrace_iff,
    fun faults now readable db m hstart events m' hrun => ?_⟩
  exact Run.invariant (fun _ _ _ hs hm => hs.synced hm) hrun (preStart_synced hstart)

namespace Sample

/-- The same report again, with a store that does not fail. -/
def replayed (webcash : List String) : Outcome × Miner :=
  handleMiningReport config .none (actor webcash) clock (preimageText webcash) (reported webcash).2

/-- The number of reports, as persisted and in memory. -/
def counts (m : Miner) : Option Nat × Nat :=
  (m.db.mining.map MiningState.miningReportsCount, m.memory.miningReportsCount)

theorem not_synced_of_counts {m : Miner} {a b : Nat} (h : counts m = (some a, b)) (hne : a ≠ b) : ¬ m.Synced := by
  intro hm
  rw [counts, hm] at h
  obtain ⟨ha, hb⟩ := Prod.mk.inj h
  exact hne ((Option.some.inj ha).symm.trans hb)

end Sample

open Legacy.Sample
open Webycash.Sample (token)

/-- A report that is sent twice is rejected the second time, and has been counted in the store: the
persisted and the remembered mining state part. -/
theorem replayed_report_persists :
    (reported [token "1" 'a']).1 = .ok 0 ∧ counts (reported [token "1" 'a']).2 = (some 1, 1) ∧
    (∃ msg, (replayed [token "1" 'a']).1 = .err msg) ∧ counts (replayed [token "1" 'a']).2 = (some 2, 1) ∧
    ¬ LeavesNoTrace config .none (actor [token "1" 'a']) clock (preimageText [token "1" 'a'])
      (reported [token "1" 'a']).2 ∧
    ¬ (replayed [token "1" 'a']).2.Synced := by
  have hrun : (reported [token "1" 'a']).1 = .ok 0 ∧ counts (reported [token "1" 'a']).2 = (some 1, 1) ∧
      (replayed [token "1" 'a']).1 = .err ("token already exists: " ++ sha256HexOfAscii (Webycash.Sample.hex 'b')) ∧
      counts (replayed [token "1" 'a']).2 = (some 2, 1) := by decide +kernel
  have hparted := not_synced_of_counts hrun.2.2.2 (by decide)
  refine ⟨hrun.1, hrun.2.1, ⟨_, hrun.2.2.1⟩, hrun.2.2.2, fun hno => hparted ?_, hparted⟩
  have hsame : (replayed [token "1" 'a']).2 = (reported [token "1" 'a']).2 := hno _ hrun.2.2.1
  have hcounts := hrun.2.2.2
  rw [hsame, hrun.2.1] at hcounts
  exact absurd hcounts (by decide)

namespace Sample

/-- The first write does not go through. -/
def refusing : StoreFaults := { StoreFaults.none with update := some false }

def reportA (faults : StoreFaults) : Event := .report faults clock (preimageText [token "1" 'a'])

def refused : Outcome × Miner := handleMiningReport config refusing (actor [token "1" 'a']) clock
    (preimageText [token "1" 'a']) started

end Sample

/-- A miner starts, a report is refused because the store is down and accepted when it is sent again, and the
miner restarts. -/
theorem report_and_restart_synced :
    ∃ m, Run (SettledStep config (actor [token "1" 'a'])) started
      [reportA refusing, reportA .none, .restart .none ⟨0⟩ true] m ∧
        (∃ msg, refused.1 = .err msg) ∧ m.Synced := by
  obtain ⟨hiff, hsynced⟩ := rejected_without_trace_iff .atEpoch "service error" (actor [token "1" 'a'])
  have herr : ∃ msg, refused.1 = .err msg := ⟨_, show refused.1 = .err "service error" by decide +kernel⟩
  have hrefusing : Settles config refusing (actor [token "1" 'a']) clock (preimageText [token "1" 'a']) started :=
    fun _ _ _ _ => .inl rfl
  have hrefused : SettledStep config (actor [token "1" 'a']) started (reportA refusing) started := by
    obtain ⟨msg, hmsg⟩ := herr
    have hsame : refused.2 = started := (hiff refusing clock _ started).2 hrefusing msg hmsg
    refine ⟨congrArg some hsame, fun faults clock' text he => ?_⟩
    cases he
    exact hrefusing
  have hok : (reported [token "1" 'a']).1 = .ok 0 := by decide +kernel
  have hsettles : Settles config .none (actor [token "1" 'a']) clock (preimageText [token "1" 'a']) started := by
    refine (hiff .none clock (preimageText [token "1" 'a']) started).1 fun msg hmsg => ?_
    have hne : Outcome.ok 0 = .err msg := hok.symm.trans hmsg
    cases hne
  have hreport : SettledStep config (actor [token "1" 'a']) started (reportA .none) (reported [token "1" 'a']).2 := by
    refine ⟨rfl, fun faults clock' text he => ?_⟩
    cases he
    exact hsettles
  -- the store was empty when the actor came up
  have hone := hsynced .none ⟨0⟩ true ⟨∅, none⟩ started rfl _ _ (.cons hreport (.nil _))
  have hrestart : SettledStep config (actor [token "1" 'a']) (reported [token "1" 'a']).2 (.restart .none ⟨0⟩ true)
      (reported [token "1" 'a']).2 := by
    refine ⟨?_, fun faults clock' text he => by cases he⟩
    generalize (reported [token "1" 'a']).2 = m at hone ⊢
    simp only [Miner.Synced] at hone
    simp [Miner.step, preStart, hone, Except.toOption]
  have hrun := Run.cons hrefused (.cons hreport (.cons hrestart (.nil _)))
  exact ⟨_, hrun, herr, hsynced .none ⟨0⟩ true ⟨∅, none⟩ started rfl _ _ hrun⟩

end Webycash.Legacy
