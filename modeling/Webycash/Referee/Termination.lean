import Webycash.Referee.Recovery
import Webycash.Referee.Rows
/-!
# Every swap comes to an end

Where no collaborator fails, each `advance_swap` brings a swap that has been pushed closer to a
terminal phase, whatever the health check answers: it spends a push of the budget, or it leaves the
phase for the next one. `left` counts both. Cancelling ends the swap at once, and calls on other
swaps do not touch it, so the bound holds of any sequence of calls (`swaps_terminate`), and the loop
of `run_to_completion` is over after that many rounds (`runRounds_ends`).
-/

namespace Webycash.Referee

open Prog

/-- One call in which no collaborator fails; the id of a start is new. -/
def Past.SmoothStep (sv : Services) (o : Orchestrator) (s : Past) (call : Request × (Nat → Answer))
    (s' : Past) : Prop :=
  s.Step sv o call s' ∧ (call.1.IsStart → s.world.rows.lookup call.1.id = .none) ∧
  ∀ m ∈ ((program o call.1).run (World.serve sv) call.2 s.world).trace, ∃ v, m.result = .ok v

/-- `advance_swap` again and again, for `n` rounds; `none` when the swap has not ended by then. -/
def runRounds (o : Orchestrator) (id : SwapId) : Nat → Async (Option SwapOutcome)
  | 0 => return none
  | n + 1 => do
    let outcome ← advanceSwap o id
    match outcome with
    | some outcome => return some outcome
    | none => runRounds o id n

/-- The first `n` rounds of `run_to_completion`. -/
def runToCompletion (o : Orchestrator) (id : SwapId) (req : InitiateRequest) (n : Nat) :
    Async (Option SwapOutcome) := do
  let id ← startSwap o id req
  runRounds o id n

/-- The secret has been pushed, or the swap is over. -/
def Phase.PastPush : Phase → Prop
  | .init | .zkpsVerified | .preChecked => False
  | _ => True

variable {sv : Services} {o : Orchestrator} {id : SwapId} {w : World} {tx tx' : Transaction} {s s' : Past}
  {call : Request × (Nat → Answer)}

theorem terminal_of_left_eq_zero (hpast : tx.phase.PastPush) (h : left o.insertPushRetry tx = 0) :
    tx.phase.isTerminal := by
  unfold left at h
  cases hphase : tx.phase <;> simp only [hphase, Phase.PastPush] at h hpast <;> first | rfl | omega

/-- **The measure falls.** -/
theorem Transaction.AdvancesTo.left_lt (h : tx.AdvancesTo o tx') (hpast : tx.phase.PastPush) :
    tx'.phase.PastPush ∧ (tx.phase.isTerminal ∧ tx' = tx ∨ left o.insertPushRetry tx' <
      left o.insertPushRetry tx) := by
  unfold Transaction.AdvancesTo at h
  cases hphase : tx.phase with
  | init | zkpsVerified | preChecked =>
    rw [hphase] at hpast
    exact hpast.elim
  | settled | refunded | canceled =>
    rw [hphase] at h
    subst h
    exact ⟨hpast, .inl ⟨rfl, rfl⟩⟩
  | insertPushed =>
    rw [hphase] at h
    rcases h with h | h | ⟨h, hlt, hnext⟩ <;> simp only [left, hphase, h, Phase.PastPush, true_and]
    · exact .inr (by omega)
    · exact .inr (by omega)
    · have hlt := UInt8.lt_iff_toNat_lt.1 hlt
      have hbound := o.insertPushRetry.toNat_lt
      simp only [hnext, UInt8.toNat_add, UInt8.toNat_one]
      exact .inr (by omega)
  | aborted | invalidated =>
    rw [hphase] at h
    simp only [left, hphase, show tx'.phase = _ from h, Phase.PastPush, true_and]
    exact .inr (by omega)

/-! ## One call -/

theorem Past.SmoothStep.sound (h : s.SmoothStep sv o call s') (hw : s.world.Sound o) : s'.world.Sound o := by
  obtain ⟨rfl, hnew, -⟩ := h
  exact (((along_program hw hnew).keeps hw fun _ _ hE hI => hI.edits hE).run _ fun _ _ => trivial).2

/-- An `advance_swap` in which nothing fails succeeds. -/
theorem Past.SmoothStep.advance {as : Nat → Answer} (h : s.SmoothStep sv o (.advance id, as) s')
    (hw : s.world.Sound o) (hrow : s.world.rows.lookup id = some tx) :
    ∃ out tx', ((program o (.advance id)).run (World.serve sv) as s.world).value =
      .ok (.advanced out) ∧ s'.world.rows.lookup id = some tx' ∧ tx.AdvancesTo o tx' ∧
        out.isSome = tx'.phase.isTerminal := by
  obtain ⟨rfl, -, hok⟩ := h
  have hrun : (program o (.advance id)).run (World.serve sv) as s.world = _ :=
    run_task_map (advanceSwap o id) Reply.advanced as s.world
  have hwrites : Writes sv o id True (advanceSwap o id).run s.world (Advanced o id tx True) :=
    writes_advanceSwap hw hrow
  have hadv := hwrites.run as fun m hm _ => hok m (by rw [hrun]; exact hm)
  cases hres : ((advanceSwap o id).run.run (World.serve sv) as s.world).value with
  | error e =>
    rw [hres] at hadv
    exact absurd trivial hadv
  | ok out =>
    rw [hres] at hadv
    obtain ⟨tx', hrow', hstep, hout⟩ := hadv
    refine ⟨out, tx', ?_, ?_, hstep, hout⟩
    · rw [hrun, hres]
      rfl
    · rw [Past.serve, hrun]
      exact hrow'

/-- How a call moves a swap that has been pushed. -/
theorem Past.SmoothStep.left_le (h : s.SmoothStep sv o call s') (hw : s.world.Sound o)
    (hrow : s.world.rows.lookup id = some tx)
    (hpast : tx.phase.PastPush) : ∃ tx', s'.world.rows.lookup id = some tx' ∧ tx'.phase.PastPush ∧
      left o.insertPushRetry tx' ≤ left o.insertPushRetry tx - (if call.1 = .advance id then 1 else 0) := by
  obtain ⟨r, as⟩ := call
  by_cases hid : r.id = id
  · subst hid
    cases r with
    | start id req =>
      have hnone := h.2.1 ⟨id, req, rfl⟩
      rw [hnone] at hrow
      cases hrow
    | advance id =>
      obtain ⟨-, tx', -, hrow', hstep, -⟩ := h.advance hw hrow
      obtain ⟨hpast', ⟨hterm, rfl⟩ | hlt⟩ := hstep.left_lt hpast
      · refine ⟨tx', hrow', hpast', ?_⟩
        have hzero : left o.insertPushRetry tx' = 0 := by
          unfold left
          cases hphase : tx'.phase <;> rw [hphase] at hterm <;> first | rfl | cases hterm
        omega
      · refine ⟨tx', hrow', hpast', ?_⟩
        rw [Request.id, if_pos rfl]
        omega
    | cancel id byPgpFp reason sigHex =>
      obtain ⟨rfl, -, hok⟩ := h
      have hrun : (program o (.cancel id byPgpFp reason sigHex)).run (World.serve sv) as s.world = _ :=
        run_task_map (cancelSwap o id byPgpFp reason sigHex) (fun _ => Reply.canceled) as s.world
      have hwrites : Writes sv o id True (cancelSwap o id byPgpFp reason sigHex).run s.world fun _ w' =>
          Canceled id (s.world.rows.lookup id) True w' := writes_cancelSwap hw
      have hcancel := hwrites.run as fun m hm _ => hok m (by rw [hrun]; exact hm)
      rw [Past.serve, hrun]
      rcases hcancel trivial with hsame | ⟨tx', hrow', hphase⟩
      · exact ⟨tx, hsame.trans hrow, hpast, Nat.le_refl _⟩
      · exact ⟨tx', hrow', by rw [hphase]; trivial, by simp [left, hphase]⟩
  · have hedits : s'.world.rows.lookup id = s.world.rows.lookup id := by
      obtain ⟨rfl, hnew, -⟩ := h
      have hwrites : Along (World.serve sv) (fun _ => True) (Edits o r.id) (program o r) s.world fun _ _ => True :=
        along_program hw hnew
      have hkeep := hwrites.keeps (I := fun w => w.rows.lookup id = s.world.rows.lookup id) rfl
        fun w w' hE hI => (hE.others id fun he => hid he.symm).trans hI
      exact (hkeep.run _ fun _ _ => trivial).2
    refine ⟨tx, hedits.trans hrow, hpast, ?_⟩
    rw [if_neg]
    · exact Nat.le_refl _
    · rintro rfl
      exact hid rfl

/-! ## Runs -/

/-- How many of the calls are `advance_swap` on the swap. -/
def advances (id : SwapId) (calls : List (Request × (Nat → Answer))) : Nat :=
  calls.countP fun call => call.1 = .advance id

theorem sound_of_run {calls : List (Request × (Nat → Answer))} (h : Run (Past.SmoothStep sv o) s calls s')
    (hw : s.world.Sound o) : s'.world.Sound o :=
  Run.invariant (I := fun s : Past => s.world.Sound o) (fun _ _ _ hs hw => hs.sound hw) h hw

/-- **The measure along a run.** -/
theorem left_le_of_run {calls : List (Request × (Nat → Answer))} (h : Run (Past.SmoothStep sv o) s calls s')
    (hw : s.world.Sound o) (hrow : s.world.rows.lookup id = some tx) (hpast : tx.phase.PastPush) :
    ∃ tx', s'.world.rows.lookup id = some tx' ∧ tx'.phase.PastPush ∧
      left o.insertPushRetry tx' ≤ left o.insertPushRetry tx - advances id calls := by
  induction h generalizing tx with
  | nil => exact ⟨tx, hrow, hpast, Nat.le_refl _⟩
  | @cons s t u call calls hs _ ih =>
    obtain ⟨tx₁, hrow₁, hpast₁, hle₁⟩ := hs.left_le hw hrow hpast
    obtain ⟨tx₂, hrow₂, hpast₂, hle₂⟩ := ih (hs.sound hw) hrow₁ hpast₁
    refine ⟨tx₂, hrow₂, hpast₂, ?_⟩
    rw [advances, List.countP_cons]
    rw [advances] at hle₂
    simp only [decide_eq_true_eq] at hle₁ ⊢
    omega

/-- The rounds of `run_to_completion` from a swap that has been pushed. -/
theorem runRounds_ends {n : Nat} (hw : w.Sound o) (hrow : w.rows.lookup id = some tx) (hpast : tx.phase.PastPush)
    (hterm : tx.phase.isTerminal = false) (hn : left o.insertPushRetry tx ≤ n) :
    Writes sv o id True (runRounds o id n).run w fun res _ => ∃ out, res = .ok (some out) := by
  induction n generalizing tx w with
  | zero =>
    have h := terminal_of_left_eq_zero hpast (Nat.le_zero.1 hn)
    rw [hterm] at h
    cases h
  | succ n ih =>
    refine along_task_bind (((writes_advanceSwap hw hrow).keeps hw fun _ _ hE hI => hI.edits hE).mono (fun _ hm => hm)
      fun res w' ⟨hadv, hw'⟩ => ?_)
    cases res with
    | error e => exact absurd trivial hadv
    | ok out =>
      obtain ⟨tx', hrow', hstep, hout⟩ := hadv
      cases out with
      | some out => exact ⟨out, rfl⟩
      | none =>
        obtain ⟨hpast', ⟨h, -⟩ | hlt⟩ := hstep.left_lt hpast
        · rw [hterm] at h
          cases h
        · exact ih hw' hrow' hpast' hout.symm (by omega)

/-- **Bounded termination.** In a sequential run in which no collaborator fails and the ids of
starts are new, whatever the health check answers: a swap at `insert-pushed` after `k` pushes is
terminal after `max(r - k, 0) + 3` more calls of `advance_swap`, among any others; it is never pushed
more than `max(1, r)` times, a push that is left can be counted, and `advance_swap` succeeds, with an
outcome when it ends the swap. So `run_to_completion`, once its start has succeeded, ends in as many
rounds. -/
theorem swaps_terminate (sv : Services) (o : Orchestrator)
    (history calls : List (Request × (Nat → Answer))) (s s' : Past)
    (hs : Run (Past.SmoothStep sv o) Past.none history s) (h : Run (Past.SmoothStep sv o) s calls s') :
    (∀ id tx, s.world.rows.lookup id = some tx → tx.phase = .insertPushed →
      ∃ tx', s'.world.rows.lookup id = some tx' ∧
        (o.insertPushRetry.toNat - tx.insertPushAttempts.toNat + 3 ≤ advances id calls → tx'.phase.isTerminal) ∧
        tx'.insertPushAttempts.toNat ≤ max 1 o.insertPushRetry.toNat ∧
        (tx'.insertPushAttempts < o.insertPushRetry → ∀ now tip, ∃ t,
          insertPushedRetry ⟨tx'.stateBlob.inner⟩ now tip = .ok t ∧
          t.insertPushAttempts.toNat = tx'.insertPushAttempts.toNat + 1) ∧
        ∀ as s'', s'.SmoothStep sv o (.advance id, as) s'' → ∃ out tx'',
          ((program o (.advance id)).run (World.serve sv) as s'.world).value = .ok (.advanced out) ∧
          s''.world.rows.lookup id = some tx'' ∧ out.isSome = tx''.phase.isTerminal) ∧
    ∀ id req as n, s'.world.rows.lookup id = none → o.insertPushRetry.toNat - 1 + 3 ≤ n →
      (∀ m ∈ ((runToCompletion o id req n).run.run (World.serve sv) as s'.world).trace, ∃ v, m.result = .ok v) →
      ((runToCompletion o id req n).run.run (World.serve sv) as s'.world).value ≠ .ok none := by
  have hw := sound_of_run hs (World.sound_empty o)
  have hw' := sound_of_run h hw
  refine ⟨fun id tx hrow hphase => ?_, fun id req as n hnew hn hok => ?_⟩
  · obtain ⟨tx', hrow', hpast, hle⟩ := left_le_of_run h hw hrow (by rw [hphase]; trivial)
    have hsound' := hw' id tx' hrow'
    have hattempts := (hw id tx hrow).flat.insertPushAttempts
    refine ⟨tx', hrow', fun hmany => terminal_of_left_eq_zero (o := o) hpast ?_, ?_, fun hlt now tip => ?_,
      fun as s'' hnext => ?_⟩
    · rw [show left o.insertPushRetry tx = o.insertPushRetry.toNat - tx.insertPushAttempts.toNat + 3 by
        simp [left, hphase, hattempts]] at hle
      omega
    · rw [hsound'.flat.insertPushAttempts]
      exact hsound'.attempts
    · rw [hsound'.flat.insertPushAttempts] at hlt ⊢
      refine ⟨_, insertPushedRetry_ok (s := ⟨tx'.stateBlob.inner⟩) hlt, ?_⟩
      have hlt := UInt8.lt_iff_toNat_lt.1 hlt
      have hbound := o.insertPushRetry.toNat_lt
      simp only [UInt8.toNat_add, UInt8.toNat_one]
      omega
    · obtain ⟨out, tx'', hvalue, hrow'', -, hout⟩ := hnext.advance hw' hrow'
      exact ⟨out, tx'', hvalue, hrow'', hout⟩
  · have hstart : Writes sv o id False (startSwap o id req).run s'.world (Started id req) := writes_startSwap hnew
    have hends : Writes sv o id True (runToCompletion o id req n).run s'.world fun res _ => res ≠ .ok none := by
      refine along_task_bind ((hstart.keeps hw' fun _ _ hE hI => hI.edits hE).mono (fun _ _ h => False.elim h) ?_)
      rintro res w ⟨hstarted, hw⟩
      cases res with
      | error e =>
        intro h
        cases h
      | ok i =>
        obtain ⟨rfl, tx, hrow, hphase, hattempts, -⟩ := hstarted i rfl
        refine (runRounds_ends hw hrow (by rw [hphase]; trivial) (by rw [hphase]; rfl) ?_).mono (fun _ hm => hm) ?_
        · simp only [left, hphase, hattempts]
          exact hn
        · rintro _ _ ⟨out, rfl⟩ h
          cases h
    exact hends.run as fun m hm _ => hok m hm

namespace Sample

/-- The id of a start has no row. -/
def isNew (s : Past) : Request → Bool
  | .start id _ => (s.world.rows.lookup id).isNone
  | _ => true

/-- One call, `none` when a collaborator fails. -/
def smooth? (s : Past) (call : Request × (Nat → Answer)) : Option Past :=
  if isNew s call.1 && ((program orchestrator call.1).run (World.serve services) call.2 s.world).trace.all
    fun m => m.result.isOk
    then some (s.serve services orchestrator call.1 call.2) else none

end Sample

open Webycash.Referee.Sample

theorem smooth_run {calls : List (Request × (Nat → Answer))} (h : Run.exec smooth? s calls = some s') :
    Run (Past.SmoothStep services orchestrator) s calls s' := by
  refine Run.of_exec (fun s call s' hs => ?_) h
  unfold smooth? at hs
  split at hs
  · rename_i hok
    obtain ⟨hnew, hall⟩ := Bool.and_eq_true_iff.1 hok
    cases hs
    refine ⟨rfl, fun ⟨id, req, hr⟩ => ?_, fun m hm => ?_⟩
    · rw [hr] at hnew ⊢
      exact Option.isNone_iff_eq_none.1 hnew
    · have hres := List.all_eq_true.1 hall m hm
      cases hr : m.result with
      | ok v => exact ⟨v, rfl⟩
      | error e =>
        rw [hr] at hres
        cases hres
  · cases hs

namespace Sample

def startCalls : List (Request × (Nat → Answer)) := [(.start swapId initiateRequest, fun _ => healthy .unspent)]

def threeAdvances : List (Request × (Nat → Answer)) := List.replicate 3 (.advance swapId, fun _ => healthy .unspent)

end Sample

/-- `H_B` is never spent: one push, then three calls to the refund. -/
theorem swaps_terminate_refunded : ∃ s s' :
    Past, Run (Past.SmoothStep services orchestrator) Past.none startCalls s ∧
    Run (Past.SmoothStep services orchestrator) s threeAdvances s' ∧
    ∃ tx, s.world.rows.lookup swapId = some tx ∧ tx.phase = .insertPushed ∧
      ∃ tx', s'.world.rows.lookup swapId = some tx' ∧ tx'.phase.isTerminal ∧ tx'.phase = .refunded := by
  have h : ((Run.exec smooth? Past.none startCalls).bind fun s => (Run.exec smooth? s threeAdvances).bind fun s' =>
      (s.world.rows.lookup swapId).map fun tx => decide (tx.phase = .insertPushed ∧ tx.insertPushAttempts = 1 ∧
        s'.world.phaseOf swapId = some .refunded)) = some true := by decide +kernel
  obtain ⟨s, hs, h⟩ := Option.bind_eq_some_iff.1 h
  obtain ⟨s', hs', h⟩ := Option.bind_eq_some_iff.1 h
  obtain ⟨tx, hrow, h⟩ := Option.map_eq_some_iff.1 h
  obtain ⟨hphase, hone, hrefunded⟩ := of_decide_eq_true h
  have hstart := smooth_run hs
  have hadvance := smooth_run hs'
  obtain ⟨tx', hrow', hterm, -⟩ := (swaps_terminate services orchestrator _ _ s s' hstart hadvance).1
    swapId tx hrow hphase
  rw [World.phaseOf, hrow'] at hrefunded
  refine ⟨s, s', hstart, hadvance, tx, hrow, hphase, tx', hrow', hterm ?_, Option.some.inj hrefunded⟩
  rw [hone]
  simp [advances, threeAdvances, orchestrator]

end Webycash.Referee
