import Webycash.Referee.Rows
/-!
# Starting a swap again

`POST /v1/swap/initiate` is not idempotent: every call begins a fresh swap (docs/api.md, "Idempotency";
the comment at the head of orchestrator.rs, which speaks of a retry that returns the existing id, is
older than the code). `start_swap` draws a new id at every call and looks nothing up. So no repetition
is answered with the first id (`start_never_repeats`): one that succeeds answers its own id and has
begun its own session, and as long as the first swap is open there are then two open swaps with the
same `H_B` and the same vtxo.
-/

namespace Webycash.Referee

open Prog

/-- The call answers the id of a swap that is there, and neither begins a session nor pushes a secret. -/
structure Repeats (id : SwapId) (out : Outcome (fun c => Except RefereeError (Call.Result c))
    (Except RefereeError Reply) Answer World) :
    Prop where
  sameId : out.value = .ok (.started id)
  noSession : ∀ m ∈ out.trace, ∀ i session, m.call = .beginSession i session → ∃ e, m.result = .error e
  noInsert : ∀ m ∈ out.trace, ∀ push, m.call = .dispatch push → push.kind = .insert →
    ∃ e, m.result = .error e

/-- The swap has a row that is not terminal, over this webcash and this vtxo. -/
def OpenSwap (w : World) (id : SwapId) (hB : WebcashPublicHash) (vtxo : ArkOutpointHash) : Prop :=
  ∃ tx, w.rows.lookup id = some tx ∧ tx.terminal = false ∧ tx.webcashPublicHash = hB ∧
    tx.vtxoOutpointHash = vtxo

variable {sv : Services} {o : Orchestrator} {id id' : SwapId} {req : InitiateRequest} {s s' : Past} {w : World}
  {call : Request × (Nat → Answer)}

/-- The row a start that succeeded leaves. -/
theorem started_row {as : Nat → Answer} (hnew : w.rows.lookup id = none)
    (h : ((program o (.start id req)).run (World.serve sv) as w).value = .ok (.started id')) :
    id' = id ∧ ∃ tx, ((program o (.start id req)).run (World.serve sv) as w).world.rows.lookup id = some tx ∧
      tx.phase = .insertPushed ∧ (Request.start id req).Opens tx.stateBlob.inner := by
  have hrun : (program o (.start id req)).run (World.serve sv) as w = _ :=
    run_task_map (startSwap o id req) Reply.started as w
  have hwrites : Writes sv o id False (startSwap o id req).run w (Started id req) := writes_startSwap hnew
  have hstarted := hwrites.run as fun _ _ => nofun
  rw [hrun] at h ⊢
  cases hres : ((startSwap o id req).run.run (World.serve sv) as w).value with
  | error e =>
    rw [hres] at h
    cases h
  | ok i =>
    rw [hres] at h
    cases h
    obtain ⟨rfl, tx, hrow, hphase, -, hopens⟩ := hstarted _ hres
    exact ⟨rfl, tx, hrow, hphase, hopens⟩

theorem await_error {β : Type} {c : Call} {f : c.Result → Async β} {as : Nat → Answer} {e : RefereeError}
    (h : (World.serve sv c (as 0) w).1 = .error e) :
    ((await c >>= f).run.run (World.serve sv) as w).value = .error e := by
  show (Prog.run (World.serve sv) (ExceptT.bindCont f (World.serve sv c (as 0) w).1) _ _).value = _
  rw [h]
  rfl

/-- A start that does not fail has begun a session for its id. -/
theorem begun_of_started {as : Nat → Answer} {reply : Reply}
    (h : ((program o (.start id req)).run (World.serve sv) as w).value = .ok reply) :
    ∃ m ∈ ((program o (.start id req)).run (World.serve sv) as w).trace, m.call = .beginSession id .settle ∧
      ∀ e, m.result ≠ .error e := by
  refine ⟨⟨.beginSession id .settle, as 1, (World.serve sv (.beginSession id .settle) (as 1) w).1⟩,
    List.mem_cons_of_mem _ List.mem_cons_self, rfl, fun e he => ?_⟩
  have hrun : (program o (.start id req)).run (World.serve sv) as w = _ :=
    run_task_map (startSwap o id req) Reply.started as w
  have herror : ((startSwap o id req).run.run (World.serve sv) as w).value = .error e :=
    @await_error sv w SwapId (.beginSession id .settle) _ (fun n => as (n + 1)) e he
  rw [hrun, herror] at h
  cases h

/-- A start that succeeds is no repetition. -/
theorem not_repeats (id id' : SwapId) (as : Nat → Answer) (w : World) :
    ¬ Repeats id ((program o (.start id' req)).run (World.serve sv) as w) := by
  rintro ⟨hvalue, hsession, -⟩
  obtain ⟨m, hm, hcall, hok⟩ := begun_of_started hvalue
  obtain ⟨e, he⟩ := hsession m hm id' .settle hcall
  exact hok e he

/-- **Every start begins a fresh swap.** After any history of calls, for every payload whose start
succeeded, every further history and every new id: the next start with the same payload does not
answer the first id without beginning a session or pushing the secret again. Where it succeeds, it
answers its own id and has begun a session for it; and while the first swap is open, two open swaps
then have the same `H_B` and the same vtxo. -/
theorem start_never_repeats (sv : Services) (o : Orchestrator)
    (before between : List (Request × (Nat → Answer))) (s s' : Past)
    (hs : Run (Past.FreshStep sv o) Past.none before s) (id id' : SwapId) (req : InitiateRequest)
    (first second : Nat → Answer) (hnew : s.world.rows.lookup id = none)
    (hfirst : ((program o (.start id req)).run (World.serve sv) first s.world).value = .ok (.started id))
    (h : Run (Past.FreshStep sv o) (s.serve sv o (.start id req) first) between s')
    (hnew' : s'.world.rows.lookup id' = none) :
    ¬ Repeats id ((program o (.start id' req)).run (World.serve sv) second s'.world) ∧
    (∀ answered, ((program o (.start id' req)).run (World.serve sv) second s'.world).value =
      .ok (.started answered) →
      answered = id' ∧ ∃ m ∈ ((program o (.start id' req)).run (World.serve sv) second s'.world).trace,
        m.call = .beginSession id' .settle ∧ ∀ e, m.result ≠ .error e) ∧
    (((program o (.start id' req)).run (World.serve sv) second s'.world).value = .ok (.started id') →
      (∀ tx, s'.world.rows.lookup id = some tx → tx.terminal = false) → id ≠ id' ∧
        OpenSwap (s'.serve sv o (.start id' req) second).world id req.bob.hB req.alice.vtxo ∧
        OpenSwap (s'.serve sv o (.start id' req) second).world id' req.bob.hB req.alice.vtxo) := by
  refine ⟨not_repeats id id' second s'.world,
    fun _ hanswered => ⟨(started_row hnew' hanswered).1, begun_of_started hanswered⟩, fun hsecond hopen => ?_⟩
  have hw : s.world.Sound o := Run.invariant (I := fun s : Past => s.world.Sound o) (fun _ _ _ hs hw => hs.sound hw) hs
    (World.sound_empty o)
  have hfresh : Past.FreshStep sv o s (.start id req, first) (s.serve sv o (.start id req) first) :=
    ⟨rfl, fun _ => hnew⟩
  have hfresh' : Past.FreshStep sv o s' (.start id' req, second) (s'.serve sv o (.start id' req) second) :=
    ⟨rfl, fun _ => hnew'⟩
  -- The first row, as it is when the second start begins, and after it.
  obtain ⟨-, tx₀, hrow₀, -, hopens⟩ := started_row hnew hfirst
  obtain ⟨hw', tx, hrow, hcont⟩ := continues_of_run h (hfresh.sound hw) hrow₀
  have hne : id ≠ id' := by
    rintro rfl
    rw [hnew'] at hrow
    cases hrow
  have hkept : (s'.serve sv o (.start id' req) second).world.rows.lookup id = some tx := by
    have halong : Along (World.serve sv) (fun _ => True) (Edits o id') (program o (.start id' req)) s'.world
        fun _ _ => True :=
      along_program (r := .start id' req) hw' fun _ => hnew'
    have hkeep := halong.keeps
      (I := fun w => w.rows.lookup id = some tx) hrow fun w w' hE hI => (hE.others id hne).trans hI
    exact (hkeep.run _ fun _ _ => trivial).2
  obtain ⟨-, tx', hrow', hphase, hopens'⟩ := started_row hnew' hsecond
  have hsound' := hfresh'.sound hw' id' tx' hrow'
  have hterm : ∀ {i : SwapId} {t : Transaction}, t.Sound o i → (Request.start i req).Opens t.stateBlob.inner →
    t.terminal = false →
      t.terminal = false ∧ t.webcashPublicHash = req.bob.hB ∧ t.vtxoOutpointHash = req.alice.vtxo := by
    rintro i t hsound ⟨-, -, hbob, halice, -⟩ ht
    exact ⟨ht, by rw [hsound.flat.webcashPublicHash, hbob], by rw [hsound.flat.vtxoOutpointHash, halice]⟩
  refine ⟨hne, ⟨tx, hkept, hterm (hw' id tx hrow) ?_ (hopen tx hrow)⟩,
    ⟨tx', hrow', hterm hsound' hopens' ?_⟩⟩
  · obtain ⟨hid, hparties, hbob, halice, hnonces⟩ := hopens
    have hterms := hcont.terms
    exact ⟨hterms.id.trans hid, hterms.parties.trans hparties, hterms.bob.trans hbob, hterms.alice.trans halice,
      hterms.aliceNonces.trans hnonces⟩
  · rw [hsound'.flat.terminal, ← hsound'.flat.phase, hphase]
    rfl

/-! ## One secret offered twice -/

namespace Sample

def retryId : SwapId := ⟨"77e0"⟩

def firstStart : Past := Past.none.serve services orchestrator (.start swapId initiateRequest) fun _ => healthy .unspent

/-- The wallet sends the same body again. -/
def secondStart : Outcome (fun c => Except RefereeError (Call.Result c)) (Except RefereeError Reply) Answer World :=
  (program orchestrator (.start retryId initiateRequest)).run (World.serve services)
    (fun _ => healthy .unspent) firstStart.world

/-- Insert pushes among the calls made. -/
def inserts (made : Trace) : Nat := made.countP fun m => m.call.push?.any fun push => push.kind = .insert

def isOpen (w : World) (id : SwapId) : Bool := (w.rows.lookup id).any fun tx => !tx.terminal &&
  tx.webcashPublicHash = initiateRequest.bob.hB && tx.vtxoOutpointHash = initiateRequest.alice.vtxo

theorem openSwap_of_isOpen {w : World} {id : SwapId} (h : isOpen w id = true) :
    OpenSwap w id initiateRequest.bob.hB initiateRequest.alice.vtxo := by
  unfold isOpen at h
  cases hrow : w.rows.lookup id with
  | none =>
    rw [hrow] at h
    cases h
  | some tx =>
    simp only [hrow, Option.any_some, Bool.and_eq_true, Bool.not_eq_true', decide_eq_true_eq] at h
    exact ⟨tx, hrow, h.1.1, h.1.2, h.2⟩

end Sample

open Webycash.Referee.Sample

/-- **The same payload twice**: another id, a second push of the secret, and two open swaps over one
webcash and one vtxo. -/
theorem started_twice : firstStart.world.rows.lookup swapId ≠ none ∧ secondStart.value = .ok (.started retryId) ∧
    ¬ Repeats swapId secondStart ∧ inserts firstStart.made = 1 ∧ inserts secondStart.trace = 1 ∧
    OpenSwap secondStart.world swapId initiateRequest.bob.hB initiateRequest.alice.vtxo ∧
    OpenSwap secondStart.world retryId initiateRequest.bob.hB initiateRequest.alice.vtxo := by
  have h : decide (secondStart.value = .ok (.started retryId) ∧ inserts firstStart.made = 1 ∧
    inserts secondStart.trace = 1 ∧
      isOpen firstStart.world swapId ∧ isOpen secondStart.world swapId ∧ isOpen secondStart.world retryId) =
        true := by decide +kernel
  obtain ⟨hvalue, hone, htwo, hfirst, hopen, hopen'⟩ := of_decide_eq_true h
  obtain ⟨tx, hrow, -⟩ := openSwap_of_isOpen hfirst
  refine ⟨by rw [hrow]; exact nofun, hvalue, fun hrep => ?_, hone, htwo, openSwap_of_isOpen hopen,
    openSwap_of_isOpen hopen'⟩
  have hsame := hrep.sameId
  rw [hvalue] at hsame
  exact absurd hsame (by decide)

theorem start_never_repeats_twice : ¬ Repeats swapId secondStart ∧ swapId ≠ retryId := by
  have h : decide (((program orchestrator (.start swapId initiateRequest)).run (World.serve services)
    (fun _ => healthy .unspent)
      World.empty).value = .ok (.started swapId) ∧ firstStart.world.rows.lookup retryId = none ∧
      secondStart.value = .ok (.started retryId) ∧ isOpen firstStart.world swapId) = true := by decide +kernel
  obtain ⟨hfirst, hnew', hsecond, hopen⟩ := of_decide_eq_true h
  obtain ⟨hno, -, htwice⟩ := start_never_repeats services orchestrator [] [] Past.none firstStart
    (.nil _) swapId retryId
    initiateRequest (fun _ => healthy .unspent) (fun _ => healthy .unspent) rfl hfirst (.nil _) hnew'
  refine ⟨hno, (htwice hsecond fun tx hrow => ?_).1⟩
  obtain ⟨tx', hrow', hterm, -⟩ := openSwap_of_isOpen hopen
  rw [hrow] at hrow'
  cases hrow'
  exact hterm

end Webycash.Referee
