import Webycash.Referee.Absorbing
import Webycash.Referee.Rows
/-!
# The agreed terms never change

Calls that do not overlap, each start with an id of its own. Whatever fails, no write of any call
changes what was agreed when the swap began, and what the row shows of it is what the state says
(`terms_never_change`). The states of a run include those inside a call, so every row that is ever
written is covered, the first one as well.
-/

namespace Webycash.Referee

open Prog

/-- A step of calls that do not overlap; the id of a start has not been used. -/
def Calls.SoloStep (sv : Services) (o : Orchestrator) (p : Calls) (act : Act Answer Request) (p' : Calls) : Prop :=
  Pool.SoloStep (World.serve sv) (program o) p act p' ∧ ∀ id req, act = .spawn (.start id req) → p.Unused id

/-- The call under way writes its own row, and every row is sound. -/
structure Orderly (sv : Services) (o : Orchestrator) (p : Calls) : Prop where
  solo : Pool.Solo (World.serve sv) (fun r => Edits o r.id) p
  sound : p.world.Sound o

variable {sv : Services} {o : Orchestrator} {p p' : Calls} {act : Act Answer Request} {id : SwapId} {tx : Transaction}

theorem Orderly.empty : Orderly sv o ⟨World.empty, []⟩ :=
  ⟨⟨fun _ _ _ _ h => (nomatch h), nofun⟩, World.sound_empty o⟩

/-- **One step of calls that do not overlap.** -/
theorem Orderly.step (h : p.SoloStep sv o act p') (hp : Orderly sv o p) :
    Orderly sv o p' ∧ (p'.world = p.world ∨ ∃ id, Edits o id p.world p'.world) := by
  obtain ⟨hstep, hfresh⟩ := h
  obtain ⟨hsolo, hworld⟩ := hp.solo.step hstep fun r hr => along_program hp.sound fun ⟨id, req, hstart⟩ => by
    subst hstart
    exact (hfresh id req hr).1
  refine ⟨⟨hsolo, ?_⟩, hworld.imp_right fun ⟨t, _, ht⟩ => ⟨_, ht⟩⟩
  rcases hworld with hsame | ⟨t, -, hedits⟩
  · rw [hsame]
    exact hp.sound
  · exact hp.sound.edits hedits

/-- **The agreed terms never change.** In every run of calls that do not overlap and whose starts
have new ids, with any answers and failures of the collaborators: from the first row of a swap on,
every later row has the same id, parties, payloads, nonces of both sides, creation time and, once
it is set, contract id, and its projection is that of its phase and state. -/
theorem terms_never_change (sv : Services) (o : Orchestrator) (before acts : List (Act Answer Request)) (p p' : Calls)
    (h0 : Run (Calls.SoloStep sv o) ⟨World.empty, []⟩ before p) (h : Run (Calls.SoloStep sv o) p acts p')
    (id : SwapId) (tx : Transaction) (hrow : p.world.rows.lookup id = some tx) :
    ∃ tx', p'.world.rows.lookup id = some tx' ∧ tx.Continues tx' ∧ tx'.Flat := by
  have hp := Run.invariant (I := Orderly sv o) (fun _ _ _ hs hp => (hp.step hs).1) h0 .empty
  have hkeeps : ∀ q act q', q.SoloStep sv o act q' →
    (Orderly sv o q ∧ ∃ tx', q.world.rows.lookup id = some tx' ∧ tx.Continues tx') →
      Orderly sv o q' ∧ ∃ tx', q'.world.rows.lookup id = some tx' ∧ tx.Continues tx' := by
    rintro q act q' hs ⟨hq, tx₁, hrow₁, hcont₁⟩
    obtain ⟨hq', hsame | ⟨i, hedits⟩⟩ := hq.step hs
    · exact ⟨hq', tx₁, hsame ▸ hrow₁, hcont₁⟩
    · obtain ⟨tx₂, hrow₂, hcont₂⟩ := hedits.continues hrow₁
      exact ⟨hq', tx₂, hrow₂, hcont₁.trans hcont₂⟩
  obtain ⟨hp', tx', hrow', hcont⟩ := Run.invariant hkeeps h ⟨hp, tx, hrow, .refl tx⟩
  exact ⟨tx', hrow', hcont, (hp'.sound id tx' hrow').flat⟩

namespace Sample

/-- The call may begin: no other is under way, and a start has a new id. -/
def mayBegin (p : Calls) : Act Answer Request → Bool
  | .spawn (.start id _) => decide (p.Unused id) && decide (∀ t ∈ p.threads, ¬ t.Active)
  | .spawn _ => decide (∀ t ∈ p.threads, ¬ t.Active)
  | .turn .. => true

/-- Steps of calls that do not overlap. -/
def solo? (p : Calls) (acts : List (Act Answer Request)) : Option Calls :=
  Run.exec (fun (p : Calls) act => if mayBegin p act then Pool.next (World.serve services)
    (program orchestrator) p act else none)
    p acts

end Sample

open Webycash.Referee.Sample

theorem solo_run {acts : List (Act Answer Request)} (h : solo? p acts = some p') :
    Run (Calls.SoloStep services orchestrator) p acts p' := by
  refine (Run.of_exec_guarded h).mono fun p act p' ⟨hs, hok⟩ => ⟨⟨hs, fun r hr => ?_⟩, fun id req hr => ?_⟩
  · subst hr
    cases r with
    | start id req => exact of_decide_eq_true (Bool.and_eq_true_iff.1 hok).2
    | advance | cancel => exact of_decide_eq_true hok
  · subst hr
    exact of_decide_eq_true (Bool.and_eq_true_iff.1 hok).1

/-- From the first row, inside the start, to the settled one. -/
theorem terms_never_change_settled : ∃ p p' : Calls, ∃ tx tx', p.world.rows.lookup swapId = some tx ∧
    tx.phase = .init ∧
    p'.world.rows.lookup swapId = some tx' ∧ tx'.phase = .settled ∧ tx.Continues tx' ∧ tx'.Flat := by
  have h : ((solo? ⟨World.empty, []⟩ (startActs.take 8)).bind fun p =>
      (solo? p (startActs.drop 8 ++ .spawn (.advance swapId) :: turns 12 1 .spent)).bind fun p' =>
        (p.world.rows.lookup swapId).map fun tx =>
          decide (tx.phase = .init ∧ p'.world.phaseOf swapId = some .settled)) = some true := by decide +kernel
  obtain ⟨p, hp, h⟩ := Option.bind_eq_some_iff.1 h
  obtain ⟨p', hp', h⟩ := Option.bind_eq_some_iff.1 h
  obtain ⟨tx, hrow, h⟩ := Option.map_eq_some_iff.1 h
  obtain ⟨hinit, hsettled⟩ := of_decide_eq_true h
  obtain ⟨tx', hrow', hterms⟩ := terms_never_change services orchestrator _ _ p p' (solo_run hp)
    (solo_run hp') swapId tx hrow
  rw [World.phaseOf, hrow'] at hsettled
  exact ⟨p, p', tx, tx', hrow, hinit, hrow', Option.some.inj hsettled, hterms⟩

end Webycash.Referee
