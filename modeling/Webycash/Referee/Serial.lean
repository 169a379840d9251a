import Webycash.Lib.Run
import Webycash.Referee.Protocol
/-!
# One call after the other

Calls that do not overlap: each runs to its end, with any answers of the collaborators, before the
next begins (`Past.Step`). `call_run` turns one call into a run of the protocol's stages, so that
what a history of calls has is an invariant of the stages first and of the calls then. Alone, a
call always knows the row: `Stage.Synced`.
-/

namespace Webycash.Referee

open Prog

/-- Calls to the collaborators, in order. -/
abbrev Trace := List (Made (fun c => Except RefereeError (Call.Result c)) Answer)

/-- The collaborators' world and every call made on them. -/
structure Past where
  world : World
  made : Trace

def Past.none : Past := ⟨World.empty, []⟩

section

variable (sv : Services) (o : Orchestrator)

/-- Serve one request; `as n` is the answer to its `n`-th call. -/
def Past.serve (s : Past) (r : Request) (as : Nat → Answer) : Past :=
  let out := (program o r).run (World.serve sv) as s.world
  ⟨out.world, s.made ++ out.trace⟩

def Past.Step (s : Past) (call : Request × (Nat → Answer)) (s' : Past) : Prop := s' = s.serve sv o call.1 call.2

/-- One collaborator call of a request, with its stage. -/
abbrev Turned (r : Request) := Prog.Turn (World.serve sv) (protocol r)

end

variable {sv : Services} {o : Orchestrator} {id : SwapId} {r : Request} {g g' : Stage} {c : Call}
  {a : Answer} {w : World} {s s' : Past}

/-- **One call is a run of its stages.** -/
theorem call_run (sv : Services) (o : Orchestrator) (r : Request) (hw : w.WellFormed) (as : Nat → Answer) :
    ∃ g, Run (Turned sv r) (r.initial, w) ((program o r).run (World.serve sv) as w).trace
        (g, ((program o r).run (World.serve sv) as w).world) ∧
      Ends g ((program o r).run (World.serve sv) as w).value ∧
      ((program o r).run (World.serve sv) as w).world.WellFormed :=
  (program_sat o r).run (protocol_kept sv r) as hw

theorem Past.Step.wellFormed {call : Request × (Nat → Answer)} (h : s.Step sv o call s') (hw : s.world.WellFormed) :
    s'.world.WellFormed := by
  subst h
  obtain ⟨-, -, -, h⟩ := call_run sv o call.1 hw call.2
  exact h

/-! ## A call alone knows the row -/

/-- The row says what the call believes. -/
def World.Shows (w : World) (id : SwapId) (v : View) : Prop :=
  ∃ tx, w.rows.lookup id = some tx ∧ tx.phase = v.phase ∧ tx.stateBlob.inner = v.fields

/-- What a call holds is in the row, and so was what it last read where it may write that back. -/
def Stage.Synced (w : World) (id : SwapId) : Stage → Prop
  | .holding v seen => w.Shows id v ∧
      (v.phase = .init → ∀ row, seen.row = some row → row.phase = .init ∧ row.stateBlob.inner = v.fields)
  | .decided (some v) _ _ _ => w.Shows id v
  | .decided none _ _ seen => seen = .nothing
  | .aborting v _ => w.Shows id v
  | _ => True

theorem World.Shows.congr {w' : World} {v : View} (h : w.Shows id v) (hrow : w'.rows.lookup id = w.rows.lookup id) :
    w'.Shows id v := by
  obtain ⟨tx, htx, hv⟩ := h
  exact ⟨tx, hrow.trans htx, hv⟩

theorem Stage.Synced.congr {w' : World} (h : g.Synced w id) (hrow : w'.rows.lookup id = w.rows.lookup id) :
    g.Synced w' id := by
  cases g with
  | holding v seen => exact ⟨h.1.congr hrow, h.2⟩
  | decided v e tip seen =>
    cases v with
    | none => exact h
    | some v => exact World.Shows.congr h hrow
  | aborting v seen => exact World.Shows.congr h hrow
  | fresh | unread | closed => trivial

/-- The state a call has written is the row. -/
theorem synced_written {phase : Phase} {tx : Transaction} {seen : Seen} (hrow : w.rows.lookup id = some tx)
    (hphase : tx.phase = phase) (hinit : phase = .init → seen.row = none) :
    (Stage.written phase tx.stateBlob.inner seen).Synced w id := by
  unfold Stage.written
  split
  · exact ⟨tx, hrow, hphase, rfl⟩
  · split
    · trivial
    · refine ⟨⟨tx, hrow, hphase, rfl⟩, fun hp row hseen => ?_⟩
      rw [hinit hp] at hseen
      cases hseen

theorem lookup_of_served {tx : Transaction} (hok : Served sv w a (.upsert tx)) (hid : tx.swapId = id) :
    (World.serve sv (.upsert tx) a w).2.rows.lookup id = some tx := by
  rw [hok, World.perform, FMap.lookup_insert_ite, if_pos hid.symm]

/-- **What a call holds stays in the row** as long as it is alone. -/
theorem synced_next (hc : g.allows r c) (hg : g.Synced w r.id) :
    (g.next c (World.serve sv c a w).1).Synced (World.serve sv c a w).2 r.id := by
  have hmoves := moves sv a w hc
  generalize g.next c (World.serve sv c a w).1 = g' at hmoves ⊢
  cases hmoves with
  | ends => trivial
  | @wrote v e tip seen tx hok =>
    obtain ⟨hwf, hrec, -⟩ := hc
    refine synced_written (lookup_of_served hok hwf.swapId) hrec.phase fun hinit => ?_
    cases v with
    | none => exact congrArg Seen.row hg
    | some v =>
      have hfollows := (hrec.follows v rfl).1
      rw [hrec.phase, hinit] at hfollows
      cases hv : v.phase <;> simp [hv, Phase.Follows] at hfollows
  | stays hcheck happend hupsert =>
    rcases row_cases sv a w r.id hc with h | ⟨tx, rfl, -, -, hup, h⟩
    · exact hg.congr h
    · cases g with
      | holding v seen =>
        obtain ⟨hphase, -, row, cid, hrow, rfl⟩ := hup
        obtain ⟨hrphase, hinner⟩ := hg.2 hphase row hrow
        exact ⟨⟨_, h, hrphase.trans hphase.symm, hinner⟩, hg.2⟩
      | decided v e tip seen => exact (hupsert _ rfl).elim
      | fresh | unread | aborting | closed => trivial
  | read hrow hterm =>
    rcases row_cases sv a w r.id hc with h | ⟨tx, htx, -⟩
    · exact ⟨⟨_, h.trans hrow, rfl, rfl⟩, fun _ _ h => nomatch h⟩
    · cases htx
  | reread =>
    rcases row_cases sv a w r.id hc with h | ⟨tx, htx, -⟩
    · refine ⟨hg.1.congr h, fun hinit row hrow => ?_⟩
      obtain ⟨tx, htx, hphase, hinner⟩ := hg.1
      rw [htx] at hrow
      cases hrow
      exact ⟨hphase.trans hinit, hinner⟩
    · cases htx
  | checked | verifiedBob | verifiedAlice =>
    rcases row_cases sv a w r.id hc with h | ⟨tx, htx, -⟩
    · exact ⟨hg.1.congr h, hg.2⟩
    · cases htx
  | begun => trivial
  | opened => rfl
  | appended =>
    rcases row_cases sv a w r.id hc with h | ⟨tx, htx, -⟩
    · exact hg.1.congr h
    · cases htx

/-- A turn, with the call it makes and what that does. -/
theorem Turned.eq {m : Made (fun c => Except RefereeError (Call.Result c)) Answer} {t t' : Stage × World}
    (h : Turned sv r t m t') : t.1.allows r m.call ∧ m.result = (World.serve sv m.call m.answer t.2).1 ∧
      t' = (t.1.next m.call (World.serve sv m.call m.answer t.2).1, (World.serve sv m.call m.answer t.2).2) := by
  obtain ⟨hc, hserve, hnext⟩ := h
  have hres : m.result = (World.serve sv m.call m.answer t.2).1 := congrArg Prod.fst hserve.symm
  have hworld : t'.2 = (World.serve sv m.call m.answer t.2).2 := congrArg Prod.snd hserve.symm
  refine ⟨hc, hres, Prod.ext ?_ hworld⟩
  rw [hnext, hres]
  rfl

/-- **Rule for one call**: what every turn keeps holds at the end. -/
theorem call_invariant (sv : Services) (o : Orchestrator) (r : Request) {I : Stage → World → Prop}
    (hw : w.WellFormed) (as : Nat → Answer) (h0 : I r.initial w)
    (hstep : ∀ g c a w, g.allows r c → I g w → I (g.next c (World.serve sv c a w).1) (World.serve sv c a w).2) :
    ∃ g, Ends g ((program o r).run (World.serve sv) as w).value ∧
      I g ((program o r).run (World.serve sv) as w).world := by
  obtain ⟨g, hrun, hends, -⟩ := call_run sv o r hw as
  refine ⟨g, hends, Run.invariant (I := fun t : Stage × World => I t.1 t.2) (fun t m t' ht hI => ?_) hrun h0⟩
  obtain ⟨hc, -, rfl⟩ := Turned.eq ht
  exact hstep t.1 m.call m.answer t.2 hc hI

/-- The same with the calls made so far. -/
theorem call_history (sv : Services) (o : Orchestrator) (r : Request) {I : Trace → Stage → World → Prop}
    (hw : w.WellFormed) (as : Nat → Answer) (h0 : I [] r.initial w)
    (hstep : ∀ made g c a w, g.allows r c → I made g w →
      I (made ++ [⟨c, a, (World.serve sv c a w).1⟩]) (g.next c (World.serve sv c a w).1) (World.serve sv c a w).2) :
    ∃ g, Ends g ((program o r).run (World.serve sv) as w).value ∧
      I ((program o r).run (World.serve sv) as w).trace g ((program o r).run (World.serve sv) as w).world := by
  obtain ⟨g, hrun, hends, -⟩ := call_run sv o r hw as
  refine ⟨g, hends, Run.history (I := fun made t => I made t.1 t.2) h0 (fun made t m t' _ hI ht => ?_) hrun⟩
  obtain ⟨c, a, res⟩ := m
  obtain ⟨hc, hres, rfl⟩ := Turned.eq ht
  dsimp only at hc hres
  subst hres
  exact hstep made t.1 c a t.2 hc hI

/-! ## The sessions of a start -/

/-- Sessions of the swap go with a signature or a discard. -/
theorem live_mono {s : Session} (hsign : ∀ session tx pk n, c ≠ .partialSign id session tx pk n)
    (hdiscard : ∀ session, c ≠ .discardSession id session) (h : (id, s) ∈ w.live) :
    (id, s) ∈ (World.serve sv c a w).2.live := by
  rcases World.serve_world sv c a w with h' | h' <;> rw [h']
  · exact h
  · cases c with
    | beginSession i session =>
      unfold World.perform
      dsimp only
      split
      · exact h
      · exact Finmap.mem_insert.2 (.inr h)
    | partialSign i session tx pk n =>
      have hne : (id, s) ≠ (i, session) := fun he => hsign session tx pk n (by cases he; rfl)
      unfold World.perform
      dsimp only
      split
      · exact h
      · split <;> exact Finmap.mem_erase.2 ⟨hne, h⟩
    | discardSession i session =>
      have hne : (id, s) ≠ (i, session) := fun he => hdiscard session (by cases he; rfl)
      exact Finmap.mem_erase.2 ⟨hne, h⟩
    | _ => exact h

/-- What a start has opened is live. -/
def Stage.Begun (w : World) (id : SwapId) : Stage → Prop
  | .fresh sessions => ∀ s ∈ sessions, (id, s) ∈ w.live
  | .closed => True
  | _ => ∀ s, (id, s) ∈ w.live

theorem begun_written {phase : Phase} {fields : SwapFields} {seen : Seen} (h : ∀ s, (id, s) ∈ w.live) :
    (Stage.written phase fields seen).Begun w id := by
  unfold Stage.written
  split
  · exact h
  · split
    · trivial
    · exact h

theorem begun_next (hstart : r.IsStart) (hc : g.allows r c) (hg : g.Begun w r.id) :
    (g.next c (World.serve sv c a w).1).Begun (World.serve sv c a w).2 r.id := by
  have hmoves := moves sv a w hc
  by_cases hover : g = .closed
  · subst hover
    generalize Stage.closed.next c (World.serve sv c a w).1 = g' at hmoves ⊢
    cases hmoves <;> trivial
  have hkeep : ∀ s, (r.id, s) ∈ w.live → (r.id, s) ∈ (World.serve sv c a w).2.live := by
    refine fun s hs => live_mono (fun session tx pk n he => ?_) (fun session he => ?_) hs
    · subst he
      exact hc.2.1 hstart
    · subst he
      exact hover hc.2
  generalize g.next c (World.serve sv c a w).1 = g' at hmoves ⊢
  cases hmoves with
  | ends => trivial
  | stays =>
    cases g with
    | fresh sessions => exact fun s hs => hkeep s (hg s hs)
    | closed => trivial
    | unread | holding | decided | aborting => exact fun s => hkeep s (hg s)
  | read | reread | checked | verifiedBob | verifiedAlice | appended => exact fun s => hkeep s (hg s)
  | wrote =>
    exact begun_written fun s => hkeep s (hg s)
  | @begun session sessions hok =>
    intro s hs
    rcases List.mem_cons.1 hs with rfl | hs
    · rw [hok, World.perform]
      split
      · assumption
      · exact Finmap.mem_insert.2 (.inl rfl)
    · exact hkeep s (hg s hs)
  | opened =>
    obtain ⟨rfl, -⟩ := hc.2.1
    intro s
    cases s <;> exact hkeep _ (hg _ (by simp))

end Webycash.Referee
