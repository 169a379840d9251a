import Webycash.Referee.Exclusion
/-!
# Terminal rows stay

A call acts on the row it read and writes without looking again, and a start writes four rows from
a value it never reads back. So a row that has become terminal is overwritten by any call that was
under way (`canceled_goes_live`: a start goes on after its swap was canceled). What keeps terminal
rows is that nobody else is under way when one is written: every other call on the swap has not
read the row yet, has nothing left to write, or can only find its session gone (`Quiet`).
`terminal_absorbing`: then the row never changes again and nothing is released.
-/

namespace Webycash.Referee

open Prog

/-- Nothing has been read, or nothing is left but the invalidate push and the best effort. -/
def Stage.Harmless : Stage → Prop
  | .unread | .aborting _ _ | .closed => True
  | _ => False

/-- All the program can do is read the clock and be refused a signature. -/
inductive Starved (w : World) (id : SwapId) :
    Prog (fun c => Except RefereeError (Call.Result c)) (Except RefereeError Reply) → Prop
  | sign {session : Session} {tx : List UInt8} {pk : Secp256k1Pubkey} {n : PubNonce}
      {k : Except RefereeError PartialSig →
        Prog (fun c => Except RefereeError (Call.Result c)) (Except RefereeError Reply)}
      (hgone : (id, session) ∉ w.live) : Starved w id (.call (.partialSign id session tx pk n) k)
  | now {k : Except RefereeError Nat →
      Prog (fun c => Except RefereeError (Call.Result c)) (Except RefereeError Reply)}
      (h : ∀ t, Starved w id (k (.ok t))) : Starved w id (.call .now k)

/-- The call will not touch the row. -/
def Quiet (w : World) (id : SwapId) (t : CallThread) : Prop := (stageOf t).Harmless ∨ Starved w id t.rest

/-- No row is filed under the id and no call has it: what a fresh UUID is. -/
def Calls.Unused (p : Calls) (id : SwapId) : Prop :=
  p.world.rows.lookup id = none ∧ ∀ t ∈ p.threads, t.tag.id ≠ id

instance (p : Calls) (id : SwapId) : Decidable (p.Unused id) :=
  inferInstanceAs (Decidable (p.world.rows.lookup id = none ∧ ∀ t ∈ p.threads, t.tag.id ≠ id))

/-- A step in which a start gets a fresh id and a terminal row is written only while the other calls
on the swap are quiet. -/
def Calls.LoneStep (sv : Services) (o : Orchestrator) (id : SwapId) (p : Calls) (act : Act Answer Request)
    (p' : Calls) : Prop :=
  p.Step sv o act p' ∧ (∀ req, act = .spawn (.start id req) → p.Unused id) ∧
  ∀ tx, p.calling? act = some (.upsert tx) → tx.swapId = id → tx.phase.isTerminal →
    ∀ t ∈ p.others act, t.tag.id = id → t.Active → Quiet p.world id t

variable {sv : Services} {o : Orchestrator} {id : SwapId} {r : Request} {g : Stage} {c : Call}
  {a : Answer} {w w' : World} {p p' : Calls} {act : Act Answer Request}

/-! ## Quiet calls -/

theorem Starved.mono {rest : Prog (fun c => Except RefereeError (Call.Result c)) (Except RefereeError Reply)}
    (hlive : ∀ s, (id, s) ∈ w'.live → (id, s) ∈ w.live) (h : Starved w id rest) : Starved w' id rest := by
  induction h with
  | sign hgone => exact .sign fun hs => hgone (hlive _ hs)
  | now _ ih => exact .now ih

theorem Quiet.mono {t : CallThread} (hlive : ∀ s, (id, s) ∈ w'.live → (id, s) ∈ w.live) (h : Quiet w id t) :
    Quiet w' id t :=
  h.imp (fun h => h) (Starved.mono hlive)

/-- Sessions are opened by a start that has done nothing else yet. -/
theorem live_of_not_begin (hc : ∀ s, c ≠ .beginSession id s) {s : Session}
    (hs : (id, s) ∈ (World.serve sv c a w).2.live) :
    (id, s) ∈ w.live := by
  rcases World.serve_signed sv c a w with ⟨-, hlive⟩ | ⟨_, _, _, _, _, -, -, -, hlive⟩
  · exact (hlive _ hs).resolve_right (hc s)
  · rw [hlive] at hs
    exact (Finmap.mem_erase.1 hs).2

/-- What a call that is past its writes, or before its reads, may do. -/
theorem Stage.Harmless.calls (hg : g.Harmless) (hc : g.allows r c) :
    (∀ tx, c ≠ .upsert tx) ∧ (∀ s, c ≠ .beginSession r.id s) ∧ ∀ req, c = .dispatch req →
      req.kind = .invalidate := by
  cases g with
  | fresh | holding | decided => exact hg.elim
  | unread =>
    refine ⟨?_, ?_, ?_⟩
    · rintro tx rfl
      exact hc.2
    · rintro s rfl
      exact hc.2.2
    · rintro req rfl
      exact hc.2.elim
  | aborting v seen =>
    refine ⟨?_, ?_, ?_⟩
    · rintro tx rfl
      exact hc.2
    · rintro s rfl
      exact hc.2.2
    · rintro req rfl
      exact hc.2.1
  | closed =>
    refine ⟨?_, ?_, ?_⟩
    · rintro tx rfl
      exact hc.2
    · rintro s rfl
      exact hc.2.2
    · rintro req rfl
      exact hc.2

/-- Where the row is terminal a harmless call stays so. -/
theorem Stage.Harmless.next (hg : g.Harmless) (hc : g.allows r c) {tx : Transaction}
    (hrow : w.rows.lookup r.id = some tx)
    (hterm : tx.phase.isTerminal) : (g.next c (World.serve sv c a w).1).Harmless := by
  have hmoves := moves sv a w hc
  generalize g.next c (World.serve sv c a w).1 = g' at hmoves ⊢
  cases hmoves with
  | ends => trivial
  | stays => exact hg
  | read hrow' hterm' =>
    rw [hrow] at hrow'
    cases hrow'
    rw [hterm] at hterm'
    cases hterm'
  | reread | checked | verifiedBob | verifiedAlice | begun | opened | appended | wrote => exact hg.elim

section

variable {i : Nat} {made : List (Made (fun c => Except RefereeError (Call.Result c)) Answer)}
  {k : Except RefereeError c.Result → Prog (fun c => Except RefereeError (Call.Result c)) (Except RefereeError Reply)}

/-- A quiet call neither writes the row, nor opens a session, nor releases anything. -/
theorem Quiet.calls (h : Quiet w r.id ⟨r, made, .call c k⟩) (hc : (stageOf ⟨r, made, .call c k⟩).allows r c) :
    (∀ tx, c ≠ .upsert tx) ∧ (∀ s, c ≠ .beginSession r.id s) ∧ ∀ req, c = .dispatch req →
      req.kind = .invalidate := by
  rcases h with h | h
  · exact h.calls hc
  · cases h with
    | sign | now => exact ⟨fun _ h => (nomatch h), fun _ h => (nomatch h), fun _ h => nomatch h⟩

/-- A quiet call is quiet after its step: a signature it asks for is refused. -/
theorem Quiet.turn (h : Quiet p.world r.id ⟨r, made, .call c k⟩)
    (hc : (stageOf ⟨r, made, .call c k⟩).allows r c)
    {tx : Transaction} (hrow : p.world.rows.lookup r.id = some tx) (hterm : tx.phase.isTerminal) :
    Quiet (World.serve sv c a p.world).2 r.id
      ⟨r, made ++ [⟨c, a, (World.serve sv c a p.world).1⟩], k (World.serve sv c a p.world).1⟩ := by
  rcases h with h | h
  · left
    rw [stageOf, Thread.state_turn (.call c k)]
    exact h.next hc hrow hterm
  · cases h with
    | now h => exact .inr (h _)
    | @sign session txHash pk n k hgone =>
      left
      rw [stageOf, Thread.state_turn (.call (.partialSign r.id session txHash pk n) k)]
      cases hres : (World.serve sv (.partialSign r.id session txHash pk n) a p.world).1 with
      | error e => trivial
      | ok sig =>
        rw [World.serve_ok hres] at hres
        simp [World.perform, Finmap.lookup_eq_none.2 hgone] at hres

end

/-! ## The invariant -/

/-- The last row a call has read beside its own. -/
def Stage.lastRow : Stage → Option Transaction
  | .holding _ seen => seen.row
  | .decided _ _ _ seen => seen.row
  | .aborting _ seen => seen.row
  | _ => none

structure Absorbed (id : SwapId) (p : Calls) : Prop where
  conforms : p.Conforms protocol Request.initial World.WellFormed fun _ => Ends
  quiet : ∀ tx, p.world.rows.lookup id = some tx → tx.phase.isTerminal →
    ∀ t ∈ p.threads, t.tag.id = id → t.Active → Quiet p.world id t
  reads : ∀ t ∈ p.threads, t.tag.id = id → t.Active → ∀ row, (stageOf t).lastRow = some row →
    row.phase.isTerminal = false

theorem lastRow_written {phase : Phase} {fields : SwapFields} {seen : Seen} {row : Transaction}
    (h : (Stage.written phase fields seen).lastRow = some row) : seen.row = some row := by
  unfold Stage.written at h
  split at h
  · exact h
  · split at h
    · cases h
    · exact h

/-- What a call has read last it had read before, or has just read. -/
theorem lastRow_next (hc : g.allows r c) {row : Transaction}
    (h : (g.next c (World.serve sv c a w).1).lastRow = some row) :
    g.lastRow = some row ∨ (w.rows.lookup r.id = some row ∧ (∃ v seen, g = .holding v seen) ∧
      c = .get r.id) := by
  have hmoves := moves sv a w hc
  generalize g.next c (World.serve sv c a w).1 = g' at hmoves h
  cases hmoves with
  | ends | read | begun | opened => cases h
  | reread => exact .inr ⟨h, ⟨_, _, rfl⟩, rfl⟩
  | wrote => exact .inl (lastRow_written h)
  | stays | checked | verifiedBob | verifiedAlice | appended => exact .inl h

/-- A call that writes a terminal row is done with the row. -/
theorem harmless_of_terminal_write {tx : Transaction} (hc : g.allows r (.upsert tx)) (hterm : tx.phase.isTerminal)
    (hreads : ∀ row, g.lastRow = some row → row.phase.isTerminal = false) :
    (g.next (.upsert tx) (World.serve sv (.upsert tx) a w).1).Harmless := by
  cases (World.serve sv (.upsert tx) a w).1 with
  | error e => trivial
  | ok u =>
    cases g with
    | decided v e tip seen =>
      have hphase : tx.phase = e.phase := hc.2.1.phase
      show (Stage.written e.phase _ _).Harmless
      rw [← hphase, Stage.written]
      split
      · trivial
      · trivial
    | holding v seen =>
      obtain ⟨-, -, -, row, cid, hrow, rfl⟩ := hc
      rw [hreads row hrow] at hterm
      cases hterm
    | fresh | unread | aborting | closed => exact hc.2.elim

section

variable {i : Nat} {made : List (Made (fun c => Except RefereeError (Call.Result c)) Answer)}
  {k : Except RefereeError c.Result → Prog (fun c => Except RefereeError (Call.Result c)) (Except RefereeError Reply)}

/-- A call on a swap whose row is terminal leaves it as it is, and every call on it quiet. -/
theorem Absorbed.turn_terminal (sv : Services) (a : Answer) (hp : Absorbed r.id p) {tx : Transaction}
    (hrow : p.world.rows.lookup r.id = some tx)
    (hterm : tx.phase.isTerminal) (ht : p.threads[i]? = some ⟨r, made, .call c k⟩) :
    (p.turn sv i r made c a k).world.rows.lookup r.id = some tx ∧
      ∀ t ∈ (p.turn sv i r made c a k).threads, t.tag.id = r.id → t.Active →
        Quiet (p.turn sv i r made c a k).world r.id t := by
  have hc : (stageOf ⟨r, made, .call c k⟩).allows r c := hp.conforms.allows ht
  have hquiet : Quiet p.world r.id ⟨r, made, .call c k⟩ :=
    hp.quiet tx hrow hterm _ (List.mem_of_getElem? ht) rfl fun _ h => nomatch h
  obtain ⟨hup, hbegin, -⟩ := hquiet.calls hc
  refine ⟨?_, fun t ht' htid hact => ?_⟩
  · rcases row_cases sv a p.world r.id hc with h | ⟨tx', rfl, -⟩
    · exact h.trans hrow
    · exact absurd rfl (hup tx')
  · rcases List.mem_or_eq_of_mem_set ht' with hold | rfl
    · exact (hp.quiet tx hrow hterm t hold htid hact).mono fun s hs => live_of_not_begin hbegin hs
    · exact hquiet.turn hc hrow hterm

/-- No call holds a terminal row as the last it read, where only a quiet call can read one. -/
theorem Absorbed.turn_reads (hp : Absorbed r.id p) (ht : p.threads[i]? = some ⟨r, made, .call c k⟩)
    (hreads : ∀ tx, p.world.rows.lookup r.id = some tx → tx.phase.isTerminal → c = .get r.id →
      ¬ ∃ v seen, stageOf ⟨r, made, .call c k⟩ = .holding v seen) :
    ∀ t ∈ (p.turn sv i r made c a k).threads, t.tag.id = r.id → t.Active →
      ∀ row, (stageOf t).lastRow = some row → row.phase.isTerminal = false := by
  have hc : (stageOf ⟨r, made, .call c k⟩).allows r c := hp.conforms.allows ht
  intro t ht' htid hact row hlast
  rcases mem_turn ht' with hold | ⟨-, hstage⟩
  · exact hp.reads t hold htid hact row hlast
  · rw [hstage] at hlast
    rcases lastRow_next hc hlast with hlast | ⟨hrow, hholding, hget⟩
    · exact hp.reads _ (List.mem_of_getElem? ht) rfl (fun _ h => nomatch h) row hlast
    · exact Bool.eq_false_iff.2 fun hterm => hreads row hrow hterm hget hholding

/-- A terminal row is written while the others are quiet, and the writer is done. -/
theorem Absorbed.turn_write (hp : Absorbed r.id p) (ht : p.threads[i]? = some ⟨r, made, .call c k⟩)
    (hrow : ∀ tx, p.world.rows.lookup r.id = some tx → tx.phase.isTerminal = false)
    (halone : ∀ tx, c = .upsert tx → tx.swapId = r.id → tx.phase.isTerminal →
      ∀ t ∈ p.threads.eraseIdx i, t.tag.id = r.id → t.Active → Quiet p.world r.id t)
    {tx : Transaction} (hrow' : (p.turn sv i r made c a k).world.rows.lookup r.id = some tx)
    (hterm : tx.phase.isTerminal) :
    ∀ t ∈ (p.turn sv i r made c a k).threads, t.tag.id = r.id → t.Active →
      Quiet (p.turn sv i r made c a k).world r.id t := by
  have hc : (stageOf ⟨r, made, .call c k⟩).allows r c := hp.conforms.allows ht
  rcases row_cases sv a p.world r.id hc with h | ⟨tx', rfl, -, hwf, -, h⟩
  · have hsame := hrow tx (h.symm.trans hrow')
    rw [hterm] at hsame
    cases hsame
  · obtain rfl : tx = tx' := Option.some.inj (hrow'.symm.trans h)
    intro t ht' htid hact
    obtain ⟨j, hj⟩ := List.mem_iff_getElem?.1 ht'
    by_cases hji : j = i
    · subst hji
      left
      have hlen : j < p.threads.length := (List.getElem?_eq_some_iff.1 ht).1
      rw [Calls.turn, List.getElem?_set_self hlen] at hj
      cases hj
      rw [stageOf, Thread.state_turn (.call (.upsert tx) k)]
      exact harmless_of_terminal_write hc hterm
        (hp.reads _ (List.mem_of_getElem? ht) rfl (by rintro _ ⟨⟩))
    · rw [Calls.turn, List.getElem?_set_ne (Ne.symm hji)] at hj
      have hbegin : ∀ s, Call.upsert tx ≠ .beginSession r.id s := by rintro _ ⟨⟩
      have hother : t ∈ p.threads.eraseIdx i := List.mem_eraseIdx_iff_getElem?.2 ⟨j, hji, hj⟩
      exact (halone tx rfl hwf.swapId hterm t hother htid hact).mono fun s hs => live_of_not_begin hbegin hs

end

/-- **One step.** -/
theorem Absorbed.step (h : p.LoneStep sv o id act p') (hp : Absorbed id p) : Absorbed id p' ∧
    ∀ tx, p.world.rows.lookup id = some tx → tx.phase.isTerminal → p'.world.rows.lookup id = some tx := by
  obtain ⟨hstep, hfresh, halone⟩ := h
  have hconf := conforms_step hstep hp.conforms
  rcases Pool.step_cases hstep with ⟨r, rfl, rfl⟩ | ⟨i, a, r, made, c, k, rfl, ht, rfl⟩
  · -- A start has a fresh id, every other call begins unread.
    have hnew : r.id = id → (∃ tx, p.world.rows.lookup id = some tx) → r.initial = .unread := by
      rintro hid ⟨tx, hrow⟩
      cases r with
      | start i req =>
        obtain rfl : i = id := hid
        rw [(hfresh req rfl).1] at hrow
        cases hrow
      | advance | cancel => rfl
    refine ⟨⟨hconf, fun tx hrow hterm t ht' htid hact => ?_, fun t ht' htid hact row hlast => ?_⟩,
      fun tx hrow _ => hrow⟩
    · rcases List.mem_append.1 ht' with hold | hnew'
      · exact hp.quiet tx hrow hterm t hold htid hact
      · obtain rfl := List.mem_singleton.1 hnew'
        refine .inl ?_
        show (Request.initial r).Harmless
        rw [hnew htid ⟨tx, hrow⟩]
        trivial
    · rcases List.mem_append.1 ht' with hold | hnew'
      · exact hp.reads t hold htid hact row hlast
      · obtain rfl := List.mem_singleton.1 hnew'
        cases r <;> cases hlast
  · have hc : (stageOf ⟨r, made, .call c k⟩).allows r c := hp.conforms.allows ht
    by_cases hid : r.id = id
    · subst hid
      have hreads : ∀ tx, p.world.rows.lookup r.id = some tx → tx.phase.isTerminal → c = .get r.id →
          ¬ ∃ v seen, stageOf ⟨r, made, .call c k⟩ = .holding v seen := by
        rintro tx hrow hterm rfl ⟨v, seen, hstage⟩
        rcases hp.quiet tx hrow hterm _ (List.mem_of_getElem? ht) rfl fun _ h => nomatch h with h | h
        · rw [hstage] at h
          exact h
        · cases h
      by_cases hrow : ∃ tx, p.world.rows.lookup r.id = some tx ∧ tx.phase.isTerminal
      · obtain ⟨tx, hrow, hterm⟩ := hrow
        obtain ⟨hsame, hquiet⟩ := hp.turn_terminal sv a hrow hterm ht
        refine ⟨⟨hconf, fun _ _ _ => hquiet, hp.turn_reads ht hreads⟩, fun tx' hrow' _ => ?_⟩
        exact hsame.trans (hrow.symm.trans hrow')
      · have hopen : ∀ tx, p.world.rows.lookup r.id = some tx → tx.phase.isTerminal = false := fun tx h =>
          Bool.eq_false_iff.2 fun hterm => hrow ⟨tx, h, hterm⟩
        refine ⟨⟨hconf, fun tx hrow' hterm => ?_, hp.turn_reads ht hreads⟩,
          fun tx h hterm => absurd ⟨tx, h, hterm⟩ hrow⟩
        exact hp.turn_write ht hopen (fun tx hc' => halone tx (by simp [Pool.calling?, ht, hc'])) hrow' hterm
    · have hrow : (World.serve sv c a p.world).2.rows.lookup id = p.world.rows.lookup id := by
        rcases row_cases sv a p.world id hc with h | ⟨-, -, h, -⟩
        · exact h
        · exact absurd h.symm hid
      have hbegin : ∀ s, c ≠ .beginSession id s := by
        rintro s rfl
        exact hid hc.1.symm
      refine ⟨⟨hconf, fun tx htx hterm t ht' htid hact => ?_, fun t ht' htid hact row hlast => ?_⟩,
        fun tx htx _ => hrow.trans htx⟩
      · rcases mem_turn ht' with hold | ⟨htag, -⟩
        · exact (hp.quiet tx (hrow.symm.trans htx) hterm t hold htid hact).mono fun s hs => live_of_not_begin hbegin hs
        · exact absurd (htag ▸ htid) hid
      · rcases mem_turn ht' with hold | ⟨htag, -⟩
        · exact hp.reads t hold htid hact row hlast
        · exact absurd (htag ▸ htid) hid

/-- Nothing has happened yet. -/
theorem Absorbed.empty : Absorbed id ⟨World.empty, []⟩ :=
  ⟨conforms_empty, fun _ h => (nomatch h), fun _ h => nomatch h⟩

/-- **Terminal phases are absorbing.** In any interleaving of calls, on this swap and on others, in
which ids are fresh and a terminal row is written only while the other calls on the swap are quiet,
a row that has become terminal is never changed again, and no call that is next to dispatch a push
for the swap dispatches anything but an invalidation. -/
theorem terminal_absorbing (sv : Services) (o : Orchestrator) (id : SwapId) (before acts : List (Act Answer Request))
    (p p' : Calls) (tx : Transaction) (h0 : Run (Calls.LoneStep sv o id) ⟨World.empty, []⟩ before p)
    (hrow : p.world.rows.lookup id = some tx) (hterm : tx.phase.isTerminal)
    (h : Run (Calls.LoneStep sv o id) p acts p') :
    p'.world.rows.lookup id = some tx ∧
      ∀ act req, p'.calling? act = some (.dispatch req) → req.swapId = id → req.kind = .invalidate := by
  have hp := Run.invariant (I := Absorbed id) (fun _ _ _ hs hp => (hp.step hs).1) h0 .empty
  obtain ⟨hp', hrow'⟩ := Run.invariant (I := fun p : Calls => Absorbed id p ∧ p.world.rows.lookup id = some tx)
    (fun _ _ _ hs hp => ⟨(hp.1.step hs).1, (hp.1.step hs).2 tx hp.2 hterm⟩) h ⟨hp, hrow⟩
  refine ⟨hrow', fun act req hcall hid => ?_⟩
  cases act with
  | spawn r => cases hcall
  | turn i a =>
    cases ht : p'.threads[i]? with
    | none => simp [Pool.calling?, ht] at hcall
    | some t =>
      obtain ⟨r, made, rest⟩ := t
      cases rest with
      | ret res => simp [Pool.calling?, ht] at hcall
      | call c k =>
        obtain rfl : c = .dispatch req := by simpa [Pool.calling?, ht] using hcall
        have hc : (stageOf ⟨r, made, .call (.dispatch req) k⟩).allows r (.dispatch req) := hp'.conforms.allows ht
        obtain rfl : r.id = id := hc.1.symm.trans hid
        exact ((hp'.quiet tx hrow' hterm _ (List.mem_of_getElem? ht) rfl (by rintro _ ⟨⟩)).calls hc).2.2 req rfl

/-! ## A swap that goes live after its cancellation -/

namespace Sample

/-- The start has written its first row; Bob's cancel runs from its first call to its last. -/
def cancelActs : List (Act Answer Request) :=
  .spawn (.start swapId initiateRequest) :: turns 6 0 .unspent ++
    .spawn (.cancel swapId ⟨"b0"⟩ "changed my mind" (String.ofList (List.replicate 128 '0'))) :: turns 8 1 .unspent

/-- A settled swap is asked about once more, and Bob cannot cancel it. -/
def lateActs : List (Act Answer Request) :=
  [.spawn (.advance swapId), .spawn (.cancel swapId ⟨"b0"⟩ "late" "")] ++ turns 1 3 .spent ++ turns 1 4 .spent

/-- Steps that write a row only while no other call is under way. -/
def lone? (p : Calls) (acts : List (Act Answer Request)) : Option Calls :=
  Run.exec (fun (p : Calls) act =>
    if ((∀ req, act ≠ .spawn (.start swapId req)) ∨ p.Unused swapId) ∧
      ∀ c, p.calling? act = some c → c.row? = none ∨ ∀ t ∈ p.others act, ¬ t.Active
    then Pool.next (World.serve services) (program orchestrator) p act else none) p acts

end Sample

open Webycash.Referee.Sample

/-- **A canceled swap goes live**: the start goes on after the cancellation, pushes Bob's secret to
Alice and leaves the row at `insert-pushed`. No call fails. -/
theorem canceled_goes_live : ∃ p p₁ p' :
    Calls, Run (Calls.Step services orchestrator) ⟨World.empty, []⟩ cancelActs p ∧
    p.world.phaseOf swapId = some .canceled ∧ Run (Calls.Step services orchestrator) p (turns 17 0 .unspent) p₁ ∧
    (∃ req, (p₁.calling? (.turn 0 (healthy .unspent))).bind Call.push? = some req ∧ req.swapId = swapId ∧
      req.kind = .insert) ∧
    Run (Calls.Step services orchestrator) p₁ (turns 7 0 .unspent) p' ∧ p'.world.phaseOf swapId =
      some .insertPushed := by
  have h : ((exec ⟨World.empty, []⟩ cancelActs).bind fun p => (exec p (turns 17 0 .unspent)).bind fun p₁ =>
      (exec p₁ (turns 7 0 .unspent)).bind fun p' =>
        ((p₁.calling? (.turn 0 (healthy .unspent))).bind Call.push?).map fun req =>
        decide (p.world.phaseOf swapId = some .canceled ∧ (req.swapId = swapId ∧ req.kind = .insert) ∧
          p'.world.phaseOf swapId = some .insertPushed)) = some true := by decide +kernel
  obtain ⟨p, hp, h⟩ := Option.bind_eq_some_iff.1 h
  obtain ⟨p₁, hp₁, h⟩ := Option.bind_eq_some_iff.1 h
  obtain ⟨p', hp', h⟩ := Option.bind_eq_some_iff.1 h
  obtain ⟨req, hreq, h⟩ := Option.map_eq_some_iff.1 h
  obtain ⟨hcanceled, hpush, hlive⟩ := of_decide_eq_true h
  exact ⟨p, p₁, p', Run.of_exec (fun _ _ _ hs => hs) hp, hcanceled, Run.of_exec (fun _ _ _ hs => hs) hp₁,
    ⟨req, hreq, hpush⟩,
    Run.of_exec (fun _ _ _ hs => hs) hp', hlive⟩

theorem lone_run {p p' : Calls} {acts : List (Act Answer Request)} (h : lone? p acts = some p') :
    Run (Calls.LoneStep services orchestrator swapId) p acts p' := by
  refine (Run.of_exec_guarded h).mono fun p act p' ⟨hs, hfresh, halone⟩ =>
    ⟨hs, fun req hact => ?_, fun tx hcall _ _ t ht _ hact => ?_⟩
  · exact hfresh.resolve_left fun hno => hno req hact
  · exact absurd hact (((halone _ hcall).resolve_left fun h => nomatch h) t ht)

/-- Nothing happens to a swap after it was settled. -/
theorem terminal_absorbing_settled : ∃ p p' : Calls, ∃ tx, p.world.rows.lookup swapId = some tx ∧
    tx.phase = .settled ∧
    p'.threads.length = 5 ∧ p'.world.rows.lookup swapId = some tx ∧
    ∀ act req, p'.calling? act = some (.dispatch req) → req.swapId = swapId → req.kind = .invalidate := by
  have h : ((lone? ⟨World.empty, []⟩ (startActs ++ settleActs)).bind fun p => (lone? p lateActs).bind fun p' =>
      (p.world.rows.lookup swapId).map fun tx =>
        decide (tx.phase = .settled ∧ p'.threads.length = 5)) = some true := by
    decide +kernel
  obtain ⟨p, hp, h⟩ := Option.bind_eq_some_iff.1 h
  obtain ⟨p', hp', h⟩ := Option.bind_eq_some_iff.1 h
  obtain ⟨tx, hrow, h⟩ := Option.map_eq_some_iff.1 h
  obtain ⟨hphase, hlen⟩ := of_decide_eq_true h
  exact ⟨p, p', tx, hrow, hphase, hlen,
    terminal_absorbing services orchestrator swapId (startActs ++ settleActs) lateActs p p' tx
    (lone_run hp) hrow (by rw [hphase]; rfl) (lone_run hp')⟩

end Webycash.Referee
