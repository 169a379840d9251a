import Webycash.Referee.Serial
/-!
# A refund comes after the invalidation

The row is written as aborted before Bob is told, and the call that resumes from an aborted row does
not tell him again; a health check that answers `Unknown` aborts as one that answers `Unspent` does
(`refund_without_invalidate`). `refund_after_invalidate`: where the call that writes an aborted row
has found `H_B` unspent and fails no more, every refund that is released was announced to Bob first,
over any history of calls.
-/

namespace Webycash.Referee

open Prog

/-! ## What a trace shows -/

section

abbrev MadeCall := Made (fun c => Except RefereeError (Call.Result c)) Answer

def CarriedOut (m : MadeCall) : Prop := ∀ e, m.answer.fault ≠ some (.lost e)

/-- The last health check asked about the hash and was answered the status. -/
def Checked (status : SpentStatus) (hash : WebcashPublicHash) (made : Trace) : Prop :=
  ∃ before a after, made = before ++ ⟨.check hash, a, .ok status⟩ :: after ∧ a.status = status ∧
    ∀ m ∈ after, ∀ h, m.call ≠ .check h

/-- The row was written as aborted after a health check that found `H_B` unspent. -/
def AbortedAfterCheck (tx : Transaction) (made : Trace) : Prop :=
  ∃ before a after, made = before ++ ⟨.upsert tx, a, .ok ()⟩ :: after ∧ tx.phase = .aborted ∧
    Checked .unspent tx.stateBlob.inner.bob.hB before

/-- After that, an invalidation was dispatched to Bob, and taken. -/
def Announced (id : SwapId) (bob : PgpFingerprint) (made : Trace) : Prop :=
  ∃ before req a after tx, made = before ++ ⟨.dispatch req, a, .ok ()⟩ :: after ∧
    req.swapId = id ∧ req.kind = .invalidate ∧ req.recipientPgpFp = bob ∧
    tx.swapId = id ∧ tx.stateBlob.inner.parties.bobPgpFp = bob ∧ AbortedAfterCheck tx before

/-- A call that has written the row as aborted does not fail from there on, and has found `H_B`
unspent. -/
def Acked (made : Trace) : Prop := ∀ before m after tx, made = before ++ m :: after → m.call = .upsert tx →
    tx.phase = .aborted →
  CarriedOut m → (∀ m' ∈ m :: after, m'.answer.fault = none) ∧
    ∀ m' ∈ before, ∀ hash, m'.call = .check hash → m'.answer.status = .unspent

/-- One request served, with nothing going wrong around an abort. -/
def Past.AckedStep (sv : Services) (o : Orchestrator) (s : Past) (call : Request × (Nat → Answer))
    (s' : Past) : Prop :=
  s.Step sv o call s' ∧ Acked ((program o call.1).run (World.serve sv) call.2 s.world).trace

variable {status : SpentStatus} {hash : WebcashPublicHash} {tx : Transaction} {id : SwapId} {bob : PgpFingerprint}
  {made more : Trace} {m : MadeCall}

theorem Checked.append_left (h : Checked status hash made) : Checked status hash (more ++ made) := by
  obtain ⟨before, a, after, rfl, hstatus, hno⟩ := h
  exact ⟨more ++ before, a, after, (List.append_assoc ..).symm, hstatus, hno⟩

theorem Checked.concat (h : Checked status hash made) (hm : ∀ h, m.call ≠ .check h) :
    Checked status hash (made ++ [m]) := by
  obtain ⟨before, a, after, rfl, hstatus, hno⟩ := h
  refine ⟨before, a, after ++ [m], List.append_assoc .., hstatus, fun m' hm' => ?_⟩
  rcases List.mem_append.1 hm' with hm' | hm'
  · exact hno m' hm'
  · obtain rfl := List.mem_singleton.1 hm'
    exact hm

theorem AbortedAfterCheck.append_right (h : AbortedAfterCheck tx made) : AbortedAfterCheck tx (made ++ more) := by
  obtain ⟨before, a, after, rfl, hphase, hcheck⟩ := h
  exact ⟨before, a, after ++ more, List.append_assoc .., hphase, hcheck⟩

theorem Announced.append_right (h : Announced id bob made) : Announced id bob (made ++ more) := by
  obtain ⟨before, req, a, after, tx, rfl, hreq⟩ := h
  exact ⟨before, req, a, after ++ more, tx, List.append_assoc .., hreq⟩

theorem Acked.of_append (h : Acked (made ++ more)) : Acked made := by
  rintro before m after tx rfl hcall hphase hdone
  obtain ⟨hfault, hcheck⟩ := h before m (after ++ more) tx (List.append_assoc ..) hcall hphase hdone
  refine ⟨fun m' hm' => hfault m' ?_, hcheck⟩
  rw [← List.cons_append]
  exact List.mem_append_left _ hm'

end

/-! ## The invariant -/

/-- The state a call holds, and what it has been told. -/
def Stage.Knows (v : View) (seen : Seen) : Stage → Prop
  | .holding v' seen' => v' = v ∧ seen' = seen
  | .decided (some v') _ _ seen' => v' = v ∧ seen' = seen
  | _ => False

/-- What is known of the calls `made` by a request so far, after the calls of `past`. -/
structure Tells (past : Trace) (r : Request) (made : Trace) (g : Stage) (w : World) : Prop where
  synced : g.Synced w r.id
  checked : ∀ v seen s, g.Knows v seen → seen.status = some s → Checked s v.fields.bob.hB made
  aborting : ∀ v seen, g = .aborting v seen → ∃ m tx, m ∈ made ∧ m.call = .upsert tx ∧
    tx.phase = .aborted ∧ CarriedOut m
  rows : ∀ id tx, w.rows.lookup id = some tx → tx.phase = .aborted ∨ tx.phase = .invalidated →
    Announced id tx.stateBlob.inner.parties.bobPgpFp (past ++ made) ∨
      (id = r.id ∧ tx.swapId = id ∧ (∃ v seen, g = .aborting v seen) ∧ AbortedAfterCheck tx (past ++ made))
  released : ∀ before req a res after, past ++ made = before ++ ⟨.dispatch req, a, res⟩ :: after →
    req.kind = .releaseRefund →
    ∃ bob, Announced req.swapId bob before

section

variable {sv : Services} {o : Orchestrator} {past made : Trace} {r : Request} {g : Stage} {c : Call}
  {a : Answer} {w : World}

theorem carriedOut_of_served {tx : Transaction} (hok : Served sv w a (.upsert tx)) {res : Except RefereeError Unit} :
    CarriedOut ⟨.upsert tx, a, res⟩ := by
  intro e he
  have he : a.fault = some (.lost e) := he
  simp only [Served, World.serve, he] at hok
  cases congrArg Prod.fst hok

theorem knows_written {phase : Phase} {fields : SwapFields} {v : View} {seen seen' : Seen}
    (h : (Stage.written phase fields seen).Knows v seen') : v = ⟨phase, fields⟩ ∧ seen' = seen := by
  unfold Stage.written at h
  split at h
  · exact h.elim
  · split at h
    · exact h.elim
    · exact ⟨h.1.symm, h.2.symm⟩

/-- The status a call knows is that of the last check it made. -/
theorem Tells.checked_next (h : Tells past r made g w) (hc : g.allows r c) : ∀ v seen s,
    (g.next c (World.serve sv c a w).1).Knows v seen → seen.status = some s →
      Checked s v.fields.bob.hB (made ++ [⟨c, a, (World.serve sv c a w).1⟩]) := by
  have hmoves := moves sv a w hc
  intro v seen s
  generalize g.next c (World.serve sv c a w).1 = g' at hmoves ⊢
  intro hknows hstatus
  cases hmoves with
  | ends | begun | opened => exact hknows.elim
  | stays hcheck => exact (h.checked v seen s hknows hstatus).concat hcheck
  | read =>
    obtain ⟨-, rfl⟩ := hknows
    cases hstatus
  | reread =>
    obtain ⟨rfl, rfl⟩ := hknows
    exact (h.checked _ _ s ⟨rfl, rfl⟩ hstatus).concat fun _ h => nomatch h
  | @checked v' seen' hash hok =>
    obtain ⟨rfl, rfl⟩ := hknows
    obtain rfl : a.status = s := Option.some.inj hstatus
    have hhash : hash = v'.fields.bob.hB := hc
    have hres : (World.serve sv (.check hash) a w).1 = .ok a.status := congrArg Prod.fst hok
    rw [hres, hhash]
    exact ⟨made, a, [], rfl, rfl, fun _ h => nomatch h⟩
  | verifiedBob | verifiedAlice =>
    obtain ⟨rfl, rfl⟩ := hknows
    exact (h.checked _ _ s ⟨rfl, rfl⟩ hstatus).concat fun _ h => nomatch h
  | appended =>
    obtain ⟨rfl, rfl⟩ := hknows
    exact (h.checked _ _ s ⟨rfl, rfl⟩ hstatus).concat fun _ h => nomatch h
  | @wrote v' e tip seen' tx hok =>
    obtain ⟨rfl, rfl⟩ := knows_written hknows
    cases v' with
    | none =>
      rw [show seen = .nothing from h.synced] at hstatus
      cases hstatus
    | some v' =>
      have hterms := (hc.2.1.follows v' rfl).2
      show Checked s tx.stateBlob.inner.bob.hB _
      rw [hterms.bob]
      exact (h.checked v' seen s ⟨rfl, rfl⟩ hstatus).concat fun _ h => nomatch h

theorem aborting_written {phase : Phase} {fields : SwapFields} {v : View} {seen seen' : Seen}
    (h : Stage.written phase fields seen = .aborting v seen') : phase = .aborted := by
  unfold Stage.written at h
  split at h
  · assumption
  · split at h <;> cases h

/-- A call that waits to send the invalidation has written the row. -/
theorem Tells.aborting_next (h : Tells past r made g w) (hc : g.allows r c) : ∀ v seen,
    g.next c (World.serve sv c a w).1 = .aborting v seen →
      ∃ m tx, m ∈ made ++ [⟨c, a, (World.serve sv c a w).1⟩] ∧ m.call = .upsert tx ∧
        tx.phase = .aborted ∧ CarriedOut m := by
  have hmoves := moves sv a w hc
  intro v seen
  generalize g.next c (World.serve sv c a w).1 = g' at hmoves ⊢
  rintro rfl
  generalize hg' : Stage.aborting v seen = g' at hmoves
  cases hmoves with
  | stays =>
    obtain ⟨m, tx, hm, hrest⟩ := h.aborting v seen hg'.symm
    exact ⟨m, tx, List.mem_append_left _ hm, hrest⟩
  | @wrote v' e tip seen' tx hok =>
    refine ⟨_, tx, List.mem_append_right _ (List.mem_singleton.2 rfl), rfl, ?_, carriedOut_of_served hok⟩
    exact hc.2.1.phase.trans (aborting_written hg'.symm)
  | ends | read | reread | checked | verifiedBob | verifiedAlice | begun | opened | appended => cases hg'

/-- Where nothing fails, a call that has aborted goes on to send the invalidation, and to nothing else. -/
theorem aborting_turn (sv : Services) (w : World) {v : View} {seen : Seen} (hc : (Stage.aborting v seen).allows r c)
    (hfault : a.fault = none) :
    (Stage.aborting v seen).next c (World.serve sv c a w).1 = .aborting v seen ∨
      ∃ req, (⟨c, a, (World.serve sv c a w).1⟩ : MadeCall) = ⟨.dispatch req, a, .ok ()⟩ ∧
        req.swapId = r.id ∧
        req.kind = .invalidate ∧ req.recipientPgpFp = v.fields.parties.bobPgpFp := by
  rw [World.serve_of_fault_none hfault]
  cases c with
  | now | get => exact .inl rfl
  | dispatch req => exact .inr ⟨req, rfl, hc⟩
  | beginSession => exact hc.2.2.elim
  | partialSign => exact hc.2.2.elim
  | discardSession => cases hc.2
  | append => exact hc.2.1.elim
  | upsert => exact hc.2.elim
  | check | verify | mintSwapRecord | mintHtlcRefund => exact hc.elim
  | closeHtlcRefund => cases hc

/-- Every aborted row was written after a check, and announced, or its call is about to announce it. -/
theorem Tells.rows_next (h : Tells past r made g w) (hc : g.allows r c)
    (hacked : Acked (made ++ [⟨c, a, (World.serve sv c a w).1⟩])) : ∀ id tx,
    (World.serve sv c a w).2.rows.lookup id = some tx → tx.phase = .aborted ∨ tx.phase = .invalidated →
      Announced id tx.stateBlob.inner.parties.bobPgpFp (past ++ (made ++ [⟨c, a, (World.serve sv c a w).1⟩])) ∨
        (id = r.id ∧ tx.swapId = id ∧ (∃ v seen, g.next c (World.serve sv c a w).1 = .aborting v seen) ∧
          AbortedAfterCheck tx (past ++ (made ++ [⟨c, a, (World.serve sv c a w).1⟩]))) := by
  intro id tx hrow hphase
  rw [← List.append_assoc]
  have hold : w.rows.lookup id = some tx → Announced id tx.stateBlob.inner.parties.bobPgpFp
      (past ++ made ++ [⟨c, a, (World.serve sv c a w).1⟩]) ∨
        (id = r.id ∧ tx.swapId = id ∧ (∃ v seen, g.next c (World.serve sv c a w).1 = .aborting v seen) ∧
          AbortedAfterCheck tx (past ++ made ++ [⟨c, a, (World.serve sv c a w).1⟩])) := by
    intro hsame
    rcases h.rows id tx hsame hphase with hdone | ⟨rfl, hid, ⟨v, seen, rfl⟩, haborted⟩
    · exact .inl hdone.append_right
    · obtain ⟨m, tx', hm, hcall, hphase', hdone⟩ := h.aborting v seen rfl
      obtain ⟨before, after, hsplit⟩ := List.append_of_mem hm
      have hfault : a.fault = none := by
        refine (hacked before m (after ++ [⟨c, a, (World.serve sv c a w).1⟩]) tx' ?_ hcall hphase' hdone).1
          ⟨c, a, (World.serve sv c a w).1⟩ ?_
        · rw [hsplit, List.append_assoc, List.cons_append]
        · exact List.mem_cons_of_mem _ (List.mem_append_right _ (List.mem_singleton.2 rfl))
      rcases aborting_turn sv w hc hfault with hstill | ⟨req, hm', hreq, hkind, hto⟩
      · exact .inr ⟨rfl, hid, ⟨v, seen, hstill⟩, haborted.append_right⟩
      · obtain ⟨tx₀, hrow₀, -, hinner⟩ : w.Shows r.id v := h.synced
        obtain rfl : tx₀ = tx := Option.some.inj (hrow₀.symm.trans hsame)
        rw [hm']
        refine .inl ⟨past ++ made, req, a, [], tx₀, rfl, hreq, hkind, ?_, hid, rfl, haborted⟩
        rw [hto, hinner]
  by_cases hsame : w.rows.lookup id = some tx
  · exact hold hsame
  rcases row_cases sv a w id hc with heq | ⟨tx', rfl, rfl, hwf, hup, hrow'⟩
  · exact absurd (heq.symm.trans hrow) hsame
  obtain rfl : tx' = tx := Option.some.inj (hrow'.symm.trans hrow)
  have hdone : CarriedOut ⟨.upsert tx', a, (World.serve sv (.upsert tx') a w).1⟩ := by
    intro e he
    have he : a.fault = some (.lost e) := he
    simp only [World.serve, he] at hrow
    exact hsame hrow
  cases g with
  | holding v seen =>
    obtain ⟨hinit, -, row, cid, hseen, rfl⟩ := hup
    have hrowInit : row.phase = .init := (h.synced.2 hinit row hseen).1
    rcases hphase with hp | hp <;> cases hrowInit.symm.trans hp
  | decided v e tip seen =>
    obtain ⟨hrec, hjust⟩ := hup
    cases v with
    | none => rcases hphase with hp | hp <;> cases (hrec.opens rfl).1.symm.trans hp
    | some v =>
      obtain ⟨hfollows, hterms⟩ := hrec.follows v rfl
      rcases hphase with hp | hp
      · obtain ⟨hfaults, hstatus⟩ := hacked made _ [] tx' rfl rfl hp hdone
        rw [← hrec.phase, hp] at hjust
        obtain ⟨s, hs, -⟩ := hjust
        have hcheck := h.checked v seen s ⟨rfl, rfl⟩ hs
        obtain rfl : s = .unspent := by
          obtain ⟨before, a', after, hmade, rfl, -⟩ := hcheck
          refine hstatus ⟨.check v.fields.bob.hB, a', .ok a'.status⟩ ?_ _ rfl
          rw [hmade]
          exact List.mem_append_right _ List.mem_cons_self
        have hserve : World.serve sv (.upsert tx') a w = World.perform sv (.upsert tx') a w :=
          World.serve_of_fault_none (hfaults _ List.mem_cons_self)
        rw [hserve]
        refine .inr ⟨rfl, hwf.swapId, ⟨⟨.aborted, tx'.stateBlob.inner⟩, seen, ?_⟩, past ++ made, a,
          [], rfl, hp, ?_⟩
        · show Stage.written e.phase tx'.stateBlob.inner seen = _
          rw [← hrec.phase, hp]
          rfl
        · rw [hterms.bob]
          exact hcheck.append_left
      · rw [hp] at hfollows
        obtain ⟨tx₀, hrow₀, hphase₀, hinner⟩ : w.Shows r.id v := h.synced
        have habort : tx₀.phase = .aborted := by
          rw [hphase₀]
          cases hv : v.phase <;> simp [hv, Phase.Follows] at hfollows
          rfl
        rcases h.rows r.id tx₀ hrow₀ (.inl habort) with hdone' | ⟨-, -, ⟨_, _, hg⟩, -⟩
        · rw [hinner, ← hterms.parties] at hdone'
          exact .inl hdone'.append_right
        · cases hg
  | fresh | unread | aborting | closed => exact hup.elim

/-- A refund is released by a call that holds an invalidated row, which has been announced. -/
theorem Tells.released_next (h : Tells past r made g w) (hc : g.allows r c) : ∀ before req a' res after,
    past ++ (made ++ [⟨c, a, (World.serve sv c a w).1⟩]) = before ++ ⟨.dispatch req, a', res⟩ :: after →
      req.kind = .releaseRefund → ∃ bob, Announced req.swapId bob before := by
  intro before req a' res after hsplit hkind
  rw [← List.append_assoc] at hsplit
  rcases List.eq_nil_or_concat after with rfl | ⟨after, m, rfl⟩
  · obtain ⟨hbefore, hm⟩ := List.append_inj' hsplit rfl
    obtain rfl : c = .dispatch req := congrArg Made.call (List.singleton_inj.1 hm)
    obtain ⟨hid, hpush⟩ := hc
    cases g with
    | holding v seen =>
      rcases hpush with ⟨hinsert, -⟩ | ⟨-, hphase⟩
      · cases hkind.symm.trans hinsert
      · obtain ⟨tx, hrow, hphase', -⟩ := h.synced.1
        rcases h.rows r.id tx hrow (.inr (hphase'.trans hphase)) with hdone | ⟨-, -, ⟨_, _, hg⟩, -⟩
        · exact ⟨_, hbefore ▸ hid ▸ hdone⟩
        · cases hg
    | decided => cases hkind.symm.trans hpush.1
    | aborting => cases hkind.symm.trans hpush.1
    | closed => cases hkind.symm.trans hpush
    | fresh | unread => exact hpush.elim
  · refine h.released before req a' res after ?_ hkind
    rw [List.concat_eq_append, ← List.cons_append, ← List.append_assoc] at hsplit
    exact (List.append_inj' hsplit rfl).1

/-- **One collaborator call.** -/
theorem Tells.next (h : Tells past r made g w) (hc : g.allows r c)
    (hacked : Acked (made ++ [⟨c, a, (World.serve sv c a w).1⟩])) :
    Tells past r (made ++ [⟨c, a, (World.serve sv c a w).1⟩]) (g.next c (World.serve sv c a w).1)
      (World.serve sv c a w).2 :=
  ⟨synced_next hc h.synced, h.checked_next hc, h.aborting_next hc, h.rows_next hc hacked, h.released_next hc⟩

end

/-! ## Histories -/

/-- What holds between calls: aborted rows have been announced, and so had every refund. -/
structure Told (s : Past) : Prop where
  wellFormed : s.world.WellFormed
  rows : ∀ id tx, s.world.rows.lookup id = some tx → tx.phase = .aborted ∨ tx.phase = .invalidated →
    Announced id tx.stateBlob.inner.parties.bobPgpFp s.made
  released : ∀ before req a res after, s.made = before ++ ⟨.dispatch req, a, res⟩ :: after →
    req.kind = .releaseRefund →
    ∃ bob, Announced req.swapId bob before

theorem Told.step {sv : Services} {o : Orchestrator} {s s' : Past} {call : Request × (Nat → Answer)}
    (h : s.AckedStep sv o call s') (hs : Told s) : Told s' := by
  obtain ⟨rfl, hacked⟩ := h
  obtain ⟨r, as⟩ := call
  have hwf : (s.serve sv o r as).world.WellFormed := by
    obtain ⟨-, -, -, h⟩ := call_run sv o r hs.wellFormed as
    exact h
  have hbegin : Tells s.made r [] r.initial s.world := by
    have hinitial : r.initial = .fresh [] ∨ r.initial = .unread := by
      cases r
      · exact .inl rfl
      · exact .inr rfl
      · exact .inr rfl
    refine ⟨?_, ?_, ?_, fun id tx hrow hphase => .inl ?_, fun before req a res after hsplit => ?_⟩
    · rcases hinitial with h | h <;> rw [h] <;> trivial
    · rcases hinitial with h | h <;> rw [h] <;> exact fun _ _ _ h => h.elim
    · rcases hinitial with h | h <;> rw [h] <;> exact fun _ _ h => nomatch h
    · rw [List.append_nil]
      exact hs.rows id tx hrow hphase
    · rw [List.append_nil] at hsplit
      exact hs.released before req a res after hsplit
  obtain ⟨g, hends, htells⟩ := call_history sv o r
    (I := fun made g w => Acked made → Tells s.made r made g w) hs.wellFormed as (fun _ => hbegin)
    fun made g c a w hc hI hacked => (hI hacked.of_append).next hc hacked
  have htells := htells hacked
  refine ⟨hwf, fun id tx hrow hphase => ?_, htells.released⟩
  rcases htells.rows id tx hrow hphase with hdone | ⟨-, -, ⟨v, seen, rfl⟩, -⟩
  · exact hdone
  · rcases hends.ended with hrest | ⟨_, _, _, _, hdecided, -⟩
    · exact hrest.elim
    · cases hdecided

/-- **A refund is released only after the invalidation.** In every history of calls that meet the
condition on aborts, with any other failures, whenever a refund is dispatched for a swap, an
invalidation had been dispatched to the swap's Bob before and had been taken, and before that the
row had been written as aborted by a call whose health check had found `H_B` unspent. -/
theorem refund_after_invalidate (sv : Services) (o : Orchestrator)
    (calls : List (Request × (Nat → Answer))) (s : Past)
    (h : Run (Past.AckedStep sv o) Past.none calls s) (before after : Trace) (req : PushRequest) (a : Answer)
    (res : Except RefereeError Unit) (hmade : s.made = before ++ ⟨.dispatch req, a, res⟩ :: after)
    (hkind : req.kind = .releaseRefund) : ∃ bob, Announced req.swapId bob before := by
  have hs := Run.invariant (I := Told) (fun _ _ _ hs ht => ht.step hs) h
    ⟨World.wellFormed_empty, fun _ _ h => (nomatch h), fun before _ _ _ _ h => by cases before <;> cases h⟩
  exact hs.released before req a res after hmade hkind

/-! ## A refund that Bob was not told of -/

/-- The kind of a push that was taken. -/
def Made.delivered? : MadeCall → Option PushKind
  | ⟨.dispatch req, _, .ok _⟩ => some req.kind
  | _ => none

theorem split_at {α : Type} {l : List α} {i : Nat} {x : α} (h : l[i]? = some x) :
    l = l.take i ++ x :: l.drop (i + 1) := by
  obtain ⟨hi, rfl⟩ := List.getElem?_eq_some_iff.1 h
  rw [List.getElem_cons_drop, List.take_append_drop]

theorem acked_of_quiet {made : Trace} (h : ∀ m ∈ made, m.answer.fault = none ∧ m.answer.status = .unspent) :
    Acked made := by
  rintro before m after tx rfl - - -
  exact ⟨fun m' hm' => (h m' (List.mem_append_right _ hm')).1,
    fun m' hm' _ _ => (h m' (List.mem_append_left _ hm')).2⟩

namespace Sample

/-- Serve the calls. -/
def past (calls : List (Request × (Nat → Answer))) : Past :=
  calls.foldl (fun s call => s.serve services orchestrator call.1 call.2) Past.none

theorem past_run (calls : List (Request × (Nat → Answer))) (s : Past) :
    Run (Past.Step services orchestrator) s calls
      (calls.foldl (fun s call => s.serve services orchestrator call.1 call.2) s) := by
  induction calls generalizing s with
  | nil => exact .nil s
  | cons call calls ih => exact .cons rfl (ih _)

/-- From the start to the refund; the answers to the call that aborts are given. -/
def refundCalls (abort : Nat → Answer) : List (Request × (Nat → Answer)) :=
  [(.start swapId initiateRequest, fun _ => healthy .unspent), (.advance swapId, abort),
    (.advance swapId, fun _ => healthy .unspent), (.advance swapId, fun _ => healthy .unspent)]

/-- The invalidation, the ninth call, does not reach Bob. -/
def unheard : Nat → Answer := fun n =>
  if n = 8 then { healthy .unspent with fault := some (.lost (.push "hook unreachable")) } else healthy .unspent

end Sample

open Webycash.Referee.Sample

/-- **A refund without an invalidation**: the push of the invalidation fails, the next calls go on
from the aborted row, and the refund is released. -/
theorem refund_without_invalidate : ∃ s before req a res after,
    Run (Past.Step services orchestrator) Past.none (refundCalls unheard) s ∧
    s.made = before ++ ⟨.dispatch req, a, res⟩ :: after ∧ req.kind = .releaseRefund ∧
    ∀ m ∈ before, Made.delivered? m ≠ some .invalidate := by
  have h : (((past (refundCalls unheard)).made[48]?).bind fun m => m.call.push?.map PushRequest.kind) =
      some .releaseRefund := by
    decide +kernel
  have hbefore : ∀ m ∈ (past (refundCalls unheard)).made.take 48, Made.delivered? m ≠ some .invalidate :=
    by decide +kernel
  obtain ⟨⟨c, a, res⟩, hm, hpush⟩ := Option.bind_eq_some_iff.1 h
  obtain ⟨req, hreq, hkind⟩ := Option.map_eq_some_iff.1 hpush
  cases c with
  | dispatch req' =>
    cases hreq
    exact ⟨_, _, req, a, res, _, past_run _ _, split_at hm, hkind, hbefore⟩
  | _ => cases hreq

theorem acked_run (calls : List (Request × (Nat → Answer))) (s : Past)
    (h : ∀ call ∈ calls, ∀ n, (call.2 n).fault = none ∧ (call.2 n).status = .unspent) :
    Run (Past.AckedStep services orchestrator) s calls
      (calls.foldl (fun s call => s.serve services orchestrator call.1 call.2) s) := by
  induction calls generalizing s with
  | nil => exact .nil s
  | cons call calls ih =>
    refine .cons ⟨rfl, acked_of_quiet fun m hm => ?_⟩
      (ih _ fun call' hcall => h call' (List.mem_cons_of_mem _ hcall))
    obtain ⟨n, hn⟩ := mem_trace_run hm
    rw [hn]
    exact h call List.mem_cons_self n

/-- With the push taken, the refund comes after the invalidation. -/
theorem refund_after_invalidate_taken : ∃ s before req a res after,
    Run (Past.AckedStep services orchestrator) Past.none (refundCalls fun _ => healthy .unspent) s ∧
    s.made = before ++ ⟨.dispatch req, a, res⟩ :: after ∧ req.kind = .releaseRefund ∧
      ∃ bob, Announced req.swapId bob before := by
  have h : (((past (refundCalls fun _ => healthy .unspent)).made[48]?).bind fun m =>
    m.call.push?.map PushRequest.kind) = some .releaseRefund := by decide +kernel
  obtain ⟨⟨c, a, res⟩, hm, hpush⟩ := Option.bind_eq_some_iff.1 h
  obtain ⟨req, hreq, hkind⟩ := Option.map_eq_some_iff.1 hpush
  cases c with
  | dispatch req' =>
    cases hreq
    have hrun := acked_run (refundCalls fun _ => healthy .unspent) Past.none (by simp [refundCalls, healthy])
    exact ⟨_, _, req, a, res, _, hrun, split_at hm, hkind,
      refund_after_invalidate services orchestrator _ _ hrun _ _ req a res (split_at hm) hkind⟩
  | _ => cases hreq

end Webycash.Referee
