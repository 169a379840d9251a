import Mathlib.Data.List.Chain
import Webycash.Referee.Refund
/-!
# The audit log is one chain (`referee/src/audit/mod.rs`, docs/trust-model.md, invariant 4)

"Each entry's `prior_tip` commits to the previous entry's `tip_hash`." The orchestrator takes that
tip from the row (`audit_phase(.., &inner.audit_tip_hex)`), not from the log, and appends the entry
before it writes the row. A call that fails in between leaves a row that does not know the last
entry, and the next call that appends commits to the entry before that one: two entries with the
same `prior_tip` (`chain_forks`).

`audit_chain_iff`: exactly the histories in which every call that appends finds the row up to date
have a chain.
-/

namespace Webycash.Referee

open Prog

/-! ## Chains -/

/-- The first entry has no prior tip, each later one commits to the entry just before it. -/
structure Linked (es : List AuditEntry) : Prop where
  first : ∀ e, es.head? = some e → e.priorTip = ""
  next : es.IsChain fun e e' => e'.priorTip = e.tipHash

theorem linked_nil : Linked [] := ⟨fun _ h => (nomatch h), List.IsChain.nil⟩

/-- One more entry keeps the chain when it commits to the tip. -/
theorem linked_concat (es : List AuditEntry) (e : AuditEntry) :
    Linked (es ++ [e]) ↔ Linked es ∧ e.priorTip = (es.getLast?.map AuditEntry.tipHash).getD "" := by
  rcases List.eq_nil_or_concat es with rfl | ⟨es, x, rfl⟩
  · constructor
    · intro h
      exact ⟨linked_nil, h.first e rfl⟩
    · rintro ⟨-, h⟩
      exact ⟨fun e' he => Option.some.inj he ▸ h, .singleton e⟩
  · rw [List.concat_eq_append]
    have hhead : (es ++ [x] ++ [e]).head? = (es ++ [x]).head? := by cases es <;> rfl
    constructor
    · intro h
      obtain ⟨hes, -, hlast⟩ := List.isChain_append.1 h.next
      refine ⟨⟨fun e' he => h.first e' (hhead.trans he), hes⟩, ?_⟩
      simpa using hlast x (by simp) e rfl
    · rintro ⟨hes, hlast⟩
      refine ⟨fun e' he => hes.first e' (hhead.symm.trans he),
        List.isChain_append.2 ⟨hes.next, .singleton e, ?_⟩⟩
      intro x' hx e' he
      obtain rfl : x = x' := by simpa using hx
      obtain rfl : e = e' := Option.some.inj he
      simpa using hlast

theorem tipHash_ne_empty (e : AuditEntry) : e.tipHash ≠ "" := by
  intro h
  have hlen := congrArg (fun s : String => s.toList.length) h
  simp [AuditEntry.tipHash, Hex.encode, Hex.length_encodeChars, Sha256.length_digest] at hlen

theorem World.tipFor_eq_empty_iff (w : World) (id : SwapId) : w.tipFor id = "" ↔ w.entriesFor id = [] := by
  unfold World.tipFor
  cases hlast : (w.entriesFor id).getLast? with
  | none => simpa using List.getLast?_eq_none_iff.1 hlast
  | some e =>
    refine iff_of_false (tipHash_ne_empty e) fun h => ?_
    rw [h] at hlast
    cases hlast

/-! ## What one collaborator call adds to the log -/

section

variable {sv : Services} {r : Request} {g : Stage} {c : Call} {a : Answer} {w w' : World} {id : SwapId}

theorem World.tipFor_congr (h : w'.log = w.log) : w'.tipFor id = w.tipFor id := by
  unfold tipFor entriesFor
  rw [h]

theorem log_of_not_append (h : ∀ e, c ≠ .append e) : (World.serve sv c a w).2.log = w.log :=
  (World.serve_log sv c a w).resolve_right fun ⟨e, he, _⟩ => h e he

/-- A swap's log grows only by a call on it, and then by one entry. -/
theorem entries_cases (sv : Services) (a : Answer) (w : World) (id : SwapId) (hc : g.allows r c) :
    (World.serve sv c a w).2.entriesFor id = w.entriesFor id ∨
    ∃ e e', c = .append e ∧ id = r.id ∧ g.Appends e ∧ e'.priorTip = e.priorTip ∧ e'.tipHash = e.tipHash ∧
      e'.phase = e.phase ∧ (World.serve sv c a w).2.entriesFor id = w.entriesFor id ++ [e'] := by
  unfold World.entriesFor
  rcases World.serve_log sv c a w with h | ⟨e, rfl, h⟩ <;> rw [h]
  · exact .inl rfl
  · obtain ⟨hid, happ, -⟩ := hc
    rw [List.filter_append]
    by_cases hswap : e.swapId = id
    · refine .inr ⟨e, { e with signature := Identity.sign sv.ed25519 (tagForPhase e.phase) e.canonicalBody }, rfl,
        hswap.symm.trans hid, happ, rfl, rfl, rfl, ?_⟩
      simp [hswap]
    · refine .inl ?_
      simp [hswap]

/-! ## The tip that a call commits to -/

/-- What the call takes for the last tip is the last tip. -/
def Stage.Current (w : World) (id : SwapId) : Stage → Prop
  | .fresh _ => "" = w.tipFor id
  | .unread => ∀ tx, w.rows.lookup id = some tx → tx.stateBlob.inner.auditTipHex = w.tipFor id
  | .holding v _ => v.fields.auditTipHex = w.tipFor id
  | .decided _ _ tip _ => tip = w.tipFor id
  | .aborting v _ => v.fields.auditTipHex = w.tipFor id
  | .closed => True

/-- It is not, and the call has appended nothing yet. -/
def Stage.Behind (w : World) (id : SwapId) : Stage → Prop
  | .fresh _ => "" ≠ w.tipFor id
  | .unread => ∃ tx, w.rows.lookup id = some tx ∧ tx.stateBlob.inner.auditTipHex ≠ w.tipFor id
  | .holding v _ => v.fields.auditTipHex ≠ w.tipFor id
  | .decided .. | .aborting .. => False
  | .closed => True

theorem Stage.Appends.priorTip_of_current {e : AuditEntry} (happ : g.Appends e) (hg : g.Current w id) :
    e.priorTip = w.tipFor id := by
  cases g with
  | fresh => exact happ.2.2.trans hg
  | holding => exact happ.2.trans hg
  | unread | decided | aborting | closed => exact happ.elim

theorem Stage.Appends.priorTip_of_behind {e : AuditEntry} (happ : g.Appends e) (hg : g.Behind w id) :
    e.priorTip ≠ w.tipFor id := by
  cases g with
  | fresh => exact fun h => hg (happ.2.2.symm.trans h)
  | holding => exact fun h => hg (happ.2.symm.trans h)
  | unread | decided | aborting | closed => exact happ.elim

theorem current_written {phase : Phase} {fields : SwapFields} {seen : Seen} (h : fields.auditTipHex = w.tipFor id) :
    (Stage.written phase fields seen).Current w id := by
  unfold Stage.written
  split
  · exact h
  · split
    · trivial
    · exact h

/-- The tip of an entry that was taken. -/
theorem tipFor_of_served {e : AuditEntry} (hid : e.swapId = id) (hok : Served sv w a (.append e)) :
    (World.serve sv (.append e) a w).2.tipFor id = e.tipHash := by
  rw [hok]
  unfold World.perform World.tipFor World.entriesFor
  simp [hid, AuditEntry.tipHash, AuditEntry.canonicalBody]

/-- **A call that is up to date stays so.** -/
theorem current_next (hc : g.allows r c) (hg : g.Current w r.id) :
    (g.next c (World.serve sv c a w).1).Current (World.serve sv c a w).2 r.id := by
  have hmoves := moves sv a w hc
  by_cases happend : ∃ e, c = .append e
  · obtain ⟨e, rfl⟩ := happend
    generalize g.next (.append e) (World.serve sv (.append e) a w).1 = g' at hmoves ⊢
    cases hmoves with
    | ends => trivial
    | stays _ happend => exact absurd rfl (happend e)
    | opened hok | appended hok => exact (tipFor_of_served hc.1 hok).symm
  have htip : (World.serve sv c a w).2.tipFor r.id = w.tipFor r.id :=
    World.tipFor_congr (log_of_not_append fun e he => happend ⟨e, he⟩)
  generalize g.next c (World.serve sv c a w).1 = g' at hmoves ⊢
  cases hmoves with
  | ends => trivial
  | stays =>
    cases g with
    | unread =>
      rcases row_cases sv a w r.id hc with hrow | ⟨tx, -, -, -, hup, -⟩
      · intro tx htx
        rw [htip]
        exact hg tx (hrow ▸ htx)
      · exact hup.elim
    | closed => trivial
    | fresh | holding | decided | aborting => exact hg.trans htip.symm
  | read hrow => exact (hg _ hrow).trans htip.symm
  | wrote hok => exact current_written ((hc.2.1.tip.trans hg).trans htip.symm)
  | reread | checked | verifiedBob | verifiedAlice | begun => exact hg.trans htip.symm
  | opened | appended => exact absurd ⟨_, rfl⟩ happend

/-- As long as it appends nothing, a call that is behind stays so. -/
theorem behind_next (hc : g.allows r c) (happend : ∀ e, c ≠ .append e) (hg : g.Behind w r.id) :
    (g.next c (World.serve sv c a w).1).Behind (World.serve sv c a w).2 r.id := by
  have hmoves := moves sv a w hc
  have htip : (World.serve sv c a w).2.tipFor r.id = w.tipFor r.id := World.tipFor_congr (log_of_not_append happend)
  generalize g.next c (World.serve sv c a w).1 = g' at hmoves ⊢
  cases hmoves with
  | ends => trivial
  | stays =>
    cases g with
    | unread =>
      obtain ⟨tx, htx, hne⟩ := hg
      rcases row_cases sv a w r.id hc with hrow | ⟨tx', -, -, -, hup, -⟩
      · exact ⟨tx, hrow.trans htx, htip ▸ hne⟩
      · exact hup.elim
    | decided | aborting => exact hg.elim
    | closed => trivial
    | fresh | holding => exact fun h => hg (h.trans htip)
  | read hrow =>
    obtain ⟨tx, htx, hne⟩ := hg
    obtain rfl := Option.some.inj (htx.symm.trans hrow)
    exact fun h => hne (h.trans htip)
  | wrote => exact hg.elim
  | reread | checked | verifiedBob | verifiedAlice | begun => exact fun h => hg (h.trans htip)
  | opened | appended => exact absurd rfl (happend _)

/-- A call that is up to date adds the next link. -/
theorem linked_next (hc : g.allows r c) (hg : g.Current w r.id) (hw : ∀ id, Linked (w.entriesFor id)) :
    ∀ id, Linked ((World.serve sv c a w).2.entriesFor id) := by
  intro id
  rcases entries_cases sv a w id hc with h | ⟨e, e', -, rfl, happ, hprior, -, -, h⟩ <;> rw [h]
  · exact hw id
  · exact (linked_concat _ _).2 ⟨hw r.id, hprior.trans (happ.priorTip_of_current hg)⟩

/-- Nothing mends a broken chain. -/
theorem linked_of_next (hc : g.allows r c) (h : Linked ((World.serve sv c a w).2.entriesFor id)) :
    Linked (w.entriesFor id) := by
  rcases entries_cases sv a w id hc with heq | ⟨_, _, -, -, -, -, -, -, heq⟩ <;> rw [heq] at h
  · exact h
  · exact ((linked_concat _ _).1 h).1

end

/-! ## Histories -/

/-- What a call will take for the last tip is the last tip: a start finds no entry, the others find a
row that knows the last one, or no row. -/
def World.Current (w : World) : Request → Prop
  | .start id _ => w.entriesFor id = []
  | .advance id | .cancel id _ _ _ =>
    ∀ tx, w.rows.lookup id = some tx → tx.stateBlob.inner.auditTipHex = w.tipFor id

theorem World.current_iff (w : World) (r : Request) : w.Current r ↔ r.initial.Current w r.id := by
  cases r with
  | start id req => exact (w.tipFor_eq_empty_iff id).symm.trans eq_comm
  | advance id => exact Iff.rfl
  | cancel id byPgpFp reason sigHex => exact Iff.rfl

theorem World.behind_of_not_current {w : World} {r : Request} (h : ¬ w.Current r) : r.initial.Behind w r.id := by
  rw [w.current_iff] at h
  cases r with
  | start id req => exact h
  | advance id | cancel id byPgpFp reason sigHex =>
    obtain ⟨tx, h⟩ := not_forall.1 h
    exact ⟨tx, Classical.not_imp.1 h⟩

/-- No entry was added. -/
def NoEntry (made : Trace) : Prop := ∀ m ∈ made, ∀ e, m.call = .append e → ¬ CarriedOut m

/-- One request served, by a call that is up to date or appends nothing. -/
def Past.ChainStep (sv : Services) (o : Orchestrator) (s : Past) (call : Request × (Nat → Answer))
    (s' : Past) : Prop :=
  s.Step sv o call s' ∧ (s.world.Current call.1 ∨
    NoEntry ((program o call.1).run (World.serve sv) call.2 s.world).trace)

section

variable {sv : Services} {o : Orchestrator} {s s' : Past} {call : Request × (Nat → Answer)}
  {calls : List (Request × (Nat → Answer))}

theorem NoEntry.concat {made : Trace} {m : MadeCall} (h : NoEntry made)
    (hm : ∀ e, m.call = .append e → ¬ CarriedOut m) :
    NoEntry (made ++ [m]) := by
  intro m' hm'
  rcases List.mem_append.1 hm' with hm' | hm'
  · exact h m' hm'
  · obtain rfl := List.mem_singleton.1 hm'
    exact hm

/-- An entry that was not taken: the call failed, and changed nothing. -/
theorem append_of_not_carriedOut (sv : Services) (w : World) {e : AuditEntry} {a : Answer}
    {res : Except RefereeError String}
    (h : ¬ CarriedOut ⟨.append e, a, res⟩) : ∃ err, World.serve sv (.append e) a w = (.error err, w) := by
  obtain ⟨err, hlost⟩ := not_forall.1 h
  have hfault : a.fault = some (.lost err) := not_not.1 hlost
  exact ⟨err, by simp only [World.serve, hfault]⟩

/-- What is carried out is done, whatever is answered. -/
theorem world_of_carriedOut {c : Call} {a : Answer} {res : Except RefereeError c.Result} {w : World}
    (h : CarriedOut ⟨c, a, res⟩) : (World.serve sv c a w).2 = (World.perform sv c a w).2 := by
  cases hfault : a.fault with
  | none => rw [World.serve_of_fault_none hfault]
  | some fault =>
    cases fault with
    | lost e => exact absurd hfault (h e)
    | unconfirmed e => cases c <;> simp only [World.serve, hfault]

theorem entries_of_carriedOut (sv : Services) (w : World) {e : AuditEntry} {a : Answer}
    {res : Except RefereeError String}
    (hdone : CarriedOut ⟨.append e, a, res⟩) : ∃ e', e'.priorTip = e.priorTip ∧ e'.tipHash = e.tipHash ∧
    e'.phase = e.phase ∧
      (World.serve sv (.append e) a w).2.entriesFor e.swapId = w.entriesFor e.swapId ++ [e'] := by
  refine ⟨{ e with signature := Identity.sign sv.ed25519 (tagForPhase e.phase) e.canonicalBody }, rfl, rfl, rfl, ?_⟩
  rw [world_of_carriedOut hdone]
  unfold World.perform World.entriesFor
  simp

/-- A call that adds no entry leaves the log as it is. -/
theorem log_of_noEntry (hw : s.world.WellFormed) (h : s.Step sv o call s')
    (hno : NoEntry ((program o call.1).run (World.serve sv) call.2 s.world).trace) : s'.world.log = s.world.log := by
  subst h
  obtain ⟨-, -, hlog⟩ := call_history sv o call.1
    (I := fun made _ w => NoEntry made → w.log = s.world.log) hw call.2 (fun _ => rfl)
    fun made g c a w _ hI hmade => by
      have hbefore : NoEntry made := fun m hm => hmade m (List.mem_append_left _ hm)
      rw [← hI hbefore]
      by_cases happend : ∃ e, c = .append e
      · obtain ⟨e, rfl⟩ := happend
        have hlost := hmade _ (List.mem_append_right _ (List.mem_singleton.2 rfl)) e rfl
        obtain ⟨err, hserve⟩ := append_of_not_carriedOut sv w hlost
        rw [hserve]
      · exact log_of_not_append fun e he => happend ⟨e, he⟩
  exact hlog hno

/-- **One call that meets the condition keeps every chain.** -/
theorem Past.ChainStep.linked (h : s.ChainStep sv o call s') (hw : s.world.WellFormed)
    (hs : ∀ id, Linked (s.world.entriesFor id)) : ∀ id, Linked (s'.world.entriesFor id) := by
  obtain ⟨hstep, hcurrent | hno⟩ := h
  · subst hstep
    obtain ⟨g, -, -, hlinked⟩ := call_invariant sv o call.1
      (I := fun g w => g.Current w call.1.id ∧ ∀ id, Linked (w.entriesFor id)) hw call.2
      ⟨(s.world.current_iff call.1).1 hcurrent, hs⟩
      fun g c a w hc hI => ⟨current_next hc hI.1, linked_next hc hI.1 hI.2⟩
    exact hlinked
  · intro id
    rw [World.entriesFor, log_of_noEntry hw hstep hno]
    exact hs id

/-- One call that does not meet it breaks the chain of its swap. -/
theorem Past.Step.chainStep (h : s.Step sv o call s') (hw : s.world.WellFormed)
    (hs : Linked (s'.world.entriesFor call.1.id)) : s.ChainStep sv o call s' := by
  refine ⟨h, or_iff_not_imp_left.2 fun hbehind => ?_⟩
  subst h
  obtain ⟨g, -, hI⟩ := call_history sv o call.1
    (I := fun made g w => (NoEntry made ∧ g.Behind w call.1.id) ∨ ¬ Linked (w.entriesFor call.1.id)) hw call.2
    (.inl ⟨fun _ hm => (nomatch hm), World.behind_of_not_current hbehind⟩)
    fun made g c a w hc hI => by
      rcases hI with ⟨hno, hg⟩ | hbroken
      swap
      · exact .inr fun hlinked => hbroken (linked_of_next hc hlinked)
      by_cases happend : ∃ e, c = .append e
      · obtain ⟨e, rfl⟩ := happend
        obtain ⟨hid, happ, -⟩ := hc
        by_cases hdone : CarriedOut ⟨.append e, a, (World.serve sv (.append e) a w).1⟩
        · obtain ⟨e', hprior, -, -, hentries⟩ := entries_of_carriedOut sv w hdone
          refine .inr fun hlinked => happ.priorTip_of_behind hg (hprior.symm.trans ?_)
          rw [← hid, hentries] at hlinked
          exact hid ▸ ((linked_concat _ _).1 hlinked).2
        · obtain ⟨err, hserve⟩ := append_of_not_carriedOut sv w hdone
          refine .inl ⟨hno.concat fun _ _ => hdone, ?_⟩
          rw [hserve]
          trivial
      · have hother : ∀ e, c ≠ .append e := fun e he => happend ⟨e, he⟩
        exact .inl ⟨hno.concat fun e he => absurd he (hother e), behind_next hc hother hg⟩
  exact (hI.resolve_right fun hbroken => hbroken hs).1

/-- A chain that is whole after a call was whole before. -/
theorem Past.Step.linked_before (h : s.Step sv o call s') (hw : s.world.WellFormed) {id : SwapId}
    (hs : Linked (s'.world.entriesFor id)) : Linked (s.world.entriesFor id) := by
  by_contra hbroken
  subst h
  obtain ⟨g, -, hI⟩ := call_invariant sv o call.1 (I := fun _ w => ¬ Linked (w.entriesFor id)) hw call.2 hbroken
    fun g c a w hc hI hlinked => hI (linked_of_next hc hlinked)
  exact hI hs

theorem linked_before_run (h : Run (Past.Step sv o) s calls s') (hw : s.world.WellFormed) {id : SwapId}
    (hs : Linked (s'.world.entriesFor id)) : Linked (s.world.entriesFor id) := by
  induction h with
  | nil => exact hs
  | cons hstep _ ih => exact hstep.linked_before hw (ih (hstep.wellFormed hw) hs)

theorem chain_run_iff (h : Run (Past.Step sv o) s calls s') (hw : s.world.WellFormed)
    (hs : ∀ id, Linked (s.world.entriesFor id)) :
    (∀ id, Linked (s'.world.entriesFor id)) ↔ Run (Past.ChainStep sv o) s calls s' := by
  induction h with
  | nil => exact ⟨fun _ => .nil _, fun _ => hs⟩
  | @cons s t u call calls hstep hrest ih =>
    have hwt := hstep.wellFormed hw
    constructor
    · intro hlinked
      have ht : ∀ id, Linked (t.world.entriesFor id) := fun id => linked_before_run hrest hwt (hlinked id)
      exact .cons (hstep.chainStep hw (ht call.1.id)) ((ih hwt ht).1 hlinked)
    · intro hrun
      cases hrun with
      | @cons _ t' _ _ _ hchain hrun =>
        obtain rfl : t' = t := hchain.1.trans hstep.symm
        exact (ih hwt (hchain.linked hw hs)).2 hrun

end

/-- **The audit log is one chain exactly when no call appends from a stale row.** After any history
of calls, with any failures, the entries of every swap form one chain if and only if every call of the
history found what it takes for the last tip to be the last tip (a start found no entry of its swap,
an advance or a cancel found a row with the tip of the last entry) or added no entry. -/
theorem audit_chain_iff (sv : Services) (o : Orchestrator) (calls : List (Request × (Nat → Answer))) (s : Past)
    (h : Run (Past.Step sv o) Past.none calls s) :
    (∀ id, Linked (s.world.entriesFor id)) ↔ Run (Past.ChainStep sv o) Past.none calls s :=
  chain_run_iff h World.wellFormed_empty fun _ => linked_nil

open Webycash.Referee.Sample

/-- A start of which nothing fails: four entries, in a chain. -/
theorem audit_chain_iff_started : ∃ s, Run (Past.Step services orchestrator) Past.none
      [(.start swapId initiateRequest, fun _ => healthy .unspent)] s ∧
    (s.world.entriesFor swapId).length = 4 ∧ ∀ id, Linked (s.world.entriesFor id) := by
  have hrun := past_run [(.start swapId initiateRequest, fun _ => healthy .unspent)] Past.none
  refine ⟨_, hrun, by decide +kernel, (audit_chain_iff services orchestrator _ _ hrun).2 ?_⟩
  exact .cons ⟨rfl, .inl rfl⟩ (.nil _)

namespace Sample

/-- The row of the verified state, the sixteenth call, is not written; then Bob cancels. -/
def forkCalls : List (Request × (Nat → Answer)) :=
  [(.start swapId initiateRequest, fun n =>
      if n = 15 then { healthy .unspent with fault := some (.lost (.store "unreachable")) } else healthy .unspent),
    (.cancel swapId ⟨"b0"⟩ "" (String.ofList (List.replicate 128 'c')), fun _ => healthy .unspent)]

end Sample

/-- **The chain forks**: a start fails between the entry of the verified state and its row, and the
cancellation commits to the entry before. -/
theorem chain_forks : ∃ s, Run (Past.Step services orchestrator) Past.none forkCalls s ∧
    ¬ Linked (s.world.entriesFor swapId) := by
  refine ⟨_, past_run forkCalls Past.none, fun h => ?_⟩
  have hlen : ((past forkCalls).world.entriesFor swapId).length = 3 := by decide +kernel
  have hfork : (((past forkCalls).world.entriesFor swapId)[1]?.map AuditEntry.tipHash) ≠
      ((past forkCalls).world.entriesFor swapId)[2]?.map AuditEntry.priorTip := by decide +kernel
  refine hfork ?_
  have hlink := List.isChain_iff_getElem.1 h.next 1 (hlen ▸ by decide)
  rw [List.getElem?_eq_getElem (hlen ▸ by decide), List.getElem?_eq_getElem (hlen ▸ by decide)]
  exact congrArg some hlink.symm

end Webycash.Referee
