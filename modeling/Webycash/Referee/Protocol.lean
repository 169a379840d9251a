import Webycash.Referee.Orchestrator
/-!
# What one call to the orchestrator may do

An abstract account of the three entry points. A call first holds nothing, then it holds the state
of its swap as it read or wrote it (`View`), then it has appended an entry that the row does not
have yet, then it holds the state it wrote, and in the end it writes nothing any more (`Stage`).
`Stage.allows` says which collaborator calls may be made where, `Stage.next` what comes after.
`program_sat`: all three programs keep to it. Everything that is proved of interleavings and of
histories below uses this and never looks at the programs again.
-/

namespace Webycash.Referee

open Prog

/-! ## Rows -/

/-- What holds of every row that is written: it is filed under its own id, and status and terminal
flag are those of its phase. -/
structure Transaction.WellFormed (tx : Transaction) (id : SwapId) : Prop where
  swapId : tx.swapId = id
  innerId : tx.stateBlob.inner.id = id
  status : tx.status = .forPhase tx.phase
  terminal : tx.terminal = tx.phase.isTerminal

/-- Everything of a swap that no transition changes. -/
structure SwapFields.SameTerms (s t : SwapFields) : Prop where
  id : t.id = s.id
  parties : t.parties = s.parties
  bob : t.bob = s.bob
  alice : t.alice = s.alice
  aliceNonces : t.aliceNonces = s.aliceNonces

theorem SwapFields.SameTerms.refl (s : SwapFields) : s.SameTerms s := ⟨rfl, rfl, rfl, rfl, rfl⟩

theorem SwapFields.SameTerms.trans {s t u : SwapFields} (h : s.SameTerms t) (h' : t.SameTerms u) : s.SameTerms u :=
  ⟨h'.id.trans h.id, h'.parties.trans h.parties, h'.bob.trans h.bob, h'.alice.trans h.alice,
    h'.aliceNonces.trans h.aliceNonces⟩

/-- The request that starts a swap settles its terms. -/
def Request.Opens : Request → SwapFields → Prop
  | .start id req, s => s.id = id ∧ s.parties = req.parties ∧ s.bob = req.bob ∧ s.alice = req.alice ∧
      s.aliceNonces = req.aliceNonces
  | _, _ => False

def Request.IsStart (r : Request) : Prop := ∃ id req, r = .start id req

/-! ## Stages -/

/-- A swap as a call sees it. -/
structure View where
  phase : Phase
  fields : SwapFields

/-- What the collaborators have told a call. -/
structure Seen where
  status : Option SpentStatus
  okBob : Option Bool
  okAlice : Option Bool
  row : Option Transaction

def Seen.nothing : Seen := ⟨none, none, none, none⟩

inductive Stage
  /-- A start, before its first entry, and the sessions it has opened. -/
  | fresh (begun : List Session)
  /-- An advance or a cancel, before it has read the row. -/
  | unread
  /-- The call holds a state of the swap, all of whose entries it knows to be in the row. -/
  | holding (v : View) (seen : Seen)
  /-- The entry is in the log, with this tip; the row is still to be written. -/
  | decided (v : Option View) (e : AuditEntry) (tip : String) (seen : Seen)
  /-- The row has just been written as aborted. -/
  | aborting (v : View) (seen : Seen)
  | closed

/-- The phase graph, cancellation included. -/
def Phase.Follows : Phase → Phase → Prop
  | .init, p => p = .zkpsVerified ∨ p = .canceled
  | .zkpsVerified, p => p = .preChecked ∨ p = .canceled
  | .preChecked, p => p = .insertPushed ∨ p = .canceled
  | .insertPushed, p => p = .settled ∨ p = .insertPushed ∨ p = .aborted ∨ p = .canceled
  | .aborted, p => p = .invalidated
  | .invalidated, p => p = .refunded
  | _, _ => False

/-- What a call must have been told before it writes a row of the phase. -/
def Seen.Justifies (seen : Seen) : Phase → Prop
  | .zkpsVerified => seen.okBob = some true ∧ seen.okAlice = some true
  | .preChecked => seen.status = some .unspent
  | .settled => seen.status = some .spent
  | .aborted => ∃ s, seen.status = some s ∧ s ≠ .spent
  | _ => True

/-- The row carries the entry out. -/
structure Records (r : Request) (v : Option View) (e : AuditEntry) (tip : String) (tx : Transaction) : Prop where
  phase : tx.phase = e.phase
  tip : tx.stateBlob.inner.auditTipHex = tip
  follows : ∀ v', v = some v' → v'.phase.Follows tx.phase ∧ v'.fields.SameTerms tx.stateBlob.inner
  opens : v = none → tx.phase = .init ∧ r.Opens tx.stateBlob.inner

def proofOf (s : SwapFields) : Circuit → Groth16Proof
  | .bobPayload => s.bob.zkpPayload
  | .aliceSignature => s.alice.zkpSignature

def nonceOf (s : SwapFields) : Session → PubNonce
  | .settle => ⟨s.aliceNonces.settleNoncePub⟩
  | .refund => ⟨s.aliceNonces.refundNoncePub⟩

/-- The signature a call may ask for. -/
def Stage.Signs (session : Session) (alicePubshare : Secp256k1Pubkey) (alicePubNonce : PubNonce) : Stage → Prop
  | .decided (some v) e _ _ => session = .settle ∧ v.phase = .insertPushed ∧ e.phase = .settled ∧
      alicePubshare = v.fields.parties.aliceMusig2Pubkey ∧ alicePubNonce = nonceOf v.fields .settle
  | .holding v _ => session = .refund ∧ v.phase = .invalidated ∧
      alicePubshare = v.fields.parties.aliceMusig2Pubkey ∧ alicePubNonce = nonceOf v.fields .refund
  | _ => False

/-- The push a call may dispatch. -/
def Stage.Pushes (req : PushRequest) : Stage → Prop
  | .holding v _ => (req.kind = .insert ∧ (v.phase = .preChecked ∨ v.phase = .insertPushed)) ∨
      (req.kind = .releaseRefund ∧ v.phase = .invalidated)
  | .decided _ e _ _ => req.kind = .releaseSettle ∧ e.phase = .settled
  | .aborting v _ => req.kind = .invalidate ∧ req.recipientPgpFp = v.fields.parties.bobPgpFp
  | .closed => req.kind = .invalidate
  | _ => False

/-- The entry a call may append. -/
def Stage.Appends (e : AuditEntry) : Stage → Prop
  | .fresh begun => begun = [.refund, .settle] ∧ e.phase = .init ∧ e.priorTip = ""
  | .holding v _ => v.phase.Follows e.phase ∧ e.priorTip = v.fields.auditTipHex
  | _ => False

/-- The row a call may write. A start writes the contract id into the row it has just read. -/
def Stage.Upserts (r : Request) (tx : Transaction) : Stage → Prop
  | .holding v seen => v.phase = .init ∧ r.IsStart ∧
      ∃ row cid, seen.row = some row ∧ tx = { row with htlcRefundContractId := cid }
  | .decided v e tip seen => Records r v e tip tx ∧ seen.Justifies e.phase
  | _ => False

/-- Phases that only a start enters. -/
def Phase.OfStart : Phase → Prop
  | .init | .zkpsVerified | .preChecked => True
  | _ => False

/-- The session a start may begin: one it has not begun yet. -/
def Stage.Begins (session : Session) : Stage → Prop
  | .fresh begun => session ∉ begun
  | _ => False

def Stage.IsHolding (P : View → Prop) : Stage → Prop
  | .holding v _ => P v
  | _ => False

def Stage.allows (r : Request) (g : Stage) : Call → Prop
  | .now => True
  | .beginSession id session => id = r.id ∧ r.IsStart ∧ g.Begins session
  | .partialSign id session _ pk n => id = r.id ∧ ¬ r.IsStart ∧ g.Signs session pk n
  | .discardSession id _ => id = r.id ∧ g = .closed
  | .append e => e.swapId = r.id ∧ g.Appends e ∧ (e.phase.OfStart → r.IsStart)
  | .get id => id = r.id
  | .upsert tx => tx.WellFormed r.id ∧ g.Upserts r tx
  | .check hash => g.IsHolding fun v => hash = v.fields.bob.hB
  | .verify circuit proof => g.IsHolding fun v => proof = proofOf v.fields circuit
  | .mintSwapRecord _ _ => g.IsHolding fun v => v.phase = .init
  | .mintHtlcRefund _ _ => g.IsHolding fun v => v.phase = .init
  | .closeHtlcRefund _ _ _ => g = .closed
  | .dispatch req => req.swapId = r.id ∧ g.Pushes req

/-- After the row was written for the entry. -/
def Stage.written (phase : Phase) (fields : SwapFields) (seen : Seen) : Stage :=
  if phase = .aborted then .aborting ⟨phase, fields⟩ seen
  else if phase.isTerminal then .closed
  else .holding ⟨phase, fields⟩ seen

/-- An error ends a call, except where the orchestrator drops it. -/
def Stage.next (g : Stage) : (c : Call) → Except RefereeError c.Result → Stage
  | .get _, .ok row =>
    match g, row with
    | .unread, some tx => if tx.phase.isTerminal then .closed else .holding ⟨tx.phase, tx.stateBlob.inner⟩ .nothing
    | .unread, none => .closed
    | .holding v seen, row => .holding v { seen with row := row }
    | g, _ => g
  | .beginSession _ session, .ok _ =>
    match g with
    | .fresh begun => .fresh (session :: begun)
    | g => g
  | .append e, .ok tip =>
    match g with
    | .holding v seen => .decided (some v) e tip seen
    | _ => .decided none e tip .nothing
  | .upsert tx, .ok _ =>
    match g with
    | .decided _ e _ seen => .written e.phase tx.stateBlob.inner seen
    | g => g
  | .check _, .ok s =>
    match g with
    | .holding v seen => .holding v { seen with status := some s }
    | g => g
  | .verify circuit _, .ok b =>
    match g, circuit with
    | .holding v seen, .bobPayload => .holding v { seen with okBob := some b }
    | .holding v seen, .aliceSignature => .holding v { seen with okAlice := some b }
    | g, _ => g
  | .dispatch _, .ok _ =>
    match g with
    | .aborting _ _ => .closed
    | g => g
  | .now, _ => g
  | .mintHtlcRefund _ _, .error _ => g
  | _, .ok _ => g
  | _, .error _ => .closed

/-- A row that was read is well formed; reading the clock does not fail. -/
def Admits : (c : Call) → Except RefereeError c.Result → Prop
  | .get id, .ok (some tx) => tx.WellFormed id
  | .now, .error _ => False
  | _, _ => True

def protocol (r : Request) : Protocol (fun c => Except RefereeError (Call.Result c)) Stage where
  admits := Admits
  allows := Stage.allows r
  next := Stage.next

def Request.initial : Request → Stage
  | .start _ _ => .fresh []
  | _ => .unread

/-- Not between an entry and its row, nor between an aborted row and its push. -/
def Stage.Resting : Stage → Prop
  | .decided .. | .aborting .. => False
  | _ => True

/-- The call was told what forbids a row of the phase. -/
def Seen.Rejects (seen : Seen) : Phase → Prop
  | .zkpsVerified => seen.okBob = some false ∨ seen.okAlice = some false
  | .preChecked => ∃ s, seen.status = some s ∧ s ≠ .unspent
  | _ => False

/-- A call ends where it rests, or with an entry of a check that failed. -/
def Stage.Ended (g : Stage) : Prop := g.Resting ∨ ∃ v e tip seen, g = .decided v e tip seen ∧ seen.Rejects e.phase

/-- How a call ends: a start that succeeds has written a row that waits for the webcash. -/
structure Ends (g : Stage) (result : Except RefereeError Reply) : Prop where
  ended : g.Ended
  started : ∀ id, result = .ok (.started id) → g.IsHolding fun v => v.phase = .insertPushed

/-! ## The shared steps keep to the protocol -/

section

variable {r : Request} {α β : Type} {Q : Stage → Except RefereeError β → Prop} {v : View} {seen : Seen}

/-- A call may end with an error where it rests. -/
def ErrorsEnd (Q : Stage → Except RefereeError β → Prop) : Prop :=
  ∀ g e, g.Resting → Q g (.error e)

/-- The clock does not fail. -/
theorem sat_now {g : Stage} {f : Nat → Async β} (hok : ∀ n, Sat (protocol r) g (f n).run Q) :
    Sat (protocol r) g (await .now >>= f).run Q := by
  refine ⟨trivial, fun res hres => ?_⟩
  cases res with
  | ok n => exact hok n
  | error e => exact hres.elim

theorem sat_auditPhase {id : SwapId} {phase : Phase} {payload : Json} {f : String → Async β} (hid : id = r.id)
    (hfollows : v.phase.Follows phase) (hstart : phase.OfStart → r.IsStart) (hQ : ErrorsEnd Q)
    (hok : ∀ ts tip, Sat (protocol r)
      (.decided (some v) ⟨id, phase, ts, v.fields.auditTipHex, payload, ""⟩ tip seen) (f tip).run Q) :
    Sat (protocol r) (.holding v seen) (auditPhase id phase payload v.fields.auditTipHex >>= f).run Q := by
  refine sat_task_bind (M := fun g res => (∃ ts tip, res = .ok tip ∧
    g = .decided (some v) ⟨id, phase, ts, v.fields.auditTipHex, payload, ""⟩ tip seen) ∨
    (∃ e, res = .error e) ∧ g.Resting) ?_ ?_ ?_
  · refine sat_now fun ts => ⟨⟨hid, ⟨hfollows, rfl⟩, hstart⟩, fun res _ => ?_⟩
    cases res with
    | ok tip => exact .inl ⟨ts, tip, rfl, rfl⟩
    | error e => exact .inr ⟨⟨e, rfl⟩, trivial⟩
  · rintro g tip (⟨ts, tip', htip, rfl⟩ | ⟨⟨e, he⟩, -⟩)
    · obtain rfl := Except.ok.inj htip
      exact hok ts tip
    · cases he
  · rintro g e (⟨ts, tip, he, -⟩ | ⟨-, hg⟩)
    · cases he
    · exact hQ g e hg

theorem sat_persist {p phase : Phase} {s : SwapState p} {prev : Option View} {e : AuditEntry} {tip : String}
    {f : Unit → Async β} (hid : s.id = r.id) (htip : s.auditTipHex = tip) (he : e.phase = phase)
    (hfollows : ∀ v', prev = some v' → v'.phase.Follows phase ∧ v'.fields.SameTerms s.toSwapFields)
    (hopens : prev = none → phase = .init ∧ r.Opens s.toSwapFields) (hjust : seen.Justifies phase)
    (hQ : ErrorsEnd Q) (hok : Sat (protocol r) (.written phase s.toSwapFields seen) (f ()).run Q) :
    Sat (protocol r) (.decided prev e tip seen) (persist s phase >>= f).run Q := by
  refine sat_task_bind (M := fun g res => (res = .ok () ∧ g = .written phase s.toSwapFields seen) ∨
    (∃ e, res = .error e) ∧ g.Resting) ?_ ?_ ?_
  · -- Every row that `persist` can write is well formed and carries the entry out.
    have hwrite : ∀ now created reason byFp cid, Sat (protocol r) (.decided prev e tip seen)
        (await (.upsert { Transaction.deriveFrom s phase now none none none with
          createdAtUnix := created, cancelReason := reason, canceledByPgpFp := byFp, htlcRefundContractId := cid })).run
        fun g res => (res = .ok () ∧ g = .written phase s.toSwapFields seen) ∨
          (∃ e, res = .error e) ∧ g.Resting := by
      intro now created reason byFp cid
      refine ⟨⟨⟨hid, hid, rfl, rfl⟩, ⟨he.symm, htip, hfollows, hopens⟩, by rwa [he]⟩, fun res _ => ?_⟩
      cases res with
      | ok u => exact .inl ⟨rfl, by rw [← he]; rfl⟩
      | error e => exact .inr ⟨⟨e, rfl⟩, trivial⟩
    refine sat_now fun now => ?_
    by_cases hinit : phase = .init
    · simp only [if_pos hinit]
      exact hwrite now s.phaseEnteredAt none none none
    · simp only [if_neg hinit]
      refine sat_perform hid (fun existing _ => ?_) fun e => .inr ⟨⟨e, rfl⟩, trivial⟩
      cases existing with
      | none => exact hwrite now s.phaseEnteredAt none none none
      | some tx => exact hwrite now tx.createdAtUnix tx.cancelReason tx.canceledByPgpFp tx.htlcRefundContractId
  · rintro g u (⟨-, rfl⟩ | ⟨⟨e, he⟩, -⟩)
    · exact hok
    · cases he
  · rintro g e (⟨he, -⟩ | ⟨-, hg⟩)
    · cases he
    · exact hQ g e hg

/-- The row of a state that follows another. -/
theorem sat_persist_next {p phase : Phase} {s : SwapState p} {id : SwapId} {ts : Nat} {prior sig tip : String}
    {payload : Json} {f : Unit → Async β} (hid : s.id = r.id) (htip : s.auditTipHex = tip)
    (hfollows : v.phase.Follows phase)
    (hterms : v.fields.SameTerms s.toSwapFields) (hjust : seen.Justifies phase) (hQ : ErrorsEnd Q)
    (hok : Sat (protocol r) (.written phase s.toSwapFields seen) (f ()).run Q) :
    Sat (protocol r) (.decided (some v) ⟨id, phase, ts, prior, payload, sig⟩ tip seen)
      (persist s phase >>= f).run Q :=
  sat_persist hid htip rfl (fun _ hv => Option.some.inj hv ▸ ⟨hfollows, hterms⟩) (fun h => nomatch h) hjust hQ hok

theorem sat_mintHtlcRefund {g : Stage} {swapId : String} {params : HtlcRefundParams}
    {f : Except RefereeError (Option String) → Async β} (hg : g.IsHolding fun v => v.phase = .init)
    (hok : ∀ res, Sat (protocol r) g (f res).run Q) :
    Sat (protocol r) g (bestEffort (.mintHtlcRefund swapId params) >>= f).run Q := by
  refine sat_attempt hg fun res _ => ?_
  cases res <;> exact hok _

theorem sat_discardSession {id : SwapId} {session : Session} {f : Except RefereeError Unit → Async β}
    (hid : id = r.id) (hok : ∀ res, Sat (protocol r) .closed (f res).run Q) :
    Sat (protocol r) .closed (bestEffort (.discardSession id session) >>= f).run Q := by
  refine sat_attempt ⟨hid, rfl⟩ fun res _ => ?_
  cases res <;> exact hok _

/-- Nothing that goes wrong here reaches the caller. -/
theorem sat_closeHtlcIfAny {id : SwapId} {kind : HtlcCloseKind} (hid : id = r.id) :
    Sat (protocol r) .closed (closeHtlcIfAny id kind).run fun g res => res = .ok () ∧ g = .closed := by
  refine sat_attempt hid fun found _ => ?_
  have hover : Stage.next .closed (.get id) found = .closed := by cases found <;> rfl
  show Sat (protocol r) (Stage.next .closed (.get id) found) _ _
  rw [hover]
  split
  · rename_i cid _
    refine sat_attempt rfl fun res _ => ⟨rfl, ?_⟩
    cases res <;> rfl
  · exact ⟨rfl, rfl⟩

theorem sat_closeHtlcIfAny_bind {id : SwapId} {kind : HtlcCloseKind} {f : Unit → Async β} (hid : id = r.id)
    (hok : Sat (protocol r) .closed (f ()).run Q) : Sat (protocol r) .closed (closeHtlcIfAny id kind >>= f).run Q :=
  sat_task_bind (sat_closeHtlcIfAny hid) (fun _ _ h => h.2 ▸ hok) fun _ _ h => nomatch h.1

end

/-! ## The store stays well formed -/

/-- Every row is filed under its id, with the status of its phase. -/
def World.WellFormed (w : World) : Prop := ∀ id tx, w.rows.lookup id = some tx → tx.WellFormed id

theorem World.wellFormed_empty : World.empty.WellFormed := by
  intro id tx h
  cases h

theorem protocol_kept (sv : Services) (r : Request) : (protocol r).Kept (World.serve sv) World.WellFormed where
  admits {w c a} hw := by
    show Admits c (World.serve sv c a w).1
    cases c with
    | get id =>
      cases hres : (World.serve sv (.get id) a w).1 with
      | error e => trivial
      | ok row =>
        cases row with
        | none => trivial
        | some tx =>
          have hrow := World.serve_ok hres
          rw [hrow] at hres
          exact hw id tx (Except.ok.inj hres)
    | _ => trivial
  kept {w g c a} hw hc := by
    intro id tx htx
    rcases World.serve_found htx with h | ⟨rfl, hid⟩
    · exact hw id tx h
    · obtain ⟨hwf, -⟩ : tx.WellFormed r.id ∧ g.Upserts r tx := hc
      rwa [hid, hwf.swapId]

/-! ## The entry points keep to the protocol -/

section

variable {r : Request} {β : Type} {Q : Stage → Except RefereeError β → Prop} {o : Orchestrator} {id : SwapId}
  {inner : SwapFields} {seen : Seen}

theorem sat_getKnown {f : Transaction → Async β} (hid : id = r.id) (hQ : ErrorsEnd Q)
    (hok : ∀ tx : Transaction, tx.WellFormed r.id → Sat (protocol r)
      (if tx.phase.isTerminal then .closed else .holding ⟨tx.phase, tx.stateBlob.inner⟩ .nothing) (f tx).run Q) :
    Sat (protocol r) .unread (getKnown id >>= f).run Q := by
  refine sat_task_bind (M := fun g res => (∃ tx : Transaction, res = .ok tx ∧ tx.WellFormed r.id ∧
    g = if tx.phase.isTerminal then .closed else .holding ⟨tx.phase, tx.stateBlob.inner⟩ .nothing) ∨
    (∃ e, res = .error e) ∧ g.Resting) ?_ ?_ ?_
  · refine sat_perform hid (fun row hrow => ?_) fun e => .inr ⟨⟨e, rfl⟩, trivial⟩
    cases row with
    | none => exact .inr ⟨⟨_, rfl⟩, trivial⟩
    | some tx => exact .inl ⟨tx, rfl, hid ▸ hrow, rfl⟩
  · rintro g tx (⟨tx', htx, hwf, rfl⟩ | ⟨⟨e, he⟩, -⟩)
    · obtain rfl := Except.ok.inj htx
      exact hok tx hwf
    · cases he
  · rintro g e (⟨tx, he, -⟩ | ⟨-, hg⟩)
    · cases he
    · exact hQ g e hg

/-- `H_B` spent: entry, signature, release, row. -/
theorem sat_settleBranch (hid : id = r.id) (hstart : ¬ r.IsStart) (hinner : inner.id = r.id)
    (hspent : seen.status = some .spent) :
    Sat (protocol r) (.holding ⟨.insertPushed, inner⟩ seen) (settleBranch o id ⟨inner⟩).run
      fun g _ => g.Resting := by
  have hQ : ErrorsEnd (β := Option SwapOutcome) fun g _ => g.Resting := fun g e hg => hg
  refine sat_auditPhase (v := ⟨.insertPushed, inner⟩) hid (.inl rfl) (fun h => h.elim) hQ fun ts tip => ?_
  refine sat_now fun settledAt => ?_
  refine sat_computed (fun settled hsettled => ?_) fun e he => nomatch he
  cases hsettled
  refine sat_perform ⟨hid, hstart, rfl, rfl, rfl, rfl, rfl⟩ (fun sig _ => ?_) fun e => hQ _ e trivial
  refine sat_perform ⟨hid, rfl, rfl⟩ (fun _ _ => ?_) fun e => hQ _ e trivial
  refine sat_persist_next ?_ ?_ ?_ ?_ ?_ hQ ?_
  · exact hinner
  · rfl
  · exact .inl rfl
  · exact ⟨rfl, rfl, rfl, rfl, rfl⟩
  · exact hspent
  refine sat_perform ⟨hid, rfl⟩ (fun _ _ => ?_) fun e => hQ _ e trivial
  exact sat_closeHtlcIfAny_bind hid trivial

/-- Where a push is left the counter does not overflow. -/
theorem insertPushedRetry_ok {n : UInt8} {s : SwapState .insertPushed} {now : Nat} {tip : String}
    (hleft : s.insertPushAttempts < n) :
    insertPushedRetry s now tip = .ok ⟨{ s.toSwapFields with
      insertPushAttempts := s.insertPushAttempts + 1, phaseEnteredAt := now, auditTipHex := tip }⟩ := by
  have hne : s.insertPushAttempts ≠ 255 := by
    intro h
    rw [h, UInt8.lt_iff_toNat_lt] at hleft
    have hn := n.toNat_lt
    simp at hleft
    omega
  rw [insertPushedRetry, if_neg hne]

/-- `H_B` not spent, a push left: push, entry, row. -/
theorem sat_retryBranch (hid : id = r.id) (hinner : inner.id = r.id)
    (hleft : inner.insertPushAttempts < o.insertPushRetry) :
    Sat (protocol r) (.holding ⟨.insertPushed, inner⟩ seen) (retryBranch o id ⟨inner⟩).run
      fun g _ => g.Resting := by
  have hQ : ErrorsEnd (β := Option SwapOutcome) fun g _ => g.Resting := fun g e hg => hg
  refine sat_perform ⟨hid, .inl ⟨rfl, .inr rfl⟩⟩ (fun _ _ => ?_) fun e => hQ _ e trivial
  refine sat_auditPhase (v := ⟨.insertPushed, inner⟩) hid (.inr (.inl rfl)) (fun h => h.elim) hQ fun ts tip => ?_
  refine sat_now fun retriedAt => ?_
  rw [insertPushedRetry_ok hleft]
  refine sat_computed (fun retried hretried => ?_) fun e he => nomatch he
  cases hretried
  refine sat_persist_next ?_ ?_ ?_ ?_ ?_ hQ ?_
  · exact hinner
  · rfl
  · exact .inr (.inl rfl)
  · exact ⟨rfl, rfl, rfl, rfl, rfl⟩
  · trivial
  · trivial

/-- `H_B` not spent, no push left: entry, row, and only then the push. -/
theorem sat_abortBranch (hid : id = r.id) (hinner : inner.id = r.id) {s : SpentStatus} (hs : seen.status = some s)
    (hunspent : s ≠ .spent) :
    Sat (protocol r) (.holding ⟨.insertPushed, inner⟩ seen) (abortBranch o id ⟨inner⟩).run
      fun g _ => g.Resting := by
  have hQ : ErrorsEnd (β := Option SwapOutcome) fun g _ => g.Resting := fun g e hg => hg
  refine sat_auditPhase (v := ⟨.insertPushed, inner⟩) hid (.inr (.inr (.inl rfl))) (fun h => h.elim) hQ
    fun ts tip => ?_
  refine sat_now fun abortedAt => ?_
  refine sat_computed (fun aborted haborted => ?_) fun e he => nomatch he
  cases haborted
  refine sat_persist_next ?_ ?_ ?_ ?_ ?_ hQ ?_
  · exact hinner
  · rfl
  · exact .inr (.inr (.inl rfl))
  · exact ⟨rfl, rfl, rfl, rfl, rfl⟩
  · exact ⟨s, hs, hunspent⟩
  exact sat_perform ⟨hid, rfl, rfl⟩ (fun _ _ => trivial) fun e => hQ _ e trivial

theorem sat_advanceFromInsertPushed (hid : id = r.id) (hstart : ¬ r.IsStart) (hinner : inner.id = r.id) :
    Sat (protocol r) (.holding ⟨.insertPushed, inner⟩ seen) (advanceFromInsertPushed o id inner).run
      fun g _ => g.Resting := by
  refine sat_perform rfl (fun (post : SpentStatus) _ => ?_) fun e => trivial
  by_cases hpost : post = .spent
  · simp only [if_pos hpost]
    exact sat_settleBranch hid hstart hinner (congrArg some hpost)
  · simp only [if_neg hpost]
    split
    · exact sat_retryBranch hid hinner ‹_›
    · exact sat_abortBranch hid hinner rfl hpost

theorem sat_advanceFromAborted (hid : id = r.id) (hinner : inner.id = r.id) :
    Sat (protocol r) (.holding ⟨.aborted, inner⟩ seen) (advanceFromAborted id inner).run fun g _ => g.Resting := by
  have hQ : ErrorsEnd (β := Option SwapOutcome) fun g _ => g.Resting := fun g e hg => hg
  refine sat_auditPhase (v := ⟨.aborted, inner⟩) hid rfl (fun h => h.elim) hQ fun ts tip => ?_
  refine sat_now fun invalidatedAt => ?_
  refine sat_computed (fun s hs => ?_) fun e he => nomatch he
  cases hs
  refine sat_persist_next ?_ ?_ ?_ ?_ ?_ hQ ?_
  · exact hinner
  · rfl
  · rfl
  · exact ⟨rfl, rfl, rfl, rfl, rfl⟩
  · trivial
  · trivial

/-- The signature comes first, the entry and the row after the release. -/
theorem sat_advanceFromInvalidated (hid : id = r.id) (hstart : ¬ r.IsStart) (hinner : inner.id = r.id) :
    Sat (protocol r) (.holding ⟨.invalidated, inner⟩ seen) (advanceFromInvalidated o id inner).run
      fun g _ => g.Resting := by
  have hQ : ErrorsEnd (β := Option SwapOutcome) fun g _ => g.Resting := fun g e hg => hg
  refine sat_perform ⟨hid, hstart, rfl, rfl, rfl, rfl⟩ (fun sig _ => ?_) fun e => hQ _ e trivial
  refine sat_perform ⟨hid, .inr ⟨rfl, rfl⟩⟩ (fun _ _ => ?_) fun e => hQ _ e trivial
  refine sat_auditPhase (v := ⟨.invalidated, inner⟩) hid rfl (fun h => h.elim) hQ fun ts tip => ?_
  refine sat_now fun refundedAt => ?_
  refine sat_persist_next ?_ ?_ ?_ ?_ ?_ hQ ?_
  · exact hinner
  · rfl
  · rfl
  · exact ⟨rfl, rfl, rfl, rfl, rfl⟩
  · trivial
  refine sat_perform ⟨hid, rfl⟩ (fun _ _ => ?_) fun e => hQ _ e trivial
  exact sat_closeHtlcIfAny_bind hid trivial

/-- One call of `advance_swap`. -/
theorem sat_advanceSwap (hid : id = r.id) (hstart : ¬ r.IsStart) :
    Sat (protocol r) .unread (advanceSwap o id).run fun g _ => g.Resting := by
  refine sat_getKnown hid (fun g e hg => hg) fun tx hwf => ?_
  have hinner := hwf.innerId
  cases tx.phase with
  | settled | refunded | canceled => trivial
  | init | zkpsVerified | preChecked => trivial
  | insertPushed => exact sat_advanceFromInsertPushed hid hstart hinner
  | aborted => exact sat_advanceFromAborted hid hinner
  | invalidated => exact sat_advanceFromInvalidated hid hstart hinner

/-- What passes the checks of `cancel_swap` is in a phase that can be canceled. -/
theorem checkCancel_ok {tx : Transaction} {byPgpFp : PgpFingerprint} {reason sigHex : String}
    (h : checkCancel o id tx byPgpFp reason sigHex = .ok ()) : tx.terminal = false ∧ tx.phase.Follows .canceled := by
  unfold checkCancel at h
  split at h
  · cases h
  rename_i hterm
  refine ⟨Bool.eq_false_iff.2 hterm, ?_⟩
  cases hparty : cancelParty tx.stateBlob.inner.parties byPgpFp with
  | error e =>
    rw [hparty] at h
    cases h
  | ok party =>
    rw [hparty] at h
    cases hp : tx.phase with
    | init | zkpsVerified | preChecked => exact .inr rfl
    | insertPushed => exact .inr (.inr (.inr rfl))
    | settled | aborted | invalidated | refunded | canceled =>
      rw [hp] at h
      cases h

/-- One call of `cancel_swap`. -/
theorem sat_cancelSwap {byPgpFp : PgpFingerprint} {reason sigHex : String} (hid : id = r.id) :
    Sat (protocol r) .unread (cancelSwap o id byPgpFp reason sigHex).run fun g _ => g.Resting := by
  have hQ : ErrorsEnd (β := Unit) fun g _ => g.Resting := fun g e hg => hg
  refine sat_getKnown hid hQ fun tx hwf => ?_
  refine sat_computed (fun u hcheck => ?_) fun e _ => ?_
  swap
  · split <;> trivial
  obtain ⟨hterm, hfollows⟩ := checkCancel_ok hcheck
  rw [← hwf.terminal, hterm]
  refine sat_now fun now => ?_
  refine sat_auditPhase (v := ⟨tx.phase, tx.stateBlob.inner⟩) hid hfollows (fun h => h.elim) hQ fun ts tip => ?_
  refine sat_perform ⟨⟨hwf.swapId, hwf.innerId, rfl, rfl⟩,
    ⟨rfl, rfl, fun v' hv => ?_, fun h => nomatch h⟩, trivial⟩
    (fun _ _ => ?_) fun e => hQ _ e trivial
  · cases hv
    exact ⟨hfollows, rfl, rfl, rfl, rfl, rfl⟩
  -- The row is canceled; what is left is best effort.
  have hrest : Sat (protocol r) .closed (do
      let _ ← bestEffort (.discardSession id .settle)
      let _ ← bestEffort (.discardSession id .refund)
      closeHtlcIfAny id .cancel : Async Unit).run fun g _ => g.Resting := by
    refine sat_discardSession hid fun _ => sat_discardSession hid fun _ => ?_
    exact (sat_closeHtlcIfAny hid).mono fun g _ h => h.2 ▸ trivial
  by_cases hpush : (tx.cancel byPgpFp reason tip now).insertPushAttempts > 0
  · simp only [if_pos hpush]
    refine sat_attempt ⟨hid, rfl⟩ fun res _ => ?_
    cases res <;> exact hrest
  · simp only [if_neg hpush]
    exact hrest

theorem verifyZkps_ok {s : SwapState .init} {ok : Bool} {now : Nat} {tip : String} {s' : SwapState .zkpsVerified}
    (h : verifyZkps s ok now tip = .ok s') : ok = true ∧ s.advance now tip = s' := by
  cases ok with
  | false => cases h
  | true => exact ⟨rfl, Except.ok.inj h⟩

theorem verifyZkps_error {s : SwapState .init} {ok : Bool} {now : Nat} {tip : String} {e : RefereeError}
    (h : verifyZkps s ok now tip = .error e) : ok = false := by
  cases ok with
  | false => rfl
  | true => cases h

theorem preCheck_ok {s : SwapState .zkpsVerified} {unspent : Bool} {now : Nat} {tip : String}
    {s' : SwapState .preChecked}
    (h : preCheck s unspent now tip = .ok s') : unspent = true ∧ s.advance now tip = s' := by
  cases unspent with
  | false => cases h
  | true => exact ⟨rfl, Except.ok.inj h⟩

theorem preCheck_error {s : SwapState .zkpsVerified} {unspent : Bool} {now : Nat} {tip : String} {e : RefereeError}
    (h : preCheck s unspent now tip = .error e) : unspent = false := by
  cases unspent with
  | false => rfl
  | true => cases h

/-- The contract id goes into the row that is there. -/
theorem sat_saveContract {cid : Option String} {v : View} {f : Unit → Async β} (hid : id = r.id)
    (hstart : r.IsStart) (hphase : v.phase = .init) (hQ : ErrorsEnd Q)
    (hok : ∀ seen, Sat (protocol r) (.holding v seen) (f ()).run Q) :
    Sat (protocol r) (.holding v seen) (saveContract id cid >>= f).run Q := by
  refine sat_task_bind (M := fun g res => (∃ seen, res = .ok () ∧ g = .holding v seen) ∨
    (∃ e, res = .error e) ∧ g.Resting) ?_ ?_ ?_
  · cases cid with
    | none => exact .inl ⟨seen, rfl, rfl⟩
    | some cid =>
      refine sat_perform hid (fun row hrow => ?_) fun e => .inr ⟨⟨e, rfl⟩, trivial⟩
      cases row with
      | none => exact .inl ⟨_, rfl, rfl⟩
      | some tx =>
        have hwf : tx.WellFormed id := hrow
        refine ⟨⟨⟨hid ▸ hwf.swapId, hid ▸ hwf.innerId, hwf.status, hwf.terminal⟩, hphase, hstart, tx,
          some cid, rfl, rfl⟩,
          fun res _ => ?_⟩
        cases res with
        | ok u => exact .inl ⟨_, rfl, rfl⟩
        | error e => exact .inr ⟨⟨e, rfl⟩, trivial⟩
  · rintro g u (⟨seen', -, rfl⟩ | ⟨⟨e, he⟩, -⟩)
    · exact hok seen'
    · cases he
  · rintro g e (⟨seen', he, -⟩ | ⟨-, hg⟩)
    · cases he
    · exact hQ g e hg

/-- One call of `start_swap`. -/
theorem sat_startSwap {req : InitiateRequest} :
    Sat (protocol (.start id req)) (.fresh []) (startSwap o id req).run
      fun g res => g.Ended ∧ ∀ id', res = .ok id' → g.IsHolding fun v => v.phase = .insertPushed := by
  have hQ : ErrorsEnd (β := SwapId) fun g res => g.Ended ∧ ∀ id', res = .ok id' →
      g.IsHolding fun v => v.phase = .insertPushed :=
    fun g e hg => ⟨.inl hg, fun _ h => nomatch h⟩
  refine sat_now fun nowUnix => ?_
  refine sat_perform ⟨rfl, ⟨id, req, rfl⟩, List.not_mem_nil⟩ (fun settleNonce _ => ?_) fun e => hQ _ e trivial
  refine sat_perform ⟨rfl, ⟨id, req, rfl⟩, fun h => nomatch List.mem_singleton.1 h⟩
    (fun refundNonce _ => ?_) fun e => hQ _ e trivial
  refine sat_perform ⟨rfl, ⟨rfl, rfl, rfl⟩, fun _ => ⟨id, req, rfl⟩⟩ (fun initTip _ => ?_)
    fun e => hQ _ e trivial
  refine sat_persist (r := .start id req) (e := ⟨id, .init, nowUnix, "", initPayload req, ""⟩)
    (f := _) ?_ ?_ ?_ ?_ ?_ ?_ hQ ?_
  · rfl
  · rfl
  · rfl
  · exact fun _ h => nomatch h
  · exact fun _ => ⟨rfl, rfl, rfl, rfl, rfl, rfl⟩
  · trivial
  refine sat_perform rfl (fun _ _ => ?_) fun e => hQ _ e trivial
  refine sat_mintHtlcRefund rfl fun cid => ?_
  refine sat_saveContract (v := ⟨.init, _⟩) rfl ⟨id, req, rfl⟩ rfl hQ fun seen => ?_
  refine sat_perform rfl (fun okBob _ => ?_) fun e => hQ _ e trivial
  refine sat_perform rfl (fun okAlice _ => ?_) fun e => hQ _ e trivial
  refine sat_auditPhase (v := ⟨.init, _⟩) rfl (.inl rfl) (fun _ => ⟨id, req, rfl⟩) hQ fun ts zkpsTip => ?_
  refine sat_now fun zkpsAt => ?_
  refine sat_computed (fun zkpsState hzkps => ?_) fun e he => ⟨.inr ⟨_, _, _, _, rfl, ?_⟩, fun _ h => nomatch h⟩
  swap
  · exact (Bool.and_eq_false_iff.1 (verifyZkps_error he)).imp (congrArg some) (congrArg some)
  obtain ⟨hok, rfl⟩ := verifyZkps_ok hzkps
  refine sat_persist_next ?_ ?_ ?_ ?_ ?_ hQ ?_
  · rfl
  · rfl
  · exact .inl rfl
  · exact ⟨rfl, rfl, rfl, rfl, rfl⟩
  · exact (Bool.and_eq_true_iff.1 hok).imp (congrArg some) (congrArg some)
  refine sat_perform rfl (fun (preStatus : SpentStatus) _ => ?_) fun e => hQ _ e trivial
  refine sat_auditPhase (v := ⟨.zkpsVerified, _⟩) rfl (.inl rfl) (fun _ => ⟨id, req, rfl⟩) hQ
    fun ts preTip => ?_
  refine sat_now fun preAt => ?_
  refine sat_computed (fun preState hpre => ?_) fun e he => ⟨.inr ⟨_, _, _, _, rfl, ?_⟩, fun _ h => nomatch h⟩
  swap
  · exact ⟨preStatus, rfl, of_decide_eq_false (preCheck_error he)⟩
  obtain ⟨hunspent, rfl⟩ := preCheck_ok hpre
  refine sat_persist_next ?_ ?_ ?_ ?_ ?_ hQ ?_
  · rfl
  · rfl
  · exact .inl rfl
  · exact ⟨rfl, rfl, rfl, rfl, rfl⟩
  · exact congrArg some (of_decide_eq_true hunspent)
  refine sat_perform ⟨rfl, .inl ⟨rfl, .inl rfl⟩⟩ (fun _ _ => ?_) fun e => hQ _ e trivial
  refine sat_auditPhase (v := ⟨.preChecked, _⟩) rfl (.inl rfl) (fun _ => ⟨id, req, rfl⟩) hQ fun ts pushTip => ?_
  refine sat_now fun pushedAt => ?_
  refine sat_persist_next ?_ ?_ ?_ ?_ ?_ hQ ?_
  · rfl
  · rfl
  · exact .inl rfl
  · exact ⟨rfl, rfl, rfl, rfl, rfl⟩
  · trivial
  · exact ⟨.inl trivial, fun _ _ => rfl⟩

/-- **Every call keeps to the protocol.** -/
theorem program_sat (o : Orchestrator) (r : Request) : Sat (protocol r) r.initial (program o r) Ends := by
  cases r with
  | start id req =>
    refine sat_task_bind sat_startSwap (fun g id' h => ⟨h.1, fun _ hid => h.2 id' rfl⟩) fun g e h =>
      ⟨h.1, fun _ h => nomatch h⟩
  | advance id =>
    exact sat_task_bind (sat_advanceSwap rfl fun ⟨_, _, h⟩ => nomatch h)
      (fun g _ h => ⟨.inl h, fun _ h => nomatch h⟩)
      fun g e h => ⟨.inl h, fun _ h => nomatch h⟩
  | cancel id byPgpFp reason sigHex =>
    exact sat_task_bind (sat_cancelSwap rfl) (fun g _ h => ⟨.inl h, fun _ h => nomatch h⟩)
      fun g e h => ⟨.inl h, fun _ h => nomatch h⟩

end

/-! ## What an allowed call changes -/

section

variable {sv : Services} {r : Request} {g : Stage} {c : Call} {a : Answer} {w : World} {id : SwapId}

/-- The phase the row is in. -/
def World.phaseOf (w : World) (id : SwapId) : Option Phase := (w.rows.lookup id).map Transaction.phase

/-- The row of a swap changes only when a call on it writes it. -/
theorem row_cases (sv : Services) (a : Answer) (w : World) (id : SwapId) (hc : g.allows r c) :
    (World.serve sv c a w).2.rows.lookup id = w.rows.lookup id ∨
    ∃ tx, c = .upsert tx ∧ id = r.id ∧ tx.WellFormed id ∧ g.Upserts r tx ∧
      (World.serve sv c a w).2.rows.lookup id = some tx := by
  rcases World.serve_lookup sv c a w id with h | ⟨tx, rfl, hid, h⟩
  · exact .inl h
  · obtain ⟨hwf, hup⟩ := hc
    have hr : id = r.id := hid.trans hwf.swapId
    exact .inr ⟨tx, rfl, hr, hr ▸ hwf, hup, h⟩

/-- A swap is signed for only by a call on it, out of a live session. -/
theorem signed_cases (sv : Services) (a : Answer) (w : World) (id : SwapId) (hc : g.allows r c) :
    (∀ s, (id, s) ∈ (World.serve sv c a w).2.signed ↔ (id, s) ∈ w.signed) ∨
    ∃ session tx pk n, c = .partialSign id session tx pk n ∧ id = r.id ∧ g.Signs session pk n ∧
      (World.serve sv c a w).2.signed = (id, session) :: w.signed := by
  rcases World.serve_signed sv c a w with ⟨h, -⟩ | ⟨i, session, tx, pk, n, rfl, -, h, -⟩
  · exact .inl fun s => by rw [h]
  · obtain ⟨hid, -, hsign⟩ := hc
    by_cases hi : id = i
    · subst hi
      exact .inr ⟨session, tx, pk, n, rfl, hid, hsign, h⟩
    · refine .inl fun s => ?_
      rw [h, List.mem_cons, Prod.mk.injEq]
      simp [hi]

/-- Only a start opens sessions. -/
theorem live_cases (hc : g.allows r c) {s : Session} (hs : (id, s) ∈ (World.serve sv c a w).2.live) :
    ((id, s) ∈ w.live ∧ ((id, s) ∈ (World.serve sv c a w).2.signed → (id, s) ∈ w.signed)) ∨
      (id = r.id ∧ r.IsStart) := by
  rcases World.serve_signed sv c a w with ⟨h, hlive⟩ | ⟨i, session, tx, pk, n, rfl, -, h, hlive⟩
  · rcases hlive _ hs with hw | rfl
    · exact .inl ⟨hw, fun hs => h ▸ hs⟩
    · exact .inr ⟨hc.1, hc.2.1⟩
  · rw [hlive] at hs
    refine .inl ⟨(Finmap.mem_erase.1 hs).2, fun hsig => ?_⟩
    rw [h] at hsig
    exact (List.mem_cons.1 hsig).resolve_left ((Finmap.mem_erase.1 hs).1)

/-- The phase a call believes the swap to be in. -/
def Stage.view? : Stage → Option Phase
  | .holding v _ => some v.phase
  | .decided (some v) _ _ _ => some v.phase
  | .aborting v _ => some v.phase
  | _ => none

theorem view_written (phase : Phase) (fields : SwapFields) (seen : Seen) :
    (Stage.written phase fields seen).view? = some phase ∨ Stage.written phase fields seen = .closed := by
  unfold Stage.written
  split
  · exact .inl rfl
  · split
    · exact .inr rfl
    · exact .inl rfl

/-- The call was answered, not failed. -/
def Served (sv : Services) (w : World) (a : Answer) (c : Call) : Prop := World.serve sv c a w = World.perform sv c a w

/-- What a call can do to the stage of the program that makes it. -/
inductive Stage.Moves (sv : Services) (r : Request) (w : World) (a : Answer) : Call → Stage → Stage → Prop
  | ends {c : Call} {g : Stage} (hends : (∃ e, (World.serve sv c a w).1 = .error e) ∨ ∀ v e tip seen,
      g ≠ .decided v e tip seen) :
      Moves sv r w a c g .closed
  | stays {c : Call} {g : Stage} (hcheck : ∀ hash, c ≠ .check hash) (happend : ∀ e, c ≠ .append e)
      (hupsert : ∀ tx, c = .upsert tx → g.IsHolding fun _ => True) : Moves sv r w a c g g
  | read {tx : Transaction} (hrow : w.rows.lookup r.id = some tx) (hterm : tx.phase.isTerminal = false) :
      Moves sv r w a (.get r.id) .unread (.holding ⟨tx.phase, tx.stateBlob.inner⟩ .nothing)
  | reread {v : View} {seen : Seen} :
      Moves sv r w a (.get r.id) (.holding v seen) (.holding v { seen with row := w.rows.lookup r.id })
  | checked {v : View} {seen : Seen} {hash : WebcashPublicHash} (hok : Served sv w a (.check hash)) :
      Moves sv r w a (.check hash) (.holding v seen) (.holding v { seen with status := some a.status })
  | verifiedBob {v : View} {seen : Seen} {proof : Groth16Proof} : Moves sv r w a (.verify .bobPayload proof)
      (.holding v seen) (.holding v { seen with okBob := some (sv.verify .bobPayload proof) })
  | verifiedAlice {v : View} {seen : Seen} {proof : Groth16Proof} : Moves sv r w a (.verify .aliceSignature proof)
      (.holding v seen) (.holding v { seen with okAlice := some (sv.verify .aliceSignature proof) })
  | begun {session : Session} {sessions : List Session} (hok : Served sv w a (.beginSession r.id session)) :
      Moves sv r w a (.beginSession r.id session) (.fresh sessions) (.fresh (session :: sessions))
  | opened {e : AuditEntry} {sessions : List Session} (hok : Served sv w a (.append e)) :
      Moves sv r w a (.append e) (.fresh sessions) (.decided none e e.tipHash .nothing)
  | appended {v : View} {seen : Seen} {e : AuditEntry} (hok : Served sv w a (.append e)) :
      Moves sv r w a (.append e) (.holding v seen) (.decided (some v) e e.tipHash seen)
  | wrote {v : Option View} {e : AuditEntry} {tip : String} {seen : Seen} {tx : Transaction}
      (hok : Served sv w a (.upsert tx)) :
      Moves sv r w a (.upsert tx) (.decided v e tip seen) (.written e.phase tx.stateBlob.inner seen)

/-- **What a call does to the stage.** -/
theorem moves (sv : Services) (a : Answer) (w : World) (hc : g.allows r c) :
    g.Moves sv r w a c (g.next c (World.serve sv c a w).1) := by
  cases hres : (World.serve sv c a w).1 with
  | error e =>
    cases c with
    | now | mintHtlcRefund => exact .stays (fun _ h => nomatch h) (fun _ h => nomatch h) fun _ h => nomatch h
    | _ => exact .ends (.inl ⟨e, hres⟩)
  | ok res =>
    have hok : Served sv w a c := World.serve_ok hres
    rw [World.serve_ok hres] at hres
    cases c with
    | get i =>
      obtain rfl : i = r.id := hc
      have hrow : w.rows.lookup r.id = res := Except.ok.inj hres
      subst hrow
      cases g with
      | unread =>
        unfold Stage.next
        cases hrow : w.rows.lookup r.id with
        | none => exact .ends (.inr fun _ _ _ _ h => nomatch h)
        | some tx =>
          dsimp only
          split
          · exact .ends (.inr fun _ _ _ _ h => nomatch h)
          · exact .read hrow (Bool.eq_false_iff.2 ‹_›)
      | holding v seen => exact .reread
      | fresh | decided | aborting | closed =>
        exact .stays (fun _ h => nomatch h) (fun _ h => nomatch h) fun _ h => nomatch h
    | append e =>
      obtain rfl : e.tipHash = res := Except.ok.inj hres
      cases g with
      | fresh => exact .opened hok
      | holding v seen => exact .appended hok
      | unread | decided | aborting | closed => exact hc.2.1.elim
    | upsert tx =>
      cases g with
      | decided v e tip seen => exact .wrote hok
      | holding v seen => exact .stays (fun _ h => nomatch h) (fun _ h => nomatch h) fun _ _ => trivial
      | fresh | unread | aborting | closed => exact hc.2.elim
    | check hash =>
      obtain rfl : a.status = res := Except.ok.inj hres
      cases g with
      | holding v seen => exact .checked hok
      | fresh | unread | decided | aborting | closed => exact hc.elim
    | verify circuit proof =>
      obtain rfl : sv.verify circuit proof = res := Except.ok.inj hres
      cases g with
      | holding v seen =>
        cases circuit with
        | bobPayload => exact .verifiedBob
        | aliceSignature => exact .verifiedAlice
      | fresh | unread | decided | aborting | closed => exact hc.elim
    | dispatch req =>
      cases g with
      | aborting v seen => exact .ends (.inr fun _ _ _ _ h => nomatch h)
      | fresh | unread | holding | decided | closed =>
        exact .stays (fun _ h => nomatch h) (fun _ h => nomatch h) fun _ h => nomatch h
    | beginSession i session =>
      obtain rfl : i = r.id := hc.1
      cases g with
      | fresh sessions => exact .begun hok
      | unread | holding | decided | aborting | closed => exact hc.2.2.elim
    | now | partialSign | discardSession | mintSwapRecord | mintHtlcRefund | closeHtlcRefund =>
      exact .stays (fun _ h => nomatch h) (fun _ h => nomatch h) fun _ h => nomatch h

/-- A call's view of the swap changes when it reads the row and when it writes it; it also ends. -/
theorem view_cases (sv : Services) (a : Answer) (w : World) (hc : g.allows r c) :
    (g.next c (World.serve sv c a w).1).view? = g.view? ∨
    (g.next c (World.serve sv c a w).1).view? = none ∨
    (∃ tx, c = .get r.id ∧ w.rows.lookup r.id = some tx ∧ (g.next c (World.serve sv c a w).1).view? =
      some tx.phase) ∨
    ∃ tx, c = .upsert tx ∧ (g.next c (World.serve sv c a w).1).view? = some tx.phase := by
  have hmoves := moves sv a w hc
  generalize g.next c (World.serve sv c a w).1 = g' at hmoves ⊢
  cases hmoves with
  | ends => exact .inr (.inl rfl)
  | read hrow hterm => exact .inr (.inr (.inl ⟨_, rfl, hrow, rfl⟩))
  | @wrote v e tip seen tx hok =>
    have hphase : tx.phase = e.phase := hc.2.1.phase
    rcases view_written e.phase tx.stateBlob.inner seen with h | h
    · exact .inr (.inr (.inr ⟨tx, rfl, hphase ▸ h⟩))
    · exact .inr (.inl (congrArg Stage.view? h))
  | stays | reread | checked | verifiedBob | verifiedAlice | begun | opened | appended => exact .inl rfl

end

end Webycash.Referee
