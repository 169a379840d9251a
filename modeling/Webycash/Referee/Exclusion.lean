import Webycash.Lib.Run
import Webycash.Referee.Protocol
/-!
# Settlement or refund, not both

Calls on one swap may overlap in any way; each reads the row once and acts on what it read. The
settle and the refund session are separate, so nothing but the order of the steps keeps the signer
from signing both (`both_signed`: a call that read the row before the abort settles while the
refund is under way). `never_both_signatures`: what it takes is that a call that signs for
settlement, aborts or retries still finds the row, or the session, that it decided on.

The argument has two modes. While no call has an aborted row in view the refund is not signed;
once the row has been aborted the settlement is not signed, and no row says `insert-pushed` any more.
-/

namespace Webycash.Referee

open Prog

/-- The orchestrator's calls under way over one world. -/
abbrev Calls := Pool (fun c => Except RefereeError (Call.Result c)) (Except RefereeError Reply) Answer World Request

abbrev CallThread := Thread (fun c => Except RefereeError (Call.Result c)) (Except RefereeError Reply) Answer Request

section

variable (sv : Services) (o : Orchestrator) (id : SwapId)

/-- Any step of any call. -/
def Calls.Step (p : Calls) (act : Act Answer Request) (p' : Calls) : Prop :=
  Pool.Step (World.serve sv) (program o) p act p'

/-- The calls that matter still find what they decided on: a signature for settlement and a retry
find the row at `insert-pushed`, an abort finds the settle session live. -/
def Timely (w : World) : Call → Prop
  | .partialSign id' .settle _ _ _ => id' = id → w.phaseOf id = some .insertPushed
  | .upsert tx => tx.swapId = id →
      (tx.phase = .insertPushed → w.phaseOf id = some .insertPushed) ∧
        (tx.phase = .aborted → (id, Session.settle) ∈ w.live)
  | _ => True

instance (w : World) : DecidablePred (Timely id w)
  | .partialSign id' .settle _ _ _ => inferInstanceAs (Decidable (id' = id → w.phaseOf id = some .insertPushed))
  | .upsert tx => inferInstanceAs (Decidable (tx.swapId = id →
      (tx.phase = .insertPushed → w.phaseOf id = some .insertPushed) ∧
        (tx.phase = .aborted → (id, Session.settle) ∈ w.live)))
  | .partialSign _ .refund _ _ _ | .now | .beginSession _ _ | .discardSession _ _ | .append _ | .get _ |
      .check _ | .verify _ _
  | .mintSwapRecord _ _ | .mintHtlcRefund _ _ | .closeHtlcRefund _ _ _ | .dispatch _ => .isTrue trivial

instance : (act : Act Answer Request) → Decidable (∀ req, act ≠ .spawn (.start id req))
  | .spawn (.start id' req) =>
    if h : id' = id then .isFalse fun hn => hn req (h ▸ rfl) else .isTrue fun _ he => h (by cases he; rfl)
  | .spawn (.advance _) | .spawn (.cancel ..) | .turn .. => .isTrue nofun

/-- A step of the calls on a swap that has been started. -/
def Calls.TimelyStep (p : Calls) (act : Act Answer Request) (p' : Calls) : Prop :=
  p.Step sv o act p' ∧ (∀ req, act ≠ .spawn (.start id req)) ∧ ∀ c, p.calling? act = some c →
    Timely id p.world c

end

/-- Every call on the swap has returned. -/
def Calls.Idle (p : Calls) (id : SwapId) : Prop := ∀ t ∈ p.threads, t.tag.id = id → ¬ t.Active

instance (p : Calls) (id : SwapId) : Decidable (p.Idle id) :=
  inferInstanceAs (Decidable (∀ t ∈ p.threads, t.tag.id = id → ¬ t.Active))

/-- Nothing has been signed for the swap. -/
def World.Unsigned (w : World) (id : SwapId) : Prop := ∀ s, (id, s) ∉ w.signed

/-! ## Two modes -/

/-- No aborted row is in the call's view. -/
def Stage.OffRefund (g : Stage) : Prop := g.view? ≠ some .aborted ∧ g.view? ≠ some .invalidated

def stageOf (t : CallThread) : Stage := t.state protocol Request.initial

/-- The refund is not signed and no call is on the way to it. -/
structure Settling (id : SwapId) (p : Calls) : Prop where
  unsigned : (id, Session.refund) ∉ p.world.signed
  row : ∀ ph, p.world.phaseOf id = some ph → ph ≠ .aborted ∧ ph ≠ .invalidated ∧ ph ≠ .refunded
  calls : ∀ t ∈ p.threads, t.tag.id = id → t.Active → (stageOf t).OffRefund

/-- The settlement is not signed and no row calls for it. -/
structure Refunding (id : SwapId) (p : Calls) : Prop where
  unsigned : (id, Session.settle) ∉ p.world.signed
  row : p.world.phaseOf id ≠ some .insertPushed

structure Exclusive (id : SwapId) (p : Calls) : Prop where
  conforms : p.Conforms protocol Request.initial World.WellFormed fun _ => Ends
  started : ∀ t ∈ p.threads, t.tag.id = id → t.Active → ¬ t.tag.IsStart
  live : ∀ s, (id, s) ∈ p.world.live → (id, s) ∉ p.world.signed
  mode : Settling id p ∨ Refunding id p

variable {sv : Services} {o : Orchestrator} {id : SwapId} {r : Request} {g : Stage} {c : Call} {a : Answer} {w : World}
  {p p' : Calls} {act : Act Answer Request}

theorem conforms_step (h : p.Step sv o act p')
    (hp : p.Conforms protocol Request.initial World.WellFormed fun _ => Ends) :
    p'.Conforms protocol Request.initial World.WellFormed fun _ => Ends :=
  hp.step (fun r => protocol_kept sv r) (fun r => program_sat o r) h

/-- While no row on the way to a refund can be read or written, none comes into view. -/
theorem offRefund_next (hg : g.OffRefund) (hc : g.allows r c)
    (hrow : ∀ ph, w.phaseOf r.id = some ph → ph ≠ .aborted ∧ ph ≠ .invalidated ∧ ph ≠ .refunded)
    (hup : ∀ tx, c = .upsert tx → tx.phase ≠ .aborted ∧ tx.phase ≠ .invalidated) :
    (g.next c (World.serve sv c a w).1).OffRefund := by
  unfold Stage.OffRefund
  rcases view_cases sv a w hc with h | h | ⟨tx, -, htx, h⟩ | ⟨tx, rfl, h⟩ <;> rw [h]
  · exact hg
  · exact ⟨nofun, nofun⟩
  · have hph := hrow tx.phase (congrArg (Option.map Transaction.phase) htx)
    exact ⟨fun h => hph.1 (Option.some.inj h), fun h => hph.2.1 (Option.some.inj h)⟩
  · exact ⟨fun h => (hup tx rfl).1 (Option.some.inj h), fun h => (hup tx rfl).2 (Option.some.inj h)⟩

theorem live_unsigned (hc : g.allows r c) (hstart : id = r.id → ¬ r.IsStart)
    (hw : ∀ s, (id, s) ∈ w.live → (id, s) ∉ w.signed) :
    ∀ s, (id, s) ∈ (World.serve sv c a w).2.live → (id, s) ∉ (World.serve sv c a w).2.signed := by
  intro s hs hsig
  rcases live_cases hc hs with ⟨hlive, hback⟩ | ⟨hid, his⟩
  · exact hw s hlive (hback hsig)
  · exact hstart hid his

/-- A row that a call other than a start writes follows the row it holds. -/
theorem upsert_follows {tx : Transaction} (hc : g.allows r (.upsert tx)) (hstart : ¬ r.IsStart) :
    tx.swapId = r.id ∧ ∃ ph, g.view? = some ph ∧ ph.Follows tx.phase := by
  refine ⟨hc.1.swapId, ?_⟩
  cases g with
  | decided v e tip seen =>
    obtain ⟨-, hrec, -⟩ := hc
    cases v with
    | none =>
      have hopen := (hrec.opens rfl).2
      cases r with
      | start i req => exact absurd ⟨i, req, rfl⟩ hstart
      | advance i => exact hopen.elim
      | cancel i => exact hopen.elim
    | some v => exact ⟨v.phase, rfl, (hrec.follows v rfl).1⟩
  | holding v seen => exact absurd hc.2.2.1 hstart
  | fresh | unread | aborting | closed => exact hc.2.elim

/-! ## One step -/

section

variable {i : Nat} {made : List (Made (fun c => Except RefereeError (Call.Result c)) Answer)}
  {k : Except RefereeError c.Result → Prog (fun c => Except RefereeError (Call.Result c)) (Except RefereeError Reply)}

/-- The pool after the `i`-th call has made its step. -/
def Calls.turn (sv : Services) (p : Calls) (i : Nat) (r : Request)
    (made : List (Made (fun c => Except RefereeError (Call.Result c)) Answer)) (c : Call) (a : Answer)
    (k : Except RefereeError c.Result →
      Prog (fun c => Except RefereeError (Call.Result c)) (Except RefereeError Reply)) : Calls :=
  ⟨(World.serve sv c a p.world).2,
    p.threads.set i ⟨r, made ++ [⟨c, a, (World.serve sv c a p.world).1⟩], k (World.serve sv c a p.world).1⟩⟩

/-- A thread of the pool after the step: an old one, or the one that moved. -/
theorem mem_turn {t : CallThread} (ht : t ∈ (p.turn sv i r made c a k).threads) : t ∈ p.threads ∨
    (t.tag = r ∧ stageOf t = (stageOf ⟨r, made, .call c k⟩).next c (World.serve sv c a p.world).1) := by
  rcases List.mem_or_eq_of_mem_set ht with h | rfl
  · exact .inl h
  · exact .inr ⟨rfl, Thread.state_turn _⟩

/-- Settling calls go on settling, or one of them has aborted the swap. -/
theorem Settling.turn (hp : Settling id p) (hid : r.id = id) (hstart : ¬ r.IsStart)
    (hlive : ∀ s, (id, s) ∈ p.world.live → (id, s) ∉ p.world.signed)
    (ht : p.threads[i]? = some ⟨r, made, .call c k⟩) (hc : (stageOf ⟨r, made, .call c k⟩).allows r c)
    (htimely : Timely id p.world c) : Settling id (p.turn sv i r made c a k) ∨
    Refunding id (p.turn sv i r made c a k) := by
  subst hid
  have hoff : (stageOf ⟨r, made, .call c k⟩).OffRefund :=
    hp.calls _ (List.mem_of_getElem? ht) rfl fun _ h => nomatch h
  have hrefund : (r.id, Session.refund) ∉ (p.turn sv i r made c a k).world.signed := by
    show (r.id, Session.refund) ∉ (World.serve sv c a p.world).2.signed
    rcases signed_cases sv a p.world r.id hc with h | ⟨session, tx, pk, n, rfl, -, hsigns, h⟩
    · rw [h]
      exact hp.unsigned
    · rw [h]
      refine fun hmem => (List.mem_cons.1 hmem).elim (fun heq => ?_) hp.unsigned
      cases heq
      generalize stageOf _ = g at hsigns hoff
      cases g with
      | holding v seen => exact hoff.2 (congrArg some hsigns.2.1)
      | decided v e tip seen =>
        cases v with
        | none => exact hsigns.elim
        | some v => cases hsigns.1
      | fresh | unread | aborting | closed => exact hsigns.elim
  -- Settling goes on where no aborted row is written.
  have hgo : (∀ tx, c = .upsert tx → tx.phase ≠ .aborted) → Settling r.id (p.turn sv i r made c a k) := by
    intro hne
    have hup : ∀ tx, c = .upsert tx → tx.phase ≠ .aborted ∧ tx.phase ≠ .invalidated ∧
        tx.phase ≠ .refunded := by
      rintro tx rfl
      obtain ⟨-, ph, hview, hfollows⟩ := upsert_follows hc hstart
      refine ⟨hne tx rfl, fun h => ?_, fun h => ?_⟩ <;> rw [h] at hfollows
      · cases ph <;> simp [Phase.Follows] at hfollows
        exact hoff.1 hview
      · cases ph <;> simp [Phase.Follows] at hfollows
        exact hoff.2 hview
    refine ⟨hrefund, fun ph hph => ?_, fun t ht' htid hact => ?_⟩
    · rcases row_cases sv a p.world r.id hc with h | ⟨tx, rfl, -, -, -, h⟩
      · exact hp.row ph (by rwa [Calls.turn, World.phaseOf, h] at hph)
      · rw [Calls.turn, World.phaseOf, h] at hph
        cases hph
        exact hup tx rfl
    · rcases mem_turn ht' with hold | ⟨-, hstage⟩
      · exact hp.calls t hold htid hact
      · rw [hstage]
        exact offRefund_next hoff hc hp.row fun tx htx => ⟨(hup tx htx).1, (hup tx htx).2.1⟩
  by_cases hab : ∃ tx, c = .upsert tx ∧ tx.phase = .aborted
  · obtain ⟨tx, rfl, haborted⟩ := hab
    have hsettle : (r.id, Session.settle) ∉ (p.turn sv i r made (.upsert tx) a k).world.signed := by
      show _ ∉ (World.serve sv (.upsert tx) a p.world).2.signed
      rcases signed_cases sv a p.world r.id hc with h | ⟨_, _, _, _, h, -⟩
      · rw [h]
        exact hlive _ ((htimely hc.1.swapId).2 haborted)
      · cases h
    by_cases hrow : (p.turn sv i r made (.upsert tx) a k).world.phaseOf r.id = some .insertPushed
    · -- The write was not carried out: the call has ended with an error.
      refine .inl ⟨hrefund, fun ph hph => ?_, fun t ht' htid hact => ?_⟩
      · rw [hrow] at hph
        cases hph
        exact ⟨nofun, nofun, nofun⟩
      · rcases mem_turn ht' with hold | ⟨-, hstage⟩
        · exact hp.calls t hold htid hact
        · rw [hstage]
          cases hres : (World.serve sv (.upsert tx) a p.world).1 with
          | error e => exact ⟨nofun, nofun⟩
          | ok u =>
            rw [Calls.turn, World.phaseOf, World.serve_ok hres] at hrow
            simp [World.perform, hc.1.swapId, haborted] at hrow
    · exact .inr ⟨hsettle, hrow⟩
  · exact .inl (hgo fun tx htx hph => hab ⟨tx, htx, hph⟩)

/-- Once aborted, no row and no signature leads back. -/
theorem Refunding.turn (hp : Refunding id p) (hid : r.id = id) (hc : (stageOf ⟨r, made, .call c k⟩).allows r c)
    (htimely : Timely id p.world c) : Refunding id (p.turn sv i r made c a k) := by
  subst hid
  constructor
  · show _ ∉ (World.serve sv c a p.world).2.signed
    rcases signed_cases sv a p.world r.id hc with h | ⟨session, tx, pk, n, rfl, -, -, h⟩
    · rw [h]
      exact hp.unsigned
    · rw [h]
      refine fun hmem => (List.mem_cons.1 hmem).elim (fun heq => ?_) hp.unsigned
      cases heq
      exact hp.row (htimely rfl)
  · rcases row_cases sv a p.world r.id hc with h | ⟨tx, rfl, -, hwf, -, h⟩
    · rw [Calls.turn, World.phaseOf, h]
      exact hp.row
    · rw [Calls.turn, World.phaseOf, h]
      intro hph
      exact hp.row ((htimely hwf.swapId).1 (Option.some.inj hph))

/-- A call on another swap changes nothing of this one. -/
theorem turn_other (hid : r.id ≠ id) (hc : (stageOf ⟨r, made, .call c k⟩).allows r c)
    (hmode : Settling id p ∨ Refunding id p) :
    Settling id (p.turn sv i r made c a k) ∨ Refunding id (p.turn sv i r made c a k) := by
  have hrow : (World.serve sv c a p.world).2.phaseOf id = p.world.phaseOf id := by
    rcases row_cases sv a p.world id hc with h | ⟨-, -, h, -⟩
    · rw [World.phaseOf, h, World.phaseOf]
    · exact absurd h.symm hid
  have hsigned : ∀ s, (id, s) ∈ (World.serve sv c a p.world).2.signed ↔ (id, s) ∈ p.world.signed := by
    rcases signed_cases sv a p.world id hc with h | ⟨-, -, -, -, -, h, -⟩
    · exact h
    · exact absurd h.symm hid
  refine hmode.imp (fun hp => ⟨fun h => hp.unsigned ((hsigned _).1 h), fun ph hph => ?_, fun t ht htid hact => ?_⟩)
    fun hp => ⟨fun h => hp.unsigned ((hsigned _).1 h), fun hph => ?_⟩
  · exact hp.row ph (hrow ▸ hph)
  · rcases mem_turn ht with hold | ⟨htag, -⟩
    · exact hp.calls t hold htid hact
    · exact absurd (htag ▸ htid) hid
  · exact hp.row (hrow ▸ hph)

end

/-- **One step.** -/
theorem Exclusive.step (h : p.TimelyStep sv o id act p') (hp : Exclusive id p) : Exclusive id p' := by
  obtain ⟨hstep, hspawn, htimely⟩ := h
  have hconf := conforms_step hstep hp.conforms
  rcases Pool.step_cases hstep with ⟨r, rfl, rfl⟩ | ⟨i, a, r, made, c, k, rfl, ht, rfl⟩
  · have hstart : r.id = id → ¬ r.IsStart := by
      rintro hid ⟨i, req, rfl⟩
      exact hspawn req (congrArg (fun i => Act.spawn (Request.start i req)) hid)
    refine ⟨hconf, fun t ht' htid hact => ?_, hp.live,
      hp.mode.imp (fun hm => ⟨hm.unsigned, hm.row, fun t ht' htid hact => ?_⟩)
      fun hm => ⟨hm.unsigned, hm.row⟩⟩
    · rcases List.mem_append.1 ht' with hold | hnew
      · exact hp.started t hold htid hact
      · obtain rfl := List.mem_singleton.1 hnew
        exact hstart htid
    · rcases List.mem_append.1 ht' with hold | hnew
      · exact hm.calls t hold htid hact
      · obtain rfl := List.mem_singleton.1 hnew
        have hinit : (Request.initial r).view? = none := by cases r <;> rfl
        show (Request.initial r).view? ≠ _ ∧ (Request.initial r).view? ≠ _
        rw [hinit]
        exact ⟨nofun, nofun⟩
  · have hc : (stageOf ⟨r, made, .call c k⟩).allows r c := hp.conforms.allows ht
    have hstart : r.id = id → ¬ r.IsStart := fun hid =>
      hp.started _ (List.mem_of_getElem? ht) hid fun _ h => nomatch h
    have hcall : Timely id p.world c := htimely c (by simp [Pool.calling?, ht])
    refine ⟨hconf, fun t ht' htid hact => ?_, live_unsigned hc (fun hid => hstart hid.symm) hp.live, ?_⟩
    · rcases List.mem_or_eq_of_mem_set ht' with hold | rfl
      · exact hp.started t hold htid hact
      · exact hstart htid
    · by_cases hid : r.id = id
      · rcases hp.mode with hm | hm
        · exact hm.turn hid (hstart hid) hp.live ht hc hcall
        · exact .inr (hm.turn hid hc hcall)
      · exact turn_other hid hc hp.mode

/-- A swap for which nothing has been signed and no call is under way. -/
theorem Exclusive.initial (hconf : p.Conforms protocol Request.initial World.WellFormed fun _ => Ends)
    (hidle : p.Idle id) (hunsigned : p.world.Unsigned id) : Exclusive id p := by
  refine ⟨hconf, fun t ht htid hact => absurd hact (hidle t ht htid), fun s _ => hunsigned s, ?_⟩
  by_cases hrow : p.world.phaseOf id = some .insertPushed
  · refine .inl ⟨hunsigned _, fun ph hph => ?_, fun t ht htid hact => absurd hact (hidle t ht htid)⟩
    rw [hrow] at hph
    cases hph
    exact ⟨nofun, nofun, nofun⟩
  · exact .inr ⟨hunsigned _, hrow⟩

theorem conforms_empty : (⟨World.empty, []⟩ : Calls).Conforms protocol Request.initial World.WellFormed
    fun _ => Ends :=
  ⟨World.wellFormed_empty, nofun⟩

/-- **Never both signatures.** Take any swap for which nothing has been signed yet and no call is
under way, and any interleaving of advance and cancel calls on it, and of any calls on other swaps,
with any answers of the collaborators. If signatures for settlement, aborts and retries still find
what they were decided on, the signer never signs for both. -/
theorem never_both_signatures (sv : Services) (o : Orchestrator) (id : SwapId) (before acts : List (Act Answer Request))
    (p p' : Calls) (h0 : Run (Calls.Step sv o) ⟨World.empty, []⟩ before p) (hidle : p.Idle id)
    (hunsigned : p.world.Unsigned id) (h : Run (Calls.TimelyStep sv o id) p acts p') :
    ¬ ((id, Session.settle) ∈ p'.world.signed ∧ (id, Session.refund) ∈ p'.world.signed) := by
  have hconf := Run.invariant (I := fun p : Calls => p.Conforms protocol Request.initial World.WellFormed fun _ => Ends)
    (fun _ _ _ hs hp => conforms_step hs hp) h0 conforms_empty
  have hinv := Run.invariant (I := Exclusive id) (fun _ _ _ hs hp => hp.step hs) h (.initial hconf hidle hunsigned)
  rintro ⟨hsettle, hrefund⟩
  rcases hinv.mode with hm | hm
  · exact hm.unsigned hrefund
  · exact hm.unsigned hsettle

/-! ## A settlement during a refund -/

namespace Sample

def turns (n i : Nat) (status : SpentStatus) : List (Act Answer Request) := List.replicate n (.turn i (healthy status))

/-- Run the steps, `none` when one cannot be made. -/
def exec (p : Calls) (acts : List (Act Answer Request)) : Option Calls :=
  Run.exec (Pool.next (World.serve services) (program orchestrator)) p acts

def timely? (p : Calls) (acts : List (Act Answer Request)) : Option Calls :=
  Run.exec (fun (p : Calls) act => if (∀ req, act ≠ .spawn (.start swapId req)) ∧ ∀ c,
    p.calling? act = some c → Timely swapId p.world c
    then Pool.next (World.serve services) (program orchestrator) p act else none) p acts

/-- The swap is started and waits for the webcash. -/
def startActs : List (Act Answer Request) := .spawn (.start swapId initiateRequest) :: turns 30 0 .unspent

/-- Call 1 reads the row. Call 2 finds `H_B` unspent and aborts, call 3 invalidates, call 4 signs the
refund. Then `H_B` is spent, and call 1 signs the settlement. -/
def raceActs : List (Act Answer Request) :=
  .spawn (.advance swapId) :: turns 1 1 .unspent ++ .spawn (.advance swapId) :: turns 9 2 .unspent ++
    .spawn (.advance swapId) :: turns 7 3 .unspent ++ .spawn (.advance swapId) :: turns 2 4 .unspent ++ turns 5 1 .spent

/-- A cancel by Alice and an advance read the row together; the cancel is turned away, the advance
settles. -/
def settleActs : List (Act Answer Request) :=
  [.spawn (.advance swapId), .spawn (.cancel swapId ⟨"a0"⟩ "late" "")] ++ turns 1 1 .spent ++ turns 1 2 .spent ++
    turns 11 1 .spent

end Sample

open Webycash.Referee.Sample

def Act.status? {A τ : Type} (status : A → SpentStatus) : Act A τ → Option SpentStatus
  | .turn _ a => some (status a)
  | .spawn _ => none

def Act.spawn? {A τ : Type} : Act A τ → Option τ
  | .turn _ _ => none
  | .spawn t => some t

/-- The health check answers `Unspent` up to some step and `Spent` from then on. -/
def SpentFrom (acts : List (Act Answer Request)) : Prop :=
  ∃ n, (∀ s ∈ (acts.take n).filterMap (Act.status? Answer.status), s = .unspent) ∧
    ∀ s ∈ (acts.drop n).filterMap (Act.status? Answer.status), s = .spent

/-- **Both signatures**: with nothing but advances, and no call failing, the referee signs the
refund and then the settlement. -/
theorem both_signed : ∃ p p' : Calls, Run (Calls.Step services orchestrator) ⟨World.empty, []⟩ startActs p ∧
    p.Idle swapId ∧
    Run (Calls.Step services orchestrator) p raceActs p' ∧
      (∀ r ∈ raceActs.filterMap Act.spawn?, r = .advance swapId) ∧
    SpentFrom (startActs ++ raceActs) ∧
    (swapId, Session.settle) ∈ p'.world.signed ∧ (swapId, Session.refund) ∈ p'.world.signed := by
  have h : ((exec ⟨World.empty, []⟩ startActs).bind fun p => (exec p raceActs).map fun p' =>
      decide (p.Idle swapId ∧ (swapId, Session.settle) ∈ p'.world.signed ∧
        (swapId, Session.refund) ∈ p'.world.signed)) = some true := by decide +kernel
  obtain ⟨p, hp, h⟩ := Option.bind_eq_some_iff.1 h
  obtain ⟨p', hp', h⟩ := Option.map_eq_some_iff.1 h
  obtain ⟨hidle, hsigned⟩ := of_decide_eq_true h
  refine ⟨p, p', Run.of_exec (fun _ _ _ hs => hs) hp, hidle, Run.of_exec (fun _ _ _ hs => hs) hp',
    by decide +kernel, ?_, hsigned⟩
  exact ⟨startActs.length + 23, by decide +kernel, by decide +kernel⟩

/-- A settlement beside a cancel that is turned away. -/
theorem never_both_signatures_settle : ∃ p p' :
    Calls, Run (Calls.Step services orchestrator) ⟨World.empty, []⟩ startActs p ∧
    Run (Calls.TimelyStep services orchestrator swapId) p settleActs p' ∧
      (swapId, Session.settle) ∈ p'.world.signed ∧
    ¬ ((swapId, Session.settle) ∈ p'.world.signed ∧ (swapId, Session.refund) ∈ p'.world.signed) := by
  have h : ((exec ⟨World.empty, []⟩ startActs).bind fun p => (timely? p settleActs).map fun p' =>
      decide (p.Idle swapId ∧ (swapId, Session.settle) ∉ p.world.signed ∧
        (swapId, Session.refund) ∉ p.world.signed ∧
        (swapId, Session.settle) ∈ p'.world.signed)) = some true := by decide +kernel
  obtain ⟨p, hp, h⟩ := Option.bind_eq_some_iff.1 h
  obtain ⟨p', hp', h⟩ := Option.map_eq_some_iff.1 h
  obtain ⟨hidle, hsettle, hrefund, hsigned⟩ := of_decide_eq_true h
  have hrun : Run (Calls.TimelyStep services orchestrator swapId) p settleActs p' :=
    (Run.of_exec_guarded hp').mono fun _ _ _ hs => ⟨hs.1, hs.2⟩
  have hbefore : Run (Calls.Step services orchestrator) ⟨World.empty, []⟩ startActs p :=
    Run.of_exec (fun _ _ _ hs => hs) hp
  have hunsigned : p.world.Unsigned swapId := fun s => by cases s <;> assumption
  exact ⟨p, p', hbefore, hrun, hsigned,
    never_both_signatures services orchestrator swapId startActs settleActs p p' hbefore hidle hunsigned hrun⟩

end Webycash.Referee
