import Webycash.Referee.Serial
/-!
# Repeating `advance_swap` after a failure

`advance_swap` is documented as idempotent: after a transient failure it is called again. What one
failure leaves behind is a matter of which call it strikes (`Leaves`). The signer's nonce is used
up when it signs, so a failure between the signature and the write of the terminal row leaves a
row that asks for a signature that can never be made again (`Exposed`); everywhere else the swap
still ends as it would have (`retry_safe_iff`).
-/

namespace Webycash.Referee

open Prog

/-- It signs whenever the session is live, as `MockSigner` does. -/
def Signer.Obliges (s : Signer) : Prop := ∀ id session seed tx pk n, ∃ sig, s.sign id session seed tx pk n = .ok sig

theorem mockSigner_obliges : mockSigner.Obliges := fun _ _ _ _ _ _ => ⟨_, rfl⟩

/-- No call fails. -/
def FaultFree (as : Nat → Answer) : Prop := ∀ n, (as n).fault = none

/-- Of all calls, the `n`-th fails. -/
structure FailsAt (as : Nat → Answer) (n : Nat) (f : Fault) : Prop where
  here : (as n).fault = some f
  elsewhere : ∀ k, k ≠ n → (as k).fault = none

/-- Calls to the store, the audit log, the push service and the webcash client. -/
def Call.Transient : Call → Prop
  | get _ | upsert _ | append _ | dispatch _ | check _ => True
  | _ => False

def Fault.IsLost : Fault → Prop
  | .lost _ => True
  | .unconfirmed _ => False

section

variable (sv : Services) (o : Orchestrator) (id : SwapId)

/-- The world after one `advance_swap`. -/
def advanced (as : Nat → Answer) (w : World) : World := ((program o (.advance id)).run (World.serve sv) as w).world

def advancedAll (calls : List (Nat → Answer)) (w : World) : World := calls.foldl (fun w as => advanced sv o id as w) w

/-- How a swap is to end, from the phase it is in and what becomes of `H_B`. What has been aborted
is refunded. -/
def outcome : Option Phase → SpentStatus → Phase
  | some .insertPushed, .spent => .settled
  | some .settled, _ => .settled
  | _, _ => .refunded

/-- Whatever becomes of `H_B`, some failure-free calls bring the swap to its end. -/
def Recovers (w : World) : Prop := ∀ status, ∃ calls : List (Nat → Answer),
  (∀ as ∈ calls, FaultFree as ∧ ∀ n, (as n).status = status) ∧
  (advancedAll sv o id calls w).phaseOf id = some (outcome (w.phaseOf id) status)

end

/-- In which of the calls of `advance_swap` the signature is made and the terminal row is written,
from the row's phase and the status of `H_B`. -/
def signsAndWrites : Phase → SpentStatus → Option (Nat × Nat)
  | .insertPushed, .spent => some (5, 9)
  | .invalidated, _ => some (1, 8)
  | _, _ => none

/-- The failure comes after the signature, and before the terminal row is there. -/
def Exposed (phase : Phase) (status : SpentStatus) (n : Nat) (f : Fault) : Prop :=
  ∃ signs writes, signsAndWrites phase status = some (signs, writes) ∧ signs < n ∧
    (n < writes ∨ (n = writes ∧ f.IsLost))

/-! ## What one failure leaves -/

section

variable (sv : Services) (good : Answer → Prop) (f : Fault)

/-- Run on answers of a kind, the program leaves `Q none` where no call fails, and `Q (some n)` where
the `n`-th fails and is one that can. -/
def Leaves {α : Type} (p : Prog (fun c => Except RefereeError (Call.Result c)) α) (w : World)
    (Q : Option Nat → World → Prop) : Prop :=
  ∀ as, (∀ n, good (as n)) → (FaultFree as → Q none (p.run (World.serve sv) as w).world) ∧
    ∀ n, FailsAt as n f → (∃ m, (p.run (World.serve sv) as w).trace[n]? = some m ∧ m.call.Transient) →
      Q (some n) (p.run (World.serve sv) as w).world

end

/-- The same, counted from one call later. -/
def Later (Q : Option Nat → World → Prop) : Option Nat → World → Prop
  | none => Q none
  | some n => Q (some (n + 1))

variable {sv : Services} {o : Orchestrator} {id : SwapId} {good : Answer → Prop} {f : Fault}
  {w : World} {α β : Type} {Q : Option Nat → World → Prop} {c : Call}

theorem FaultFree.later {as : Nat → Answer} (h : FaultFree as) : FaultFree fun n => as (n + 1) := fun n => h (n + 1)

theorem FailsAt.first {as : Nat → Answer} (h : FailsAt as 0 f) : FaultFree fun n => as (n + 1) :=
  fun n => h.elsewhere (n + 1) (Nat.succ_ne_zero n)

theorem FailsAt.later {as : Nat → Answer} {n : Nat} (h : FailsAt as (n + 1) f) :
    (as 0).fault = none ∧ FailsAt (fun n => as (n + 1)) n f :=
  ⟨h.elsewhere 0 (Nat.succ_ne_zero n).symm, h.here, fun k hk => h.elsewhere (k + 1) fun he => hk (Nat.succ.inj he)⟩

def Fault.error : Fault → RefereeError
  | .lost e | .unconfirmed e => e

/-- The world after a call that failed. -/
def Fault.leaves (f : Fault) (sv : Services) (c : Call) (a : Answer) (w : World) : World :=
  match f with
  | .lost _ => w
  | .unconfirmed _ => (World.perform sv c a w).2

theorem serve_of_fault {a : Answer} (h : a.fault = some f) (hc : c.Transient) :
    World.serve sv c a w = (.error f.error, f.leaves sv c a w) := by
  cases c <;> first | exact hc.elim | (cases f <;> simp only [World.serve, h, Fault.leaves, Fault.error])

/-- One call: it fails, or the program goes on with its result. -/
theorem leaves_call {k : Except RefereeError c.Result → Prog (fun c => Except RefereeError (Call.Result c)) α}
    (hfail : c.Transient → ∀ a as, good a → FaultFree as →
      Q (some 0) ((k (.error f.error)).run (World.serve sv) as (f.leaves sv c a w)).world)
    (hok : ∀ a, good a → Leaves sv good f (k (World.perform sv c a w).1) (World.perform sv c a w).2 (Later Q)) :
    Leaves sv good f (.call c k) w Q := by
  intro as hgood
  refine ⟨fun hnone => ?_, fun n hn ⟨m, hm, hc⟩ => ?_⟩
  · show Q none ((k (World.serve sv c (as 0) w).1).run (World.serve sv) _ (World.serve sv c (as 0) w).2).world
    rw [World.serve_of_fault_none (hnone 0)]
    exact (hok (as 0) (hgood 0) _ fun n => hgood (n + 1)).1 hnone.later
  · show Q (some n) ((k (World.serve sv c (as 0) w).1).run (World.serve sv) _ (World.serve sv c (as 0) w).2).world
    cases n with
    | zero =>
      obtain rfl : (⟨c, as 0, _⟩ : Made _ _) = m := Option.some.inj hm
      rw [serve_of_fault hn.here hc]
      exact hfail hc (as 0) _ (hgood 0) hn.first
    | succ n =>
      obtain ⟨h0, hn⟩ := hn.later
      have hm' : ((k (World.serve sv c (as 0) w).1).run (World.serve sv) (fun n => as (n + 1))
          (World.serve sv c (as 0) w).2).trace[n]? = some m := hm
      rw [World.serve_of_fault_none h0] at hm' ⊢
      exact (hok (as 0) (hgood 0) _ fun n => hgood (n + 1)).2 n hn ⟨m, hm', hc⟩

theorem leaves_ret {a : α} (h : Q none w) : Leaves sv good f (.ret a) w Q :=
  fun _ _ => ⟨fun _ => h, fun _ _ ⟨_, hm, _⟩ => nomatch hm⟩

/-- **An awaited call**: its failure is the program's. -/
theorem leaves_await {x : c.Result → Async β}
    (hfail : c.Transient → ∀ a, good a → Q (some 0) (f.leaves sv c a w))
    (hok : ∀ a res, good a → (World.perform sv c a w).1 = .ok res →
      Leaves sv good f (x res).run (World.perform sv c a w).2 (Later Q))
    (herr : ∀ a e, good a → (World.perform sv c a w).1 = .error e → Q none (World.perform sv c a w).2) :
    Leaves sv good f (await c >>= x).run w Q := by
  refine leaves_call (fun hc a _ ha _ => hfail hc a ha) fun a ha => ?_
  cases hres : (World.perform sv c a w).1 with
  | ok res => exact hok a res ha hres
  | error e => exact leaves_ret (herr a e ha hres)

theorem leaves_map {x : Async α} {h : α → β} (hx : Leaves sv good f x.run w Q) :
    Leaves sv good f (x >>= fun a => pure (h a)).run w Q := by
  intro as hgood
  rw [run_task_map]
  exact hx as hgood

/-! ## The row and the sessions of a swap -/

/-- The row of the swap and which of its sessions are live. -/
structure Stands (id : SwapId) (tx : Transaction) (live : Session → Bool) (w : World) : Prop where
  row : w.rows.lookup id = some tx
  live : ∀ s, (id, s) ∈ w.live ↔ live s = true

section

variable {x : Type} {tx : Transaction} {live : Session → Bool}

theorem leaves_now {x : Nat → Async β} (hok : ∀ t, Leaves sv good f (x t).run w (Later Q)) :
    Leaves sv good f (await .now >>= x).run w Q :=
  leaves_await (fun h => h.elim) (fun _ res _ _ => hok res) fun _ _ _ h => nomatch h

theorem leaves_get {i : SwapId} {x : Option Transaction → Async β} (hfail : Q (some 0) w)
    (hok : Leaves sv good f (x (w.rows.lookup i)).run w (Later Q)) :
    Leaves sv good f (await (.get i) >>= x).run w Q := by
  refine leaves_await (fun _ a _ => ?_) (fun a res _ h => ?_) fun _ _ _ h => nomatch h
  · cases f <;> exact hfail
  · cases h
    exact hok

theorem leaves_check {hash : WebcashPublicHash} {x : SpentStatus → Async β} (hfail : Q (some 0) w)
    (hok : ∀ a, good a → Leaves sv good f (x a.status).run w (Later Q)) :
    Leaves sv good f (await (.check hash) >>= x).run w Q := by
  refine leaves_await (fun _ a _ => ?_) (fun a res ha h => ?_) fun _ _ _ h => nomatch h
  · cases f <;> exact hfail
  · cases h
    exact hok a ha

theorem leaves_dispatch {req : PushRequest} {x : Unit → Async β} (hfail : Q (some 0) w)
    (hok : Leaves sv good f (x ()).run w (Later Q)) : Leaves sv good f (await (.dispatch req) >>= x).run w Q := by
  refine leaves_await (fun _ a _ => ?_) (fun a res _ h => ?_) fun _ _ _ h => nomatch h
  · cases f <;> exact hfail
  · exact hok

theorem leaves_append {e : AuditEntry} {x : String → Async β} (h : Stands id tx live w)
    (hfail : ∀ w', Stands id tx live w' → Q (some 0) w')
    (hok : ∀ w' tip, Stands id tx live w' → Leaves sv good f (x tip).run w' (Later Q)) :
    Leaves sv good f (await (.append e) >>= x).run w Q := by
  refine leaves_await (fun _ a _ => ?_) (fun a res _ _ => ?_) fun _ _ _ h => nomatch h
  · cases f with
    | lost => exact hfail w h
    | unconfirmed => exact hfail _ ⟨h.row, h.live⟩
  · exact hok _ _ ⟨h.row, h.live⟩

theorem leaves_upsert {tx' : Transaction} {x : Unit → Async β} (h : Stands id tx live w) (hid : tx'.swapId = id)
    (hlost : f.IsLost → Q (some 0) w) (hwritten : ¬ f.IsLost → ∀ w', Stands id tx' live w' → Q (some 0) w')
    (hok : ∀ w', Stands id tx' live w' → Leaves sv good f (x ()).run w' (Later Q)) :
    Leaves sv good f (await (.upsert tx') >>= x).run w Q := by
  have hw' : Stands id tx' live { w with rows := w.rows.insert tx'.swapId tx' } := by
    refine ⟨?_, h.live⟩
    rw [FMap.lookup_insert_ite, if_pos hid.symm]
  refine leaves_await (fun _ a _ => ?_) (fun a res _ _ => ?_) fun _ _ _ h => nomatch h
  · cases f with
    | lost => exact hlost trivial
    | unconfirmed => exact hwritten (fun h => h) _ hw'
  · exact hok _ hw'

theorem Stands.consume {session : Session} (h : Stands id tx live w) (rows : FMap SwapId Transaction)
    (log : List AuditEntry) (signed : List (SwapId × Session)) (hrows : rows = w.rows) :
    Stands id tx (Function.update live session false) ⟨rows, log, w.live.erase (id, session), signed⟩ := by
  refine ⟨hrows ▸ h.row, fun s => ?_⟩
  by_cases hs : s = session
  · simp [hs]
  · simp [hs, h.live s]

/-- A live session signs, and is gone. -/
theorem leaves_sign {session : Session} {t : List UInt8} {pk : Secp256k1Pubkey} {n : PubNonce}
    {x : PartialSig → Async β}
    (hsigner : sv.signer.Obliges) (h : Stands id tx live w) (hlive : live session = true)
    (hok : ∀ w' sig, Stands id tx (Function.update live session false) w' →
      Leaves sv good f (x sig).run w' (Later Q)) :
    Leaves sv good f (await (.partialSign id session t pk n) >>= x).run w Q := by
  obtain ⟨seed, hseed⟩ := Finmap.mem_iff.1 ((h.live session).2 hlive)
  obtain ⟨sig, hsig⟩ := hsigner id session seed t pk n
  have hperform : ∀ a, World.perform sv (.partialSign id session t pk n) a w =
      (.ok sig, { w with live := w.live.erase (id, session), signed := (id, session) :: w.signed }) := by
    intro a
    rw [World.perform, hseed]
    dsimp only
    rw [hsig]
  refine leaves_await (fun h => h.elim) (fun a res _ hres => ?_) fun a e _ he => ?_
  · rw [hperform] at hres ⊢
    exact hok _ _ (h.consume _ _ _ rfl)
  · rw [hperform] at he
    cases he

/-- A session that is gone does not sign. -/
theorem leaves_refused {session : Session} {t : List UInt8} {pk : Secp256k1Pubkey} {n : PubNonce}
    {x : PartialSig → Async β} (h : Stands id tx live w) (hlive : live session = false) (hnone : Q none w) :
    Leaves sv good f (await (.partialSign id session t pk n) >>= x).run w Q := by
  have hgone : (id, session) ∉ w.live := fun hs => by simp [(h.live session).1 hs] at hlive
  have hperform : ∀ a, World.perform sv (.partialSign id session t pk n) a w =
      (.error (.musig2 (sv.signer.noLiveSession id session)), w) := by
    intro a
    rw [World.perform, Finmap.lookup_eq_none.2 hgone]
  refine leaves_await (fun h => h.elim) (fun a res _ hres => ?_) fun a e _ he => ?_
  · rw [hperform] at hres
    cases hres
  · rw [hperform]
    exact hnone

theorem leaves_discard {session : Session} {x : Unit → Async β} (h : Stands id tx live w)
    (hok : ∀ w', Stands id tx (Function.update live session false) w' → Leaves sv good f (x ()).run w' (Later Q)) :
    Leaves sv good f (await (.discardSession id session) >>= x).run w Q :=
  leaves_await (fun h => h.elim) (fun _ _ _ _ => hok _ (h.consume _ _ _ rfl)) fun _ _ _ h => nomatch h

theorem leaves_getKnown {x : Transaction → Async β} (h : Stands id tx live w) (hfail : Q (some 0) w)
    (hok : Leaves sv good f (x tx).run w (Later Q)) : Leaves sv good f (getKnown id >>= x).run w Q := by
  rw [getKnown, bind_assoc]
  refine leaves_get hfail ?_
  rw [h.row]
  exact hok

theorem leaves_auditPhase {phase : Phase} {payload : Json} {prior : String} {x : String → Async β}
    (h : Stands id tx live w) (hfail : ∀ w', Stands id tx live w' → Q (some 1) w')
    (hok : ∀ w' tip, Stands id tx live w' → Leaves sv good f (x tip).run w' (Later (Later Q))) :
    Leaves sv good f (auditPhase id phase payload prior >>= x).run w Q := by
  rw [auditPhase, bind_assoc]
  exact leaves_now fun ts => leaves_append h hfail hok

/-- The row of a state. -/
def Written {p : Phase} (s : SwapState p) (phase : Phase) (tx : Transaction) : Prop :=
  tx.phase = phase ∧ tx.stateBlob.inner = s.toSwapFields

theorem leaves_persist {p phase : Phase} {s : SwapState p} {x : Unit → Async β} (h : Stands id tx live w)
    (hid : s.id = id) (hphase : phase ≠ .init) (hget : Q (some 1) w) (hlost : f.IsLost → Q (some 2) w)
    (hwritten : ¬ f.IsLost → ∀ w' tx', Stands id tx' live w' → Written s phase tx' → Q (some 2) w')
    (hok : ∀ w' tx', Stands id tx' live w' → Written s phase tx' →
      Leaves sv good f (x ()).run w' (Later (Later (Later Q)))) :
    Leaves sv good f (persist s phase >>= x).run w Q := by
  rw [persist, bind_assoc]
  refine leaves_now fun now => ?_
  rw [if_neg hphase, bind_assoc]
  refine leaves_get hget ?_
  rw [hid, h.row]
  have htx : Written s phase ((Transaction.deriveFrom s phase now none none none).keeping (some tx)) := ⟨rfl, rfl⟩
  exact leaves_upsert h hid hlost (fun hf w' h' => hwritten hf w' _ h' htx) fun w' h' => hok w' _ h' htx

/-- Closing the HTLC changes nothing here. -/
theorem close_world (as : Nat → Answer) (kind : HtlcCloseKind) :
    ((closeHtlcIfAny id kind).run.run (World.serve sv) as w).world = w := by
  have hget : ∀ a, (World.serve sv (.get id) a w).2 = w := fun a =>
    (World.serve_world _ _ _ _).elim (fun h => h) fun h => h
  have hclose : ∀ i cid a, (World.serve sv (.closeHtlcRefund i cid kind) a w).2 = w := fun _ _ a =>
    (World.serve_world _ _ _ _).elim (fun h => h) fun h => h
  show (Prog.run (World.serve sv) _ (fun n => as (n + 1)) (World.serve sv (.get id) (as 0) w).2).world = w
  rw [hget]
  dsimp only [ExceptT.bindCont, Prog.bind]
  split
  · exact hclose _ _ _
  · rfl

theorem leaves_close {kind : HtlcCloseKind} {v : β} (h : ∀ n, Q n w) :
    Leaves sv good f (closeHtlcIfAny id kind >>= fun _ => (pure v : Async β)).run w Q := by
  refine leaves_map fun as _ => ?_
  rw [close_world]
  exact ⟨fun _ => h none, fun n _ _ => h (some n)⟩

end

/-! ## The branches, failure by failure -/

/-- The terminal row is there, whatever else has happened. -/
def Finished (id : SwapId) (phase : Phase) (w : World) : Prop := ∃ tx live, Stands id tx live w ∧ tx.phase = phase

section

variable {tx : Transaction} {live : Session → Bool} {inner : SwapFields}

/-- Settling: entry, signature, release, row. -/
theorem leaves_settleBranch (hsigner : sv.signer.Obliges) (h : Stands id tx live w) (hinner : inner.id = id)
    (hlive : live .settle = true) (hunsigned : ∀ w', Stands id tx live w' → Q (some 1) w')
    (hsigned : ∀ n w', (3 < n ∧ n < 7) ∨ (n = 7 ∧ f.IsLost) →
      Stands id tx (Function.update live .settle false) w' → Q (some n) w')
    (hwritten : ∀ n w', 7 < n ∨ (n = 7 ∧ ¬ f.IsLost) → Finished id .settled w' → Q (some n) w')
    (hdone : ∀ w', Finished id .settled w' → Q none w') :
    Leaves sv good f (settleBranch o id ⟨inner⟩).run w Q := by
  refine leaves_auditPhase h hunsigned fun w' tip h => ?_
  refine leaves_now fun settledAt => ?_
  refine leaves_sign hsigner h hlive fun w' sig h => ?_
  refine leaves_dispatch (hsigned 4 _ (.inl (by omega)) h) ?_
  refine leaves_persist h hinner (by simp) (hsigned 6 _ (.inl (by omega)) h)
    (fun hf => hsigned 7 _ (.inr ⟨rfl, hf⟩) h)
    (fun hf w' tx' h htx => hwritten 7 w' (.inr ⟨rfl, hf⟩) ⟨tx', _, h, htx.1⟩) fun w' tx' h htx => ?_
  refine leaves_discard h fun w' h => leaves_close fun n => ?_
  cases n with
  | none => exact hdone w' ⟨tx', _, h, htx.1⟩
  | some n => exact hwritten (n + 9) w' (.inl (by omega)) ⟨tx', _, h, htx.1⟩

/-- Refunding: signature, release, entry, row. -/
theorem leaves_advanceFromInvalidated (hsigner : sv.signer.Obliges) (h : Stands id tx live w) (hinner : inner.id = id)
    (hlive : live .refund = true)
    (hsigned : ∀ n w', (0 < n ∧ n < 7) ∨ (n = 7 ∧ f.IsLost) →
      Stands id tx (Function.update live .refund false) w' → Q (some n) w')
    (hwritten : ∀ n w', 7 < n ∨ (n = 7 ∧ ¬ f.IsLost) → Finished id .refunded w' → Q (some n) w')
    (hdone : ∀ w', Finished id .refunded w' → Q none w') :
    Leaves sv good f (advanceFromInvalidated o id inner).run w Q := by
  refine leaves_sign hsigner h hlive fun w' sig h => ?_
  refine leaves_dispatch (hsigned 1 _ (.inl (by omega)) h) ?_
  refine leaves_auditPhase h (fun w' h => hsigned 3 w' (.inl (by omega)) h) fun w' tip h => ?_
  refine leaves_now fun refundedAt => ?_
  refine leaves_persist h hinner (by simp) (hsigned 6 _ (.inl (by omega)) h)
    (fun hf => hsigned 7 _ (.inr ⟨rfl, hf⟩) h)
    (fun hf w' tx' h htx => hwritten 7 w' (.inr ⟨rfl, hf⟩) ⟨tx', _, h, htx.1⟩) fun w' tx' h htx => ?_
  refine leaves_discard h fun w' h => leaves_close fun n => ?_
  cases n with
  | none => exact hdone w' ⟨tx', _, h, htx.1⟩
  | some n => exact hwritten (n + 9) w' (.inl (by omega)) ⟨tx', _, h, htx.1⟩

/-- The branches that sign nothing leave the old row or the new one, with the sessions as they were. -/
theorem leaves_retryBranch (h : Stands id tx live w) (hinner : inner.id = id)
    (hleft : inner.insertPushAttempts < o.insertPushRetry) (hold : ∀ n w', Stands id tx live w' → Q (some n) w')
    (hnew : ∀ n w' tx', Stands id tx' live w' → tx'.phase = .insertPushed →
      tx'.stateBlob.inner.insertPushAttempts = inner.insertPushAttempts + 1 → Q n w') :
    Leaves sv good f (retryBranch o id ⟨inner⟩).run w Q := by
  refine leaves_dispatch (hold 0 _ h) ?_
  refine leaves_auditPhase h (fun w' h => hold 2 w' h) fun w' tip h => ?_
  refine leaves_now fun retriedAt => ?_
  rw [insertPushedRetry_ok (s := ⟨inner⟩) hleft]
  refine leaves_persist h hinner (by simp) (hold 5 _ h) (fun _ => hold 6 _ h) (fun _ w' tx' h htx => ?_)
    fun w' tx' h htx => ?_
  · exact hnew (some 6) w' tx' h htx.1 (by rw [htx.2])
  · exact leaves_ret (hnew none w' tx' h htx.1 (by rw [htx.2]))

theorem leaves_abortBranch (h : Stands id tx live w) (hinner : inner.id = id)
    (hold : ∀ n w', Stands id tx live w' → Q (some n) w')
    (hnew : ∀ n w' tx', Stands id tx' live w' → tx'.phase = .aborted → Q n w') :
    Leaves sv good f (abortBranch o id ⟨inner⟩).run w Q := by
  refine leaves_auditPhase h (fun w' h => hold 1 w' h) fun w' tip h => ?_
  refine leaves_now fun abortedAt => ?_
  refine leaves_persist h hinner (by simp) (hold 4 _ h) (fun _ => hold 5 _ h) (fun _ w' tx' h htx => ?_)
    fun w' tx' h htx => ?_
  · exact hnew (some 5) w' tx' h htx.1
  · exact leaves_dispatch (hnew (some 6) w' tx' h htx.1) (leaves_ret (hnew none w' tx' h htx.1))

theorem leaves_advanceFromAborted (h : Stands id tx live w) (hinner : inner.id = id)
    (hold : ∀ n w', Stands id tx live w' → Q (some n) w')
    (hnew : ∀ n w' tx', Stands id tx' live w' → tx'.phase = .invalidated → Q n w') :
    Leaves sv good f (advanceFromAborted id inner).run w Q := by
  refine leaves_auditPhase h (fun w' h => hold 1 w' h) fun w' tip h => ?_
  refine leaves_now fun invalidatedAt => ?_
  refine leaves_persist h hinner (by simp) (hold 4 _ h) (fun _ => hold 5 _ h) (fun _ w' tx' h htx => ?_)
    fun w' tx' h htx => ?_
  · exact hnew (some 5) w' tx' h htx.1
  · exact leaves_ret (hnew none w' tx' h htx.1)

/-- A signature that was made cannot be made again: nothing comes of it. -/
theorem leaves_settleBranch_refused (h : Stands id tx live w) (hgone : live .settle = false)
    (hdone : ∀ n w', Stands id tx live w' → Q n w') : Leaves sv good f (settleBranch o id ⟨inner⟩).run w Q := by
  refine leaves_auditPhase h (fun w' h => hdone (some 1) w' h) fun w' tip h => ?_
  refine leaves_now fun settledAt => ?_
  exact leaves_refused h hgone (hdone none w' h)

theorem leaves_advanceFromInvalidated_refused (h : Stands id tx live w) (hgone : live .refund = false)
    (hdone : ∀ n w', Stands id tx live w' → Q n w') :
    Leaves sv good f (advanceFromInvalidated o id inner).run w Q :=
  leaves_refused h hgone (hdone none w h)

/-- `advance_swap` does what the row's phase asks for. -/
theorem leaves_advance (h : Stands id tx live w) (hfail : Q (some 0) w)
    (hok : Leaves sv good f (match tx.phase with
      | .settled => return some (.settled id)
      | .refunded => return some (.refunded id)
      | .canceled => return some (.canceled id)
      | .insertPushed => advanceFromInsertPushed o id tx.stateBlob.inner
      | .aborted => advanceFromAborted id tx.stateBlob.inner
      | .invalidated => advanceFromInvalidated o id tx.stateBlob.inner
      | .init | .zkpsVerified | .preChecked => return none : Async (Option SwapOutcome)).run w (Later Q)) :
    Leaves sv good f (program o (.advance id)) w Q :=
  leaves_map (leaves_getKnown h hfail hok)

end

/-! ## Ready and stuck -/

/-- The sessions a row of the phase still needs. -/
def Phase.Ready (live : Session → Bool) : Phase → Prop
  | .insertPushed => live .settle = true ∧ live .refund = true
  | .aborted | .invalidated => live .refund = true
  | .settled | .refunded => True
  | .init | .zkpsVerified | .preChecked | .canceled => False

def World.Ready (w : World) (id : SwapId) : Prop := ∃ tx live, Stands id tx live w ∧ tx.phase.Ready live

/-- The row asks for a signature out of a session that is gone. -/
def StuckRow (tx : Transaction) (live : Session → Bool) : Prop :=
  (tx.phase = .insertPushed ∧ live .settle = false) ∨ (tx.phase = .invalidated ∧ live .refund = false)

def World.Stuck (w : World) (id : SwapId) : Prop := ∃ tx live, Stands id tx live w ∧ StuckRow tx live

/-- How many failure-free calls are left, at most. -/
def left (retry : UInt8) (tx : Transaction) : Nat :=
  match tx.phase with
  | .insertPushed => retry.toNat - tx.stateBlob.inner.insertPushAttempts.toNat + 3
  | .aborted => 2
  | .invalidated => 1
  | _ => 0

/-- A call without a failure brings the swap closer to the end it is to have. -/
def Progress (o : Orchestrator) (id : SwapId) (tx : Transaction) (status : SpentStatus) (w : World) : Prop :=
  ∃ tx' live', Stands id tx' live' w ∧ tx'.phase.Ready live' ∧
    (tx.phase.isTerminal = false → left o.insertPushRetry tx' < left o.insertPushRetry tx) ∧
    outcome (some tx'.phase) status = outcome (some tx.phase) status

def Verdict (o : Orchestrator) (id : SwapId) (tx : Transaction) (f : Fault) (status : SpentStatus) :
    Option Nat → World → Prop
  | none, w => Progress o id tx status w
  | some n, w => (¬ Exposed tx.phase status n f → w.Ready id) ∧
      (Exposed tx.phase status n f → w.phaseOf id = some tx.phase ∧ w.Stuck id)

section

variable {tx : Transaction} {live : Session → Bool} {status : SpentStatus} {n : Nat}

theorem Stands.ready_iff (h : Stands id tx live w) : w.Ready id ↔ tx.phase.Ready live := by
  refine ⟨?_, fun hready => ⟨tx, live, h, hready⟩⟩
  rintro ⟨tx', live', h', hready⟩
  obtain rfl : tx' = tx := Option.some.inj (h'.row.symm.trans h.row)
  obtain rfl : live' = live := funext fun s => by
    have := (h'.live s).symm.trans (h.live s)
    cases hs : live s <;> cases hs' : live' s <;> simp_all
  exact hready

theorem exposed_settling : Exposed .insertPushed .spent n f ↔ 5 < n ∧ (n < 9 ∨ (n = 9 ∧ f.IsLost)) := by
  simp [Exposed, signsAndWrites]

theorem exposed_refunding : Exposed .invalidated status n f ↔ 1 < n ∧ (n < 8 ∨ (n = 8 ∧ f.IsLost)) := by
  simp [Exposed, signsAndWrites]

theorem not_exposed {phase : Phase} (h : signsAndWrites phase status = none) : ¬ Exposed phase status n f := by
  rintro ⟨_, _, h', -⟩
  rw [h] at h'
  cases h'

theorem Finished.ready {phase : Phase} (h : Finished id phase w) (hphase : phase = .settled ∨ phase = .refunded) :
    w.Ready id := by
  obtain ⟨tx, live, h, rfl⟩ := h
  refine h.ready_iff.2 ?_
  rcases hphase with hp | hp <;> rw [hp] <;> trivial

/-- A failure the call survives: the swap is ready, and the failure was not one that exposes it. -/
theorem verdict_ready (h : w.Ready id) (hn : ¬ Exposed tx.phase status n f) : Verdict o id tx f status (some n) w :=
  ⟨fun _ => h, fun hx => absurd hx hn⟩

theorem verdict_stuck (h : Stands id tx live w) (hstuck : StuckRow tx live) (hn : Exposed tx.phase status n f) :
    Verdict o id tx f status (some n) w :=
  ⟨fun hno => absurd hn hno, fun _ => ⟨congrArg (Option.map Transaction.phase) h.row, tx, live, h, hstuck⟩⟩

/-- The swap is further on its way, and no failure exposes it here. -/
theorem verdict_moved {tx' : Transaction} (h : Stands id tx' live w) (hready : tx'.phase.Ready live)
    (hleft : tx.phase.isTerminal = false → left o.insertPushRetry tx' < left o.insertPushRetry tx)
    (hout : outcome (some tx'.phase) status = outcome (some tx.phase) status)
    (hno : ∀ n, ¬ Exposed tx.phase status n f) :
    ∀ n, Verdict o id tx f status n w
  | none => ⟨tx', live, h, hready, hleft, hout⟩
  | some n => verdict_ready (h.ready_iff.2 hready) (hno n)

theorem later_of_all (h : ∀ n, Q n w) : ∀ n, Later Q n w
  | none => h none
  | some n => h (some (n + 1))

theorem Finished.progress {phase : Phase} (h : Finished id phase w) (hphase : phase = .settled ∨ phase = .refunded)
    (hleft : 0 < left o.insertPushRetry tx) (hout : phase = outcome (some tx.phase) status) :
    Progress o id tx status w := by
  obtain ⟨tx', live', h, rfl⟩ := h
  refine ⟨tx', live', h, ?_, fun _ => ?_, ?_⟩
  · rcases hphase with hp | hp <;> rw [hp] <;> trivial
  · rcases hphase with hp | hp <;> simpa [left, hp] using hleft
  · rw [← hout]
    rcases hphase with hp | hp <;> rw [hp] <;> rfl

/-- **One `advance_swap` from a state that is ready.** -/
theorem leaves_advance_ready (o : Orchestrator) (f : Fault) (good : Answer → Prop) (hsigner : sv.signer.Obliges)
    (hwf : tx.WellFormed id) (h : Stands id tx live w) (hready : tx.phase.Ready live) (hgood : ∃ a, good a) :
    Leaves sv good f (program o (.advance id)) w fun n w' => ∃ a, good a ∧ Verdict o id tx f a.status n w' := by
  obtain ⟨a₀, ha₀⟩ := hgood
  have hold : w.Ready id := ⟨tx, live, h, hready⟩
  cases hphase : tx.phase with
  | init | zkpsVerified | preChecked | canceled =>
    rw [hphase] at hready
    exact hready.elim
  | settled | refunded =>
    have hno : ∀ n, ¬ Exposed tx.phase a₀.status n f := fun n => not_exposed (by rw [hphase]; rfl)
    refine leaves_advance h ⟨a₀, ha₀, verdict_ready hold (hno 0)⟩ ?_
    rw [hphase]
    refine leaves_ret ⟨a₀, ha₀, tx, live, h, hready, fun hterm => ?_, rfl⟩
    rw [hphase] at hterm
    cases hterm
  | aborted =>
    have hno : ∀ n, ¬ Exposed tx.phase a₀.status n f := fun n => not_exposed (by rw [hphase]; rfl)
    refine leaves_advance h ⟨a₀, ha₀, verdict_ready hold (hno 0)⟩ ?_
    rw [hphase] at hready ⊢
    refine leaves_advanceFromAborted h hwf.innerId (fun n w' h' => ⟨a₀, ha₀, ?_⟩) fun n w' tx' h' hphase' => ?_
    · exact verdict_ready (h'.ready_iff.2 (hphase ▸ hready)) (hno _)
    · refine later_of_all (fun n => ⟨a₀, ha₀, verdict_moved h' (hphase' ▸ hready) (fun _ => ?_) ?_ hno n⟩) n
      · simp [left, hphase, hphase']
      · rw [hphase, hphase']
        rfl
  | invalidated =>
    refine leaves_advance h ⟨a₀, ha₀, verdict_ready hold fun hn => ?_⟩ ?_
    · rw [hphase, exposed_refunding] at hn
      omega
    rw [hphase] at hready ⊢
    refine leaves_advanceFromInvalidated hsigner h hwf.innerId hready (fun n w' hn h' => ⟨a₀, ha₀, ?_⟩)
      (fun n w' hn h' => ⟨a₀, ha₀, ?_⟩) fun w' h' => ⟨a₀, ha₀, ?_⟩
    · refine verdict_stuck h' (.inr ⟨hphase, by simp⟩) ?_
      rw [hphase, exposed_refunding]
      grind
    · refine verdict_ready (h'.ready (.inr rfl)) fun hx => ?_
      rw [hphase, exposed_refunding] at hx
      grind
    · exact h'.progress (.inr rfl) (by simp [left, hphase]) (by rw [hphase]; rfl)
  | insertPushed =>
    have hfirst : ∀ status n, n < 6 → ¬ Exposed tx.phase status n f := by
      rintro status n hn ⟨signs, writes, hpos, hlt, -⟩
      rw [hphase] at hpos
      cases status <;> cases hpos
      omega
    refine leaves_advance h ⟨a₀, ha₀, verdict_ready hold (hfirst _ 0 (by omega))⟩ ?_
    rw [hphase] at hready ⊢
    refine leaves_check ⟨a₀, ha₀, verdict_ready hold (hfirst _ 1 (by omega))⟩ fun a ha => ?_
    have hold' : ∀ w', Stands id tx live w' → w'.Ready id := fun w' h' => h'.ready_iff.2 (hphase ▸ hready)
    by_cases hspent : a.status = .spent
    · rw [if_pos hspent]
      refine leaves_settleBranch hsigner h hwf.innerId hready.1 (fun w' h' => ⟨a, ha, ?_⟩)
        (fun n w' hn h' => ⟨a, ha, ?_⟩) (fun n w' hn h' => ⟨a, ha, ?_⟩) fun w' h' => ⟨a, ha, ?_⟩
      · exact verdict_ready (hold' w' h') (hfirst _ _ (by omega))
      · refine verdict_stuck h' (.inl ⟨hphase, by simp⟩) ?_
        rw [hphase, hspent, exposed_settling]
        grind
      · refine verdict_ready (h'.ready (.inl rfl)) fun hx => ?_
        rw [hphase, hspent, exposed_settling] at hx
        grind
      · exact h'.progress (.inl rfl) (by simp [left, hphase]) (by rw [hphase, hspent]; rfl)
    · rw [if_neg hspent]
      have hno : ∀ n, ¬ Exposed tx.phase a.status n f := fun n => not_exposed (by
        rw [hphase]
        cases hs : a.status <;> first | rfl | exact absurd hs hspent)
      have hout : outcome (some .insertPushed) a.status = .refunded := by
        cases hs : a.status <;> first | rfl | exact absurd hs hspent
      by_cases hleft : tx.stateBlob.inner.insertPushAttempts < o.insertPushRetry
      · rw [if_pos hleft]
        refine leaves_retryBranch h hwf.innerId hleft (fun n w' h' => ⟨a, ha, verdict_ready (hold' w' h') (hno _)⟩)
          fun n w' tx' h' hphase' hattempts => ?_
        refine later_of_all (later_of_all fun n =>
          ⟨a, ha, verdict_moved h' (hphase' ▸ hready) (fun _ => ?_) ?_ hno n⟩) n
        · have hlt := UInt8.lt_iff_toNat_lt.1 hleft
          have hbound := o.insertPushRetry.toNat_lt
          simp only [left, hphase, hphase', hattempts, UInt8.toNat_add, UInt8.toNat_one]
          omega
        · rw [hphase, hphase']
      · rw [if_neg hleft]
        refine leaves_abortBranch h hwf.innerId (fun n w' h' => ⟨a, ha, verdict_ready (hold' w' h') (hno _)⟩)
          fun n w' tx' h' hphase' => ?_
        refine later_of_all (later_of_all fun n =>
          ⟨a, ha, verdict_moved h' (hphase' ▸ hready.2) (fun _ => ?_) ?_ hno n⟩) n
        · simp [left, hphase, hphase']
        · rw [hphase, hphase', hout]
          rfl

/-- A stuck row stays: the settlement while `H_B` is spent, the refund whatever its status. -/
theorem leaves_advance_stuck (f : Fault) (good : Answer → Prop) (h : Stands id tx live w) (hstuck : StuckRow tx live)
    (hspent : tx.phase = .insertPushed → ∀ a, good a → a.status = .spent) :
    Leaves sv good f (program o (.advance id)) w fun _ w' => Stands id tx live w' := by
  refine leaves_advance h h ?_
  rcases hstuck with ⟨hphase, hgone⟩ | ⟨hphase, hgone⟩
  · rw [hphase]
    refine leaves_check h fun a ha => ?_
    rw [if_pos (hspent hphase a ha)]
    exact leaves_settleBranch_refused h hgone fun n w' h' => by cases n <;> exact h'
  · rw [hphase]
    exact leaves_advanceFromInvalidated_refused h hgone fun n w' h' => by cases n <;> exact h'

end

/-! ## Runs -/

section

variable {req : InitiateRequest} {as : Nat → Answer} {status : SpentStatus} {n : Nat}

theorem advanced_wellFormed (hw : w.WellFormed) : (advanced sv o id as w).WellFormed := by
  obtain ⟨-, -, -, h⟩ := call_run sv o (.advance id) hw as
  exact h

/-- A start that succeeds leaves the swap ready. -/
theorem start_ready (hw : w.WellFormed) (h : ((program o (.start id req)).run (World.serve sv) as w).value =
    .ok (.started id)) :
    ((program o (.start id req)).run (World.serve sv) as w).world.Ready id := by
  obtain ⟨g, hends, hsynced, hbegun⟩ := call_invariant sv o (.start id req)
    (I := fun g w => g.Synced w id ∧ g.Begun w id) hw as ⟨trivial, nofun⟩
    fun g c a w hc hI => ⟨synced_next hc hI.1, begun_next ⟨id, req, rfl⟩ hc hI.2⟩
  have hholding := hends.started id h
  cases g with
  | holding v seen =>
    obtain ⟨⟨tx, hrow, hphase, -⟩, -⟩ := hsynced
    refine ⟨tx, fun _ => true, ⟨hrow, fun s => iff_of_true (hbegun s) rfl⟩, ?_⟩
    rw [hphase, show v.phase = .insertPushed from hholding]
    exact ⟨rfl, rfl⟩
  | fresh | unread | decided | aborting | closed => exact hholding.elim

/-- A failure-free call on a swap that is ready. -/
theorem progress_of_ready (o : Orchestrator) (hsigner : sv.signer.Obliges) (hw : w.WellFormed) {tx : Transaction}
    {live : Session → Bool} (h : Stands id tx live w) (hready : tx.phase.Ready live) (has : FaultFree as) :
    ∃ status, (∃ n, (as n).status = status) ∧ Progress o id tx status (advanced sv o id as w) := by
  obtain ⟨a, ⟨n, hn⟩, hprogress⟩ := (leaves_advance_ready o (.lost (.store "")) (fun a => ∃ n, as n = a)
    hsigner (hw id tx h.row) h hready ⟨as 0, 0, rfl⟩ as fun n => ⟨n, rfl⟩).1 has
  exact ⟨a.status, ⟨n, congrArg Answer.status hn⟩, hprogress⟩

/-- Failure-free calls keep a swap ready. -/
theorem ready_of_faultFree (hsigner : sv.signer.Obliges) {calls : List (Nat → Answer)}
    (hcalls : ∀ as ∈ calls, FaultFree as) (hw : w.WellFormed) (h : w.Ready id) :
    (advancedAll sv o id calls w).WellFormed ∧ (advancedAll sv o id calls w).Ready id := by
  induction calls generalizing w with
  | nil => exact ⟨hw, h⟩
  | cons as calls ih =>
    obtain ⟨tx, live, h, hready⟩ := h
    obtain ⟨-, -, tx', live', h', hready', -⟩ :=
      progress_of_ready o hsigner hw h hready (hcalls as List.mem_cons_self)
    exact ih (fun as has => hcalls as (List.mem_cons_of_mem _ has)) (advanced_wellFormed hw)
      ⟨tx', live', h', hready'⟩

/-- Answers without a failure, with this status of `H_B`. -/
def plain (status : SpentStatus) : Nat → Answer := fun _ => ⟨none, 0, status, 0, "", none⟩

theorem plain_faultFree (status : SpentStatus) : FaultFree (plain status) := fun _ => rfl

/-- A swap that is ready comes to its end. By induction on how far it is from there. -/
theorem recovers_of_ready (hsigner : sv.signer.Obliges) (hw : w.WellFormed) (h : w.Ready id) : Recovers sv o id w := by
  intro status
  obtain ⟨tx, live, h, hready⟩ := h
  have hphaseOf : ∀ {w : World} {tx : Transaction}, w.rows.lookup id = some tx → w.phaseOf id = some tx.phase :=
    fun h => congrArg (Option.map Transaction.phase) h
  rw [hphaseOf h.row]
  induction hk : left o.insertPushRetry tx using Nat.strong_induction_on generalizing w tx live with
  | _ k ih =>
    by_cases hterm : tx.phase.isTerminal
    · refine ⟨[], nofun, (hphaseOf h.row).trans ?_⟩
      cases hphase : tx.phase <;> rw [hphase] at hready hterm <;> first | rfl | exact hready.elim | cases hterm
    · obtain ⟨_, ⟨_, rfl⟩, tx', live', h', hready', hleft, hout⟩ := progress_of_ready o hsigner hw h hready
        (plain_faultFree status)
      obtain ⟨calls, hcalls, hend⟩ :=
        ih _ (hk ▸ hleft (Bool.eq_false_iff.2 hterm)) (advanced_wellFormed hw) tx' live' h' hready' rfl
      refine ⟨plain status :: calls, fun as has => ?_, hend.trans (congrArg some hout)⟩
      rcases List.mem_cons.1 has with rfl | has
      · exact ⟨fun _ => rfl, fun _ => rfl⟩
      · exact hcalls as has

/-- A swap that is stuck does not. -/
theorem not_recovers_of_stuck (h : w.Stuck id) : ¬ Recovers sv o id w := by
  obtain ⟨tx, live, h, hstuck⟩ := h
  intro hrec
  obtain ⟨calls, hcalls, hend⟩ := hrec .spent
  have hphaseOf : ∀ {w : World}, Stands id tx live w → w.phaseOf id = some tx.phase :=
    fun h => congrArg (Option.map Transaction.phase) h.row
  have hstands : Stands id tx live (advancedAll sv o id calls w) := by
    clear hend hrec
    induction calls generalizing w with
    | nil => exact h
    | cons as calls ih =>
      obtain ⟨hfree, hspent⟩ := hcalls as List.mem_cons_self
      refine ih ?_ fun as has => hcalls as (List.mem_cons_of_mem _ has)
      exact (leaves_advance_stuck (.lost (.store "")) (fun a => a.status = .spent) h hstuck (fun _ _ ha => ha) as
        hspent).1 hfree
  rw [hphaseOf hstands, hphaseOf h] at hend
  rcases hstuck with ⟨hphase, -⟩ | ⟨hphase, -⟩ <;> rw [hphase] at hend <;> cases hend

end

/-- **When `advance_swap` can be repeated.** Take a swap that a successful start has persisted, after
any history, and any number of failure-free calls on it. Let one call of the next `advance_swap` to
the store, the audit log, the push service or the webcash client fail, carried out or not. Further
failure-free calls bring the swap to its end if and only if the failure does not come between the
signature and the write of the terminal row. -/
theorem retry_safe_iff (sv : Services) (o : Orchestrator) (hsigner : sv.signer.Obliges)
    (history : List (Request × (Nat → Answer))) (s : Past) (hs : Run (Past.Step sv o) Past.none history s)
    (id : SwapId) (req : InitiateRequest) (start : Nat → Answer)
    (hstart : ((program o (.start id req)).run (World.serve sv) start s.world).value = .ok (.started id))
    (before : List (Nat → Answer)) (hbefore : ∀ as ∈ before, FaultFree as) (w : World)
    (hw : w = advancedAll sv o id before ((program o (.start id req)).run (World.serve sv) start s.world).world)
    (phase : Phase) (hphase : w.phaseOf id = some phase)
    (as : Nat → Answer) (status : SpentStatus) (hstatus : ∀ k, (as k).status = status) (n : Nat) (f : Fault)
    (hfails : FailsAt as n f)
    (hcall : ∃ m, ((program o (.advance id)).run (World.serve sv) as w).trace[n]? = some m ∧ m.call.Transient) :
    Recovers sv o id (advanced sv o id as w) ↔ ¬ Exposed phase status n f := by
  have hwf₀ : s.world.WellFormed :=
    Run.invariant (I := fun s : Past => s.world.WellFormed)
      (fun _ _ _ h hw => h.wellFormed hw) hs World.wellFormed_empty
  have hwf₁ : ((program o (.start id req)).run (World.serve sv) start s.world).world.WellFormed := by
    obtain ⟨-, -, -, h⟩ := call_run sv o (.start id req) hwf₀ start
    exact h
  obtain ⟨hwf, tx, live, h, hready⟩ :=
    ready_of_faultFree (o := o) hsigner hbefore hwf₁ (start_ready hwf₀ hstart)
  rw [← hw] at hwf h
  obtain rfl : tx.phase = phase := Option.some.inj ((congrArg (Option.map Transaction.phase) h.row).symm.trans hphase)
  obtain ⟨a, rfl, hready', hstuck⟩ := (leaves_advance_ready o f (fun a => a.status = status) hsigner
    (hwf id tx h.row) h hready ⟨as 0, hstatus 0⟩ as hstatus).2 n hfails hcall
  refine ⟨fun hrec hx => not_recovers_of_stuck (hstuck hx).2 hrec, fun hx => ?_⟩
  exact recovers_of_ready hsigner (advanced_wellFormed hwf) (hready' hx)

/-! ## A settlement that cannot be repeated -/

theorem stuck_of_spent_session (hrow : w.phaseOf id = some .insertPushed)
    (hgone : (id, Session.settle) ∉ w.live) : w.Stuck id := by
  obtain ⟨tx, htx, hphase⟩ := Option.map_eq_some_iff.1 hrow
  exact ⟨tx, fun s => decide ((id, s) ∈ w.live), ⟨htx, fun s => decide_eq_true_iff.symm⟩,
    .inl ⟨hphase, decide_eq_false hgone⟩⟩

namespace Sample

/-- The swap has been started. -/
def started : Outcome (fun c => Except RefereeError (Call.Result c)) (Except RefereeError Reply) Answer World :=
  (program orchestrator (.start swapId initiateRequest)).run (World.serve services)
    (fun _ => healthy .unspent) World.empty

/-- The `n`-th call fails and is not carried out. -/
def failing (n : Nat) : Nat → Answer := fun k =>
  if k = n then { healthy .spent with fault := some (.lost (.external "connection reset")) } else healthy .spent

theorem failing_failsAt (n : Nat) : FailsAt (failing n) n (.lost (.external "connection reset")) := by
  constructor
  · simp [failing]
  · intro k hk
    simp [failing, hk, healthy]

theorem failing_status (n k : Nat) : (failing n k).status = .spent := by
  unfold failing
  split <;> rfl

end Sample

open Webycash.Referee.Sample

/-- **A swap that is never settled**: the push service does not take the settlement, after the referee
has signed it, and no further calls settle the swap although `H_B` is spent. -/
theorem stranded_after_push : started.value = .ok (.started swapId) ∧
    FailsAt (failing 6) 6 (.lost (.external "connection reset")) ∧
    (∃ m req, ((program orchestrator (.advance swapId)).run (World.serve services)
      (failing 6) started.world).trace[6]? = some m ∧
      m.call = .dispatch req) ∧
    ¬ Recovers services orchestrator swapId (advanced services orchestrator swapId (failing 6) started.world) := by
  have hpush : ((((program orchestrator (.advance swapId)).run (World.serve services)
    (failing 6) started.world).trace[6]?).bind
      fun m => m.call.push?).isSome = true := by decide +kernel
  obtain ⟨req, hreq⟩ := Option.isSome_iff_exists.1 hpush
  obtain ⟨m, hm, hcall⟩ := Option.bind_eq_some_iff.1 hreq
  refine ⟨by decide +kernel, failing_failsAt 6, ⟨m, req, hm, ?_⟩,
    not_recovers_of_stuck (stuck_of_spent_session ?_ ?_)⟩
  · cases hc : m.call with
    | dispatch req' =>
      rw [hc] at hcall
      exact congrArg _ (Option.some.inj hcall)
    | _ =>
      rw [hc] at hcall
      cases hcall
  · decide +kernel
  · decide +kernel

/-- After a failure of the audit log the swap is settled. -/
theorem retry_safe_append : Recovers services orchestrator swapId
    (advanced services orchestrator swapId (failing 3) started.world) := by
  have hcall : ((((program orchestrator (.advance swapId)).run (World.serve services)
    (failing 3) started.world).trace[3]?).map
      fun m => m.call.entry?.isSome) = some true := by decide +kernel
  obtain ⟨m, hm, hentry⟩ := Option.map_eq_some_iff.1 hcall
  have hm' : m.call.Transient := by
    cases hc : m.call with
    | append e => trivial
    | _ =>
      rw [hc] at hentry
      cases hentry
  refine (retry_safe_iff services orchestrator mockSigner_obliges [] Past.none (.nil _) swapId initiateRequest
    (fun _ => healthy .unspent) (by decide +kernel) [] nofun _ rfl .insertPushed (by decide +kernel) (failing 3) .spent
    (failing_status 3) 3 _ (failing_failsAt 3) ⟨m, hm, hm'⟩).2 fun hx => ?_
  rw [exposed_settling] at hx
  omega

end Webycash.Referee
