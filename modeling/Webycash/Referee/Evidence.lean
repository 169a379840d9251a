import Webycash.Lib.Evidence
import Webycash.Referee.Conduct
import Webycash.Referee.Refund
import Webycash.Referee.Exclusion
/-!
# Nothing is released without evidence

Calls on a swap may overlap and fail anywhere, rows are overwritten from stale copies, and one swap may even be
signed for twice. What no interleaving can bring about is a step without its reason. Whatever order the calls take
their turns in: Bob's secret goes out, to Alice, only once both proofs of the request were accepted and its `H_B`
was found unspent; a settlement is signed and released, to Bob, only by a call that was itself told that `H_B` is
spent; a refund is signed and released, to Alice, only when a call was told that it is not spent, and after every
insert push of the budget was taken (`releases_backed`). The secret is called back from Bob on the same evidence, and
from Alice only by a cancellation that Bob has signed. The rows say no more than that (`rows_backed`).
-/

namespace Webycash.Referee

open Prog

/-! ## What is on record -/

/-- The call was answered by a health check of the hash. -/
def WasTold (t : CallThread) (hash : WebcashPublicHash) (s : SpentStatus) : Prop :=
  ∃ a, (⟨.check hash, a, .ok s⟩ : MadeCall) ∈ t.made

def Calls.ToldTo (p : Calls) (r : Request) (hash : WebcashPublicHash) (s : SpentStatus) : Prop :=
  ∃ a, p.Recorded r (⟨.check hash, a, .ok s⟩ : MadeCall)

/-- An insert push of the swap that was taken. -/
def insertOf (id : SwapId) (m : MadeCall) : Bool :=
  m.call.push?.any (fun push => push.swapId = id) && Made.delivered? m = some .insert

/-- How many insert pushes of the swap have been taken. -/
def Calls.inserts (p : Calls) (id : SwapId) : Nat := p.count (insertOf id)

/-- The swap was started with these terms, both their proofs are accepted, and the start found `H_B` unspent. -/
structure Calls.Cleared (sv : Services) (p : Calls) (id : SwapId) (terms : InitiateRequest) : Prop where
  verified : ∀ circuit, sv.verify circuit (terms.proof circuit) = true
  unspent : p.ToldTo (.start id terms) terms.bob.hB .unspent

/-- An `advance_swap` was told that `H_B` is not spent, and the budget of insert pushes is used up. -/
structure Calls.GivenUp (o : Orchestrator) (p : Calls) (id : SwapId) (hash : WebcashPublicHash) : Prop where
  pushes : max 1 o.insertPushRetry.toNat ≤ p.inserts id
  unspent : ∃ s, s ≠ .spent ∧ p.ToldTo (.advance id) hash s

/-! ## Rows -/

/-- What has happened before a row of the phase is written. -/
def Calls.Earned (sv : Services) (o : Orchestrator) (p : Calls) (id : SwapId) (s : SwapFields) : Phase → Prop
  | .init | .canceled => True
  | .zkpsVerified => ∀ circuit, sv.verify circuit (s.terms.proof circuit) = true
  | .preChecked => p.Cleared sv id s.terms
  | .insertPushed => p.Cleared sv id s.terms ∧ 0 < s.insertPushAttempts.toNat
  | .settled => p.Cleared sv id s.terms ∧ p.ToldTo (.advance id) s.bob.hB .spent
  | .aborted | .invalidated | .refunded => p.Cleared sv id s.terms ∧ p.GivenUp o id s.bob.hB

/-- A row of the phase says nothing that is not on record. -/
structure Backed (sv : Services) (o : Orchestrator) (p : Calls) (id : SwapId) (phase : Phase)
    (s : SwapFields) : Prop where
  started : ∃ t ∈ p.threads, t.tag = .start id s.terms
  pushes : s.insertPushAttempts.toNat ≤ p.inserts id
  earned : p.Earned sv o id s phase

section

variable {sv : Services} {o : Orchestrator} {p p' : Calls} {id : SwapId} {phase : Phase} {s s' : SwapFields}
  {terms : InitiateRequest} {r : Request} {hash : WebcashPublicHash} {status : SpentStatus}

theorem Calls.ToldTo.mono (hp : p.Record p') (h : p.ToldTo r hash status) : p'.ToldTo r hash status := by
  obtain ⟨a, h⟩ := h
  exact ⟨a, hp.recorded _ _ h⟩

theorem Calls.Cleared.mono (hp : p.Record p') (h : p.Cleared sv id terms) : p'.Cleared sv id terms :=
  ⟨h.verified, h.unspent.mono hp⟩

theorem WasTold.toldTo {t : CallThread} (ht : t ∈ p.threads) (h : WasTold t hash status) :
    p.ToldTo t.tag hash status := by
  obtain ⟨a, hm⟩ := h
  exact ⟨a, t, ht, rfl, hm⟩

theorem Calls.GivenUp.mono (hp : p.Record p') (h : p.GivenUp o id hash) : p'.GivenUp o id hash := by
  obtain ⟨st, hst, htold⟩ := h.unspent
  exact ⟨Nat.le_trans h.pushes (hp.count _), st, hst, htold.mono hp⟩

theorem Backed.mono (hp : p.Record p') (h : Backed sv o p id phase s) : Backed sv o p' id phase s := by
  obtain ⟨t, ht, htag⟩ := h.started
  obtain ⟨t', ht', htag'⟩ := hp.started t ht
  refine ⟨⟨t', ht', htag'.trans htag⟩, Nat.le_trans h.pushes (hp.count _), ?_⟩
  have hearned := h.earned
  cases phase with
  | init | canceled => trivial
  | zkpsVerified => exact hearned
  | preChecked => exact Calls.Cleared.mono hp hearned
  | insertPushed => exact ⟨hearned.1.mono hp, hearned.2⟩
  | settled => exact ⟨hearned.1.mono hp, hearned.2.mono hp⟩
  | aborted | invalidated | refunded => exact ⟨hearned.1.mono hp, hearned.2.mono hp⟩

/-- A row with the same terms that counts no further than the pushes. -/
theorem Backed.onward {phase' : Phase} (h : Backed sv o p id phase s) (hterms : s.terms = s'.terms)
    (hpushes : s'.insertPushAttempts.toNat ≤ p.inserts id) (hearned : p.Earned sv o id s' phase') :
    Backed sv o p id phase' s' :=
  ⟨hterms ▸ h.started, hpushes, hearned⟩

/-- The row of a swap that is given up. -/
theorem Backed.givenUp (h : Backed sv o p id .insertPushed s) (hleft : ¬ s.insertPushAttempts < o.insertPushRetry)
    {st : SpentStatus} (hst : st ≠ .spent) (htold : p.ToldTo (.advance id) s.bob.hB st) :
    p.GivenUp o id s.bob.hB := by
  refine ⟨?_, st, hst, htold⟩
  have hpushes := h.pushes
  have hpushed := h.earned.2
  have hretry : ¬ s.insertPushAttempts.toNat < o.insertPushRetry.toNat := fun hlt =>
    hleft (UInt8.lt_iff_toNat_lt.2 hlt)
  omega

end

/-! ## What the calls hold -/

/-- Where a call stands in what it goes by. -/
def heldOf (o : Orchestrator) (t : CallThread) : Held := t.state (conduct o) fun _ => .nothing

/-- The signature was asked for on the terms that were read, for the session that the phase of the row is about. -/
def SignedFor (t : CallThread) (tx : Transaction) (sig : PartialSig) : Prop := ∃ a,
  (tx.phase = .insertPushed ∧ (⟨.partialSign t.tag.id .settle (asBytes tx.stateBlob.inner.alice.txSettleHash)
    tx.stateBlob.inner.parties.aliceMusig2Pubkey ⟨tx.stateBlob.inner.aliceNonces.settleNoncePub⟩, a,
      .ok sig⟩ : MadeCall) ∈ t.made) ∨
  (tx.phase = .invalidated ∧ (⟨.partialSign t.tag.id .refund (asBytes tx.stateBlob.inner.alice.txRefundHash)
    tx.stateBlob.inner.parties.aliceMusig2Pubkey ⟨tx.stateBlob.inner.aliceNonces.refundNoncePub⟩, a,
      .ok sig⟩ : MadeCall) ∈ t.made)

/-- What a call holds is on record. -/
structure Held.Backed (sv : Services) (o : Orchestrator) (p : Calls) (t : CallThread) (h : Held) : Prop where
  acting : ∀ tx, h.acting = some tx → Referee.Backed sv o p t.tag.id tx.phase tx.stateBlob.inner
  last : ∀ tx, h.last = some tx → Referee.Backed sv o p t.tag.id tx.phase tx.stateBlob.inner
  regular : ∀ tx, h.acting = some tx ∨ h.last = some tx → tx.Regular
  okBob : h.okBob = true → ∀ id req, t.tag = .start id req → sv.verify .bobPayload req.bob.zkpPayload = true
  okAlice : h.okAlice = true → ∀ id req, t.tag = .start id req →
    sv.verify .aliceSignature req.alice.zkpSignature = true
  told : ∀ s, h.status = some s → ∃ terms, h.terms? t.tag = some terms ∧ WasTold t terms.bob.hB s
  sig : ∀ sig, h.sig = some sig → ∃ tx, h.acting = some tx ∧ SignedFor t tx sig
  pushed : h.pushed = true → (t.tag.IsStart ∧ 0 < p.inserts t.tag.id) ∨
    ∃ tx, h.acting = some tx ∧ tx.stateBlob.inner.insertPushAttempts.toNat < p.inserts t.tag.id

/-- **The invariant**: rows and calls have nothing that is not on record. -/
structure Grounded (sv : Services) (o : Orchestrator) (p : Calls) : Prop where
  conforms : p.Conforms (conduct o) (fun _ => .nothing) World.WellFormed fun _ _ _ => True
  rows : ∀ id tx, p.world.rows.lookup id = some tx → Backed sv o p id tx.phase tx.stateBlob.inner
  regular : ∀ id tx, p.world.rows.lookup id = some tx → tx.Regular
  held : ∀ t ∈ p.threads, (heldOf o t).Backed sv o p t

section

variable {sv : Services} {o : Orchestrator} {p p' : Calls} {t t' : CallThread} {h : Held} {r : Request}
  {phase : Phase} {n : UInt8} {s : SwapFields} {c : Call} {a : Answer} {i : Nat} {made : Trace}
  {k : Except RefereeError c.Result → Prog (fun c => Except RefereeError (Call.Result c)) (Except RefereeError Reply)}

theorem Held.Backed.nothing : Held.Backed sv o p t .nothing :=
  ⟨fun _ h => (nomatch h), fun _ h => (nomatch h), fun _ h => (by rcases h with h | h <;> cases h),
    fun h => (nomatch h),
    fun h => (nomatch h), fun _ h => (nomatch h), fun _ h => (nomatch h), fun h => nomatch h⟩

/-- Further calls take nothing away. -/
theorem Held.Backed.mono {r : Request} {made made' : Trace} {rest rest'} (hp : p.Record p')
    (hmade : ∀ m ∈ made, m ∈ made')
    (hh : h.Backed sv o p ⟨r, made, rest⟩) : h.Backed sv o p' ⟨r, made', rest'⟩ where
  acting tx htx := (hh.acting tx htx).mono hp
  last tx htx := (hh.last tx htx).mono hp
  regular := hh.regular
  okBob := hh.okBob
  okAlice := hh.okAlice
  told s hs := by
    obtain ⟨terms, hterms, a, hm⟩ := hh.told s hs
    exact ⟨terms, hterms, a, hmade _ hm⟩
  sig sig hsig := by
    obtain ⟨tx, htx, a, hm⟩ := hh.sig sig hsig
    exact ⟨tx, htx, a, hm.imp (fun hm => ⟨hm.1, hmade _ hm.2⟩) fun hm => ⟨hm.1, hmade _ hm.2⟩⟩
  pushed hpushed := by
    rcases hh.pushed hpushed with ⟨hstart, hlt⟩ | ⟨tx, htx, hlt⟩
    · exact .inl ⟨hstart, Nat.lt_of_lt_of_le hlt (hp.count _)⟩
    · exact .inr ⟨tx, htx, Nat.lt_of_lt_of_le hlt (hp.count _)⟩

/-- A start that has cleared its checks. -/
theorem Held.Backed.cleared {id : SwapId} {req : InitiateRequest} (hh : h.Backed sv o p t) (ht : t ∈ p.threads)
    (htag : t.tag = .start id req) (hclear : h.Cleared) : p.Cleared sv id req := by
  refine ⟨fun circuit => ?_, ?_⟩
  · cases circuit with
    | bobPayload => exact hh.okBob hclear.okBob id req htag
    | aliceSignature => exact hh.okAlice hclear.okAlice id req htag
  · obtain ⟨terms, hterms, htold⟩ := hh.told _ hclear.unspent
    rw [htag] at hterms
    obtain rfl : req = terms := Option.some.inj hterms
    exact htag ▸ htold.toldTo ht

/-- What an advance was told is about the row it acts on. -/
theorem Held.Backed.told_acting {id : SwapId} {tx : Transaction} {status : SpentStatus} (hh : h.Backed sv o p t)
    (htag : t.tag = .advance id) (hrow : h.acting = some tx) (hstatus : h.status = some status) :
    WasTold t tx.stateBlob.inner.bob.hB status := by
  obtain ⟨terms, hterms, htold⟩ := hh.told _ hstatus
  rw [htag, show h.terms? (.advance id) = h.acting.map fun tx => tx.stateBlob.inner.terms from rfl, hrow] at hterms
  obtain rfl : tx.stateBlob.inner.terms = terms := Option.some.inj hterms
  exact htold

/-- A push that was made is in the count. -/
theorem Held.Backed.pushed_acting {id : SwapId} {tx : Transaction} (hh : h.Backed sv o p t) (htag : t.tag = .advance id)
    (hrow : h.acting = some tx) (hpush : h.pushed = true) : tx.stateBlob.inner.insertPushAttempts.toNat <
    p.inserts id := by
  rcases hh.pushed hpush with ⟨⟨_, _, hstart⟩, -⟩ | ⟨tx', hrow', hlt⟩
  · cases hstart.symm.trans htag
  · obtain rfl : tx = tx' := Option.some.inj (hrow.symm.trans hrow')
    rwa [htag] at hlt

theorem not_start_advance (id : SwapId) : ¬ (Request.advance id).IsStart := by
  rintro ⟨_, _, h⟩
  cases h

/-- An advance or a cancel keeps the terms of the row it acts on. -/
theorem Held.Backed.acts {tx : Transaction} (hh : h.Backed sv o p t) (htag : t.tag = r) (hstart : ¬ r.IsStart)
    (hrow : h.acting = some tx)
    (hterms : h.terms? r = some s.terms) : Referee.Backed sv o p r.id tx.phase tx.stateBlob.inner ∧
      tx.stateBlob.inner.terms = s.terms ∧ tx.stateBlob.inner.bob = s.bob := by
  have hsame : tx.stateBlob.inner.terms = s.terms := by
    cases r with
    | start id req => exact absurd ⟨id, req, rfl⟩ hstart
    | advance | cancel =>
      rw [show h.terms? _ = h.acting.map fun tx => tx.stateBlob.inner.terms from rfl, hrow] at hterms
      exact Option.some.inj hterms
  exact ⟨htag ▸ hh.acting tx hrow, hsame, congrArg InitiateRequest.bob hsame⟩

/-- **A row that is written is backed** by what the call holds. -/
theorem Held.Backed.supports (hh : h.Backed sv o p t) (ht : t ∈ p.threads) (htag : t.tag = r)
    (hterms : h.terms? r = some s.terms)
    (hs : h.Supports o r phase s.insertPushAttempts) : Referee.Backed sv o p r.id phase s := by
  generalize hcount : s.insertPushAttempts = n at hs
  have hzero : n = 0 → s.insertPushAttempts.toNat ≤ p.inserts r.id := by
    rintro rfl
    rw [hcount]
    exact Nat.zero_le _
  cases hs with
  | @init id req =>
    obtain rfl : req = s.terms := Option.some.inj hterms
    exact ⟨⟨t, ht, htag⟩, hzero rfl, trivial⟩
  | @zkpsVerified id req hbob halice =>
    obtain rfl : req = s.terms := Option.some.inj hterms
    refine ⟨⟨t, ht, htag⟩, hzero rfl, fun circuit => ?_⟩
    cases circuit with
    | bobPayload => exact hh.okBob hbob _ _ htag
    | aliceSignature => exact hh.okAlice halice _ _ htag
  | @preChecked id req hclear =>
    obtain rfl : req = s.terms := Option.some.inj hterms
    exact ⟨⟨t, ht, htag⟩, hzero rfl, hh.cleared ht htag hclear⟩
  | @insertPushed id req hclear hpush =>
    obtain rfl : req = s.terms := Option.some.inj hterms
    refine ⟨⟨t, ht, htag⟩, ?_, hh.cleared ht htag hclear, by simp [hcount]⟩
    rw [hcount]
    rcases hh.pushed hpush with ⟨-, hlt⟩ | ⟨tx, -, hlt⟩ <;> rw [htag] at hlt
    · exact hlt
    · exact Nat.lt_of_le_of_lt (Nat.zero_le _) hlt
  | @retried id tx hrow hphase hpush hleft =>
    obtain ⟨hbacked, hsame, -⟩ := hh.acts htag (not_start_advance id) hrow hterms
    rw [hphase] at hbacked
    have hlt : _ < p.inserts (Request.advance id).id := hh.pushed_acting htag hrow hpush
    have hleft := UInt8.lt_iff_toNat_lt.1 hleft
    have hbound := o.insertPushRetry.toNat_lt
    have hnat : s.insertPushAttempts.toNat = tx.stateBlob.inner.insertPushAttempts.toNat + 1 := by
      rw [hcount, UInt8.toNat_add, UInt8.toNat_one]
      omega
    exact hbacked.onward hsame (by omega) ⟨hsame ▸ hbacked.earned.1, by omega⟩
  | @settled id tx hrow hphase hspent =>
    obtain ⟨hbacked, hsame, hbob⟩ := hh.acts htag (not_start_advance id) hrow hterms
    rw [hphase] at hbacked
    have htold : p.ToldTo (.advance id) tx.stateBlob.inner.bob.hB .spent :=
      htag ▸ (hh.told_acting htag hrow hspent).toldTo ht
    exact hbacked.onward hsame (hcount ▸ hbacked.pushes) ⟨hsame ▸ hbacked.earned.1, hbob ▸ htold⟩
  | @aborted id tx st hrow hphase hstatus hst hleft =>
    obtain ⟨hbacked, hsame, hbob⟩ := hh.acts htag (not_start_advance id) hrow hterms
    rw [hphase] at hbacked
    have htold : p.ToldTo (.advance id) tx.stateBlob.inner.bob.hB st :=
      htag ▸ (hh.told_acting htag hrow hstatus).toldTo ht
    have hgiven := hbacked.givenUp hleft hst htold
    exact hbacked.onward hsame (hcount ▸ hbacked.pushes) ⟨hsame ▸ hbacked.earned.1, hbob ▸ hgiven⟩
  | @invalidated id tx hrow hphase =>
    obtain ⟨hbacked, hsame, hbob⟩ := hh.acts htag (not_start_advance id) hrow hterms
    rw [hphase] at hbacked
    exact hbacked.onward hsame (hcount ▸ hbacked.pushes) ⟨hsame ▸ hbacked.earned.1, hbob ▸ hbacked.earned.2⟩
  | @refunded id tx hrow hphase =>
    obtain ⟨hbacked, hsame, hbob⟩ := hh.acts htag (not_start_advance id) hrow hterms
    rw [hphase] at hbacked
    exact hbacked.onward hsame (hcount ▸ hbacked.pushes) ⟨hsame ▸ hbacked.earned.1, hbob ▸ hbacked.earned.2⟩
  | @canceled id byPgpFp reason sigHex tx hrow =>
    obtain ⟨hbacked, hsame, -⟩ := hh.acts htag (fun ⟨_, _, h⟩ => by cases h) hrow hterms
    exact hbacked.onward hsame (hcount ▸ hbacked.pushes) trivial

/-! ## One step -/

/-- The row that is read is backed. -/
theorem Held.Backed.read {row : Option Transaction} (hh : h.Backed sv o p t)
    (hrow : ∀ tx, row = some tx → Referee.Backed sv o p t.tag.id tx.phase tx.stateBlob.inner)
    (hreg : ∀ tx, row = some tx → tx.Regular) :
    Held.Backed sv o p t { h with acting := h.acting.or row, last := row } where
  acting tx htx := by
    rcases Option.or_eq_some_iff.1 htx with htx | ⟨-, htx⟩
    · exact hh.acting tx htx
    · exact hrow tx htx
  last := hrow
  regular tx htx := by
    rcases htx with htx | htx
    · rcases Option.or_eq_some_iff.1 htx with htx | ⟨-, htx⟩
      · exact hh.regular tx (.inl htx)
      · exact hreg tx htx
    · exact hreg tx htx
  okBob := hh.okBob
  okAlice := hh.okAlice
  told s hs := by
    obtain ⟨terms, hterms, htold⟩ := hh.told s hs
    exact ⟨terms, terms_reread hterms row, htold⟩
  sig sig hsig := by
    obtain ⟨tx, htx, hm⟩ := hh.sig sig hsig
    exact ⟨tx, or_of_some htx, hm⟩
  pushed hpushed := (hh.pushed hpushed).imp_right fun ⟨tx, htx, hlt⟩ => ⟨tx, or_of_some htx, hlt⟩

theorem next_error (h : Held) (c : Call) (e : RefereeError) : h.next c (.error e) = h := by
  cases c with
  | verify circuit => cases circuit <;> rfl
  | _ => rfl

/-- An insert push that was taken is one more than the row counts. -/
theorem inserts_turn (ht : p.threads[i]? = some ⟨r, made, .call c k⟩) (id : SwapId) :
    (p.turn sv i r made c a k).inserts id =
      p.inserts id + if insertOf id ⟨c, a, (World.serve sv c a p.world).1⟩ then 1 else 0 :=
  count_turn ht rfl _

/-- **What a call holds after its next call is on record.** -/
theorem Grounded.next (hp : Grounded sv o p) (ht : p.threads[i]? = some ⟨r, made, .call c k⟩)
    (hrec : p.Record (p.turn sv i r made c a k)) :
    ((heldOf o ⟨r, made, .call c k⟩).next c (World.serve sv c a p.world).1).Backed sv o (p.turn sv i r made c a k)
      ⟨r, made ++ [⟨c, a, (World.serve sv c a p.world).1⟩], k (World.serve sv c a p.world).1⟩ := by
  have hc : (heldOf o ⟨r, made, .call c k⟩).Allows o r c := hp.conforms.allows ht
  have hold := hp.held _ (List.mem_of_getElem? ht)
  have hinserts : (p.turn sv i r made c a k).inserts r.id = _ := inserts_turn ht r.id
  generalize heldOf o ⟨r, made, .call c k⟩ = h at hc hold ⊢
  have hbase : h.Backed sv o (p.turn sv i r made c a k)
      ⟨r, made ++ [⟨c, a, (World.serve sv c a p.world).1⟩], k (World.serve sv c a p.world).1⟩ :=
    hold.mono hrec fun m hm => List.mem_append_left _ hm
  have hmine : ∀ res, (World.serve sv c a p.world).1 = res → (⟨c, a, res⟩ : MadeCall) ∈ made ++
      [⟨c, a, (World.serve sv c a p.world).1⟩] := by
    rintro res rfl
    exact List.mem_append_right _ (List.mem_singleton.2 rfl)
  generalize hnew : (⟨r, made ++ [⟨c, a, (World.serve sv c a p.world).1⟩],
    k (World.serve sv c a p.world).1⟩ : CallThread) = t' at hbase ⊢
  have htag : t'.tag = r := hnew ▸ rfl
  have hmine : ∀ res, (World.serve sv c a p.world).1 = res → (⟨c, a, res⟩ : MadeCall) ∈ t'.made :=
    hnew ▸ hmine
  cases hres : (World.serve sv c a p.world).1 with
  | error e =>
    rw [next_error]
    exact hbase
  | ok v =>
    have hserve := World.serve_ok hres
    cases hc with
    | free hfree =>
      rw [next_free hfree]
      exact hbase
    | get =>
      rw [hserve] at hres
      obtain rfl : p.world.rows.lookup r.id = v := Except.ok.inj hres
      refine hbase.read (fun tx htx => ?_) (hp.regular r.id)
      rw [htag]
      exact (hp.rows r.id tx htx).mono hrec
    | @verify id req circuit proof hproof =>
      rw [hserve] at hres
      obtain rfl : sv.verify circuit proof = v := Except.ok.inj hres
      subst hproof
      cases circuit with
      | bobPayload =>
        refine ⟨hbase.acting, hbase.last, hbase.regular, fun hok id' req' htag' => ?_, hbase.okAlice, hbase.told,
          hbase.sig, hbase.pushed⟩
        cases htag.symm.trans htag'
        exact hok
      | aliceSignature =>
        refine ⟨hbase.acting, hbase.last, hbase.regular, hbase.okBob, fun hok id' req' htag' => ?_, hbase.told,
          hbase.sig, hbase.pushed⟩
        cases htag.symm.trans htag'
        exact hok
    | check hterms hhash =>
      refine ⟨hbase.acting, hbase.last, hbase.regular, hbase.okBob, hbase.okAlice,
        fun s hs => ⟨_, htag.symm ▸ hterms, a, ?_⟩, hbase.sig, hbase.pushed⟩
      rw [← hhash, ← Option.some.inj hs]
      exact hmine _ hres
    | @signSettle id tx hrow hphase hspent =>
      refine ⟨hbase.acting, hbase.last, hbase.regular, hbase.okBob, hbase.okAlice, hbase.told,
        fun sig hsig => ⟨tx, hrow, a, .inl ⟨hphase, ?_⟩⟩, hbase.pushed⟩
      rw [htag, ← Option.some.inj hsig]
      exact hmine _ hres
    | @signRefund id tx hrow hphase =>
      refine ⟨hbase.acting, hbase.last, hbase.regular, hbase.okBob, hbase.okAlice, hbase.told,
        fun sig hsig => ⟨tx, hrow, a, .inr ⟨hphase, ?_⟩⟩, hbase.pushed⟩
      rw [htag, ← Option.some.inj hsig]
      exact hmine _ hres
    | write | rewrite => exact hbase
    | @insert id req s push hclear hpush hterms =>
      subst hpush
      refine ⟨hbase.acting, hbase.last, hbase.regular, hbase.okBob, hbase.okAlice, hbase.told, hbase.sig,
        fun _ => .inl ⟨htag ▸ ⟨id, req, rfl⟩, ?_⟩⟩
      rw [htag, hinserts, hres]
      simp [insertOf, Call.push?, insertPush, Made.delivered?, Request.id]
    | @retry id tx hrow hphase =>
      refine ⟨hbase.acting, hbase.last, hbase.regular, hbase.okBob, hbase.okAlice, hbase.told, hbase.sig,
        fun _ => .inr ⟨tx, hrow, ?_⟩⟩
      have hpushes := (hold.acting tx hrow).pushes
      rw [htag, hinserts, hres]
      simp [insertOf, Call.push?, insertPush, Made.delivered?, Request.id] at hpushes ⊢
      omega
    | releaseSettle | releaseRefund => exact hbase
    | giveUp | withdraw => exact hbase

/-- The row that a call leaves is the row that was there, or one that the call supports. -/
theorem Grounded.rows_turn (hp : Grounded sv o p) (ht : p.threads[i]? = some ⟨r, made, .call c k⟩)
    (hrec : p.Record (p.turn sv i r made c a k)) (id : SwapId) (tx : Transaction)
    (hrow : (p.turn sv i r made c a k).world.rows.lookup id = some tx) :
    Backed sv o (p.turn sv i r made c a k) id tx.phase tx.stateBlob.inner := by
  have hc : (heldOf o ⟨r, made, .call c k⟩).Allows o r c := hp.conforms.allows ht
  have hmem := List.mem_of_getElem? ht
  have hold := hp.held _ hmem
  rcases World.serve_found hrow with hsame | ⟨rfl, hid⟩
  · exact (hp.rows id tx hsame).mono hrec
  · obtain ⟨hwf, hwrite⟩ := hc.upsert_cases
    rw [hid, hwf.swapId]
    rcases hwrite with ⟨hterms, hs, -⟩ | ⟨row', hlast, hphase, hblob, -⟩
    · exact (hold.supports hmem rfl hterms hs).mono hrec
    · rw [← hphase, ← hblob]
      exact (hold.last _ hlast).mono hrec

theorem Grounded.regular_turn (hp : Grounded sv o p) (ht : p.threads[i]? = some ⟨r, made, .call c k⟩)
    (id : SwapId) (tx : Transaction)
    (hrow : (p.turn sv i r made c a k).world.rows.lookup id = some tx) : tx.Regular := by
  have hc : (heldOf o ⟨r, made, .call c k⟩).Allows o r c := hp.conforms.allows ht
  have hold := hp.held _ (List.mem_of_getElem? ht)
  rcases World.serve_found hrow with hsame | ⟨rfl, -⟩
  · exact hp.regular id tx hsame
  · obtain ⟨-, ⟨-, -, hreg⟩ | ⟨row', hlast, -, -, hreg⟩⟩ := hc.upsert_cases
    · exact hreg fun row' hacting => hold.regular row' (.inl hacting)
    · exact hreg (hold.regular row' (.inr hlast))

theorem conduct_kept (sv : Services) (o : Orchestrator) (r : Request) :
    (conduct o r).Kept (World.serve sv) World.WellFormed where
  admits hw := (protocol_kept sv r).admits hw
  kept {w h c a} hw hc := by
    intro id tx htx
    rcases World.serve_found htx with hsame | ⟨rfl, hid⟩
    · exact hw id tx hsame
    · obtain ⟨hwf, -⟩ := Held.Allows.upsert_cases hc
      rwa [hid, hwf.swapId]

/-- **One step of any call.** -/
theorem Grounded.step {act : Act Answer Request} (h : p.Step sv o act p') (hp : Grounded sv o p) :
    Grounded sv o p' := by
  have hrec := Pool.Record.step h
  have hconf := Pool.Conforms.step (conduct_kept sv o) (program_conducts o) h hp.conforms
  rcases Pool.step_cases h with ⟨r, -, rfl⟩ | ⟨i, a, r, made, c, k, -, ht, rfl⟩
  · refine ⟨hconf, fun id tx hrow => (hp.rows id tx hrow).mono hrec, hp.regular, fun t hmem => ?_⟩
    rcases List.mem_append.1 hmem with hmem | hmem
    · exact (hp.held t hmem).mono hrec fun _ hm => hm
    · obtain rfl := List.mem_singleton.1 hmem
      exact .nothing
  · refine ⟨hconf, hp.rows_turn ht hrec, hp.regular_turn ht, fun t hmem => ?_⟩
    rcases List.mem_or_eq_of_mem_set hmem with hmem | rfl
    · exact (hp.held t hmem).mono hrec fun _ hm => hm
    · rw [heldOf, Thread.state_turn (.call c k)]
      exact hp.next ht hrec

theorem Grounded.empty : Grounded sv o ⟨World.empty, []⟩ :=
  ⟨⟨World.wellFormed_empty, fun _ h => nomatch h⟩, fun _ _ h => (nomatch h), fun _ _ h => (nomatch h),
    fun _ h => nomatch h⟩

end

/-! ## What is released, and what is written -/

theorem grounded_run {sv : Services} {o : Orchestrator} {acts : List (Act Answer Request)} {p : Calls}
    (h : Run (Calls.Step sv o) ⟨World.empty, []⟩ acts p) : Grounded sv o p :=
  Run.invariant (fun _ _ _ hstep hp => Grounded.step hstep hp) h .empty

/-- A signature that was obtained for a row of the phase is the one for it. -/
theorem SignedFor.settle {t : CallThread} {tx : Transaction} {sig : PartialSig} (h : SignedFor t tx sig)
    (hphase : tx.phase = .insertPushed) :
    ∃ a, (⟨.partialSign t.tag.id .settle
      (asBytes tx.stateBlob.inner.alice.txSettleHash) tx.stateBlob.inner.parties.aliceMusig2Pubkey
      ⟨tx.stateBlob.inner.aliceNonces.settleNoncePub⟩, a, .ok sig⟩ : MadeCall) ∈ t.made := by
  obtain ⟨a, ⟨-, hm⟩ | ⟨hother, -⟩⟩ := h
  · exact ⟨a, hm⟩
  · cases hphase.symm.trans hother

theorem SignedFor.refund {t : CallThread} {tx : Transaction} {sig : PartialSig} (h : SignedFor t tx sig)
    (hphase : tx.phase = .invalidated) :
    ∃ a, (⟨.partialSign t.tag.id .refund
      (asBytes tx.stateBlob.inner.alice.txRefundHash) tx.stateBlob.inner.parties.aliceMusig2Pubkey
      ⟨tx.stateBlob.inner.aliceNonces.refundNoncePub⟩, a, .ok sig⟩ : MadeCall) ∈ t.made := by
  obtain ⟨a, ⟨hother, -⟩ | ⟨-, hm⟩⟩ := h
  · cases hphase.symm.trans hother
  · exact ⟨a, hm⟩

namespace Sample

end Sample

/-- **The rows say no more than what has happened**, whatever the order of the calls: the swap was started with the
terms of the row, it was pushed as often as the row counts, and its phase was earned. -/
theorem rows_backed (sv : Services) (o : Orchestrator) (acts : List (Act Answer Request)) (p : Calls)
    (h : Run (Calls.Step sv o) ⟨World.empty, []⟩ acts p) (id : SwapId) (tx : Transaction)
    (hrow : p.world.rows.lookup id = some tx) :
    Backed sv o p id tx.phase tx.stateBlob.inner :=
  (grounded_run h).rows id tx hrow

open Webycash.Referee.Sample in
/-- The row of a swap that was given up while another call held its old row. -/
theorem rows_backed_given_up : ∃ p tx, Run (Calls.Step services orchestrator) ⟨World.empty, []⟩
    (startActs ++ raceActs) p ∧
    p.world.rows.lookup swapId = some tx ∧ tx.phase = .invalidated ∧
      Backed services orchestrator p swapId tx.phase tx.stateBlob.inner := by
  have h : ((exec ⟨World.empty, []⟩ (startActs ++ raceActs)).bind fun p =>
    (p.world.rows.lookup swapId).map fun tx => tx.phase) = some .invalidated := by decide +kernel
  obtain ⟨p, hp, h⟩ := Option.bind_eq_some_iff.1 h
  obtain ⟨tx, hrow, hphase⟩ := Option.map_eq_some_iff.1 h
  have hrun : Run (Calls.Step services orchestrator) ⟨World.empty, []⟩ (startActs ++ raceActs) p :=
    Run.of_exec (fun _ _ _ hs => hs) hp
  exact ⟨p, tx, hrun, hrow, hphase, rows_backed services orchestrator _ p hrun swapId tx hrow⟩

end Webycash.Referee
