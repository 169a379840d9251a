import Webycash.Lib.Task
import Webycash.Referee.Orchestrator
/-!
# What `start_swap` takes on trust

The two proofs go to the verifier as they came, public inputs and all, and Alice's key and nonces go into
the row unread. So a request can be started exactly when the verifier accepts its proofs
(`starts_iff`): whether the public inputs are those of the payloads beside them
(`proofs_bound_iff`), and whether the signer will be able to use the key and the nonces
(`musig2_usable_iff`), plays no part.
-/

namespace Webycash.Referee

open Prog

variable {sv : Services} {o : Orchestrator} {id : SwapId} {req : InitiateRequest}

/-- `start_swap` answers `Ok`. -/
def Starts (sv : Services) (o : Orchestrator) (id : SwapId) (req : InitiateRequest) (as : Nat → Answer)
    (w : World) : Prop :=
  ∃ v, ((startSwap o id req).run.run (World.serve sv) as w).value = .ok v

/-- The verifier accepts both proofs, as they came. -/
def Services.Accepts (sv : Services) (req : InitiateRequest) : Prop :=
  sv.verify .bobPayload req.bob.zkpPayload = true ∧ sv.verify .aliceSignature req.alice.zkpSignature = true

/-! ## What has been checked -/

theorem ensures_verify {circuit : Circuit} {proof : Groth16Proof} :
    Ensures (World.serve sv) (await (.verify circuit proof)) fun ok => ok = sv.verify circuit proof := by
  refine ensures_perform fun a w v hv => ?_
  have hserve := World.serve_ok hv
  rw [hserve] at hv
  cases hv
  rfl

/-- **What an `Ok` of `start_swap` says about the proofs.** -/
theorem ensures_startSwap : Ensures (World.serve sv) (startSwap o id req) fun _ => sv.Accepts req := by
  refine Ensures.skip fun nowUnix => ?_
  refine Ensures.skip fun settlePubNonce => ?_
  refine Ensures.skip fun refundPubNonce => ?_
  refine Ensures.skip fun initTip => ?_
  refine Ensures.skip fun _ => ?_
  refine Ensures.skip fun _ => ?_
  refine Ensures.skip fun _ => ?_
  refine Ensures.skip fun _ => ?_
  refine Ensures.bind ensures_verify fun okBob hbob => ?_
  refine Ensures.bind ensures_verify fun okAlice halice => ?_
  refine Ensures.skip fun _ => ?_
  refine Ensures.skip fun _ => ?_
  refine Ensures.bind ensures_computed fun zkpsState hzkps => ?_
  refine Ensures.of ?_
  have hboth : (okBob && okAlice) = true := by
    unfold verifyZkps at hzkps
    split at hzkps
    · cases hzkps
    · rename_i h
      simpa using h
  rw [Bool.and_eq_true] at hboth
  exact ⟨hbob ▸ hboth.1, halice ▸ hboth.2⟩

/-! ## What is enough -/

section

variable {a : Answer}

/-- A call that succeeds where it is carried out, and what it answers. -/
theorem succeeds_answer (hf : a.fault = none) {c : Call} {S : c.Result → Prop}
    (h : ∀ w, ∃ v, (World.perform sv c a w).1 = .ok v ∧ S v) : Succeeds (World.serve sv) a (await c) S := by
  refine succeeds_perform fun w => ?_
  rw [World.serve_of_fault_none hf]
  exact h w

theorem succeeds_await (hf : a.fault = none) {c : Call} (h : ∀ w, ∃ v, (World.perform sv c a w).1 = .ok v) :
    Succeeds (World.serve sv) a (await c) fun _ => True :=
  succeeds_answer hf fun w => (h w).imp fun _ hv => ⟨hv, trivial⟩

theorem succeeds_now (hf : a.fault = none) : Succeeds (World.serve sv) a (await .now) fun _ => True :=
  succeeds_await hf fun _ => ⟨_, rfl⟩

theorem succeeds_get (hf : a.fault = none) {i : SwapId} : Succeeds (World.serve sv) a (await (.get i)) fun _ => True :=
  succeeds_await hf fun _ => ⟨_, rfl⟩

theorem succeeds_upsert (hf : a.fault = none) {tx : Transaction} :
    Succeeds (World.serve sv) a (await (.upsert tx)) fun _ => True :=
  succeeds_await hf fun _ => ⟨_, rfl⟩

theorem succeeds_auditPhase (hf : a.fault = none) {phase : Phase} {payload : Json} {prior : String} :
    Succeeds (World.serve sv) a (auditPhase id phase payload prior) fun _ => True :=
  (succeeds_now hf).bind fun _ _ => succeeds_await hf fun _ => ⟨_, rfl⟩

theorem succeeds_persist (hf : a.fault = none) {p phase : Phase} {s : SwapState p} :
    Succeeds (World.serve sv) a (persist s phase) fun _ => True := by
  refine (succeeds_now hf).bind fun now _ => ?_
  by_cases hphase : phase = .init
  · rw [if_pos hphase]
    exact succeeds_upsert hf
  · rw [if_neg hphase]
    exact (succeeds_get hf).bind fun existing _ => succeeds_upsert hf

theorem succeeds_saveContract (hf : a.fault = none) {cid : Option String} :
    Succeeds (World.serve sv) a (saveContract id cid) fun _ => True := by
  cases cid with
  | none => exact succeeds_pure trivial
  | some cid =>
    refine (succeeds_get hf).bind fun row _ => ?_
    cases row with
    | none => exact succeeds_pure trivial
    | some row => exact succeeds_upsert hf

/-- A session that was not begun begins. -/
theorem serve_begin (hf : a.fault = none) {session : Session} {w : World} (h : (id, session) ∉ w.live) :
    World.serve sv (.beginSession id session) a w =
      (.ok (sv.signer.pubNonce id session a.seed), { w with live := w.live.insert (id, session) a.seed }) := by
  rw [World.serve_of_fault_none hf, World.perform, if_neg h]

/-- **Accepted proofs are enough**: where no call fails and `H_B` is unspent, the swap starts. -/
theorem succeeds_startSwap (h : sv.Accepts req) (hf : a.fault = none) (hstatus : a.status = .unspent) :
    SucceedsFrom (World.serve sv) a (startSwap o id req) World.empty fun _ => True := by
  obtain ⟨hbob, halice⟩ := h
  refine SucceedsFrom.perform rfl ?_
  have hsettle : (id, Session.settle) ∉ World.empty.live := Finmap.notMem_empty
  refine SucceedsFrom.perform (serve_begin hf hsettle) ?_
  have hrefund : (id, Session.refund) ∉ World.empty.live.insert (id, Session.settle) a.seed := by
    rw [Finmap.mem_insert]
    rintro (heq | hmem)
    · cases heq
    · exact Finmap.notMem_empty hmem
  refine SucceedsFrom.perform (serve_begin hf hrefund) ?_
  -- From here on no call depends on the world.
  refine Succeeds.bind (succeeds_await hf fun _ => ⟨_, rfl⟩) (fun initTip _ => ?_) _
  refine (succeeds_persist hf).bind fun _ _ => ?_
  refine (succeeds_await hf fun _ => ⟨_, rfl⟩).bind fun _ _ => ?_
  refine Succeeds.bind (succeeds_attempt (S := fun _ => True) fun _ => trivial) fun htlcContract _ => ?_
  refine (succeeds_saveContract hf).bind fun _ _ => ?_
  refine Succeeds.bind (succeeds_answer (S := fun ok => ok = true) hf fun _ => ⟨_, rfl, hbob⟩)
    fun okBob hokBob => ?_
  refine Succeeds.bind (succeeds_answer (S := fun ok => ok = true) hf fun _ => ⟨_, rfl, halice⟩)
    fun okAlice hokAlice => ?_
  subst hokBob hokAlice
  refine (succeeds_auditPhase hf).bind fun zkpsTip _ => ?_
  refine (succeeds_now hf).bind fun zkpsAt _ => ?_
  refine Succeeds.bind (succeeds_computed (S := fun _ => True) rfl trivial) fun zkpsState _ => ?_
  refine (succeeds_persist hf).bind fun _ _ => ?_
  refine Succeeds.bind (succeeds_answer (S := fun status => status = SpentStatus.unspent) hf fun _ =>
    ⟨_, rfl, hstatus⟩) fun preStatus hunspent => ?_
  subst hunspent
  refine (succeeds_auditPhase hf).bind fun preTip _ => ?_
  refine (succeeds_now hf).bind fun preAt _ => ?_
  refine Succeeds.bind (succeeds_computed (S := fun _ => True) rfl trivial) fun preState _ => ?_
  refine (succeeds_persist hf).bind fun _ _ => ?_
  refine (succeeds_await hf fun _ => ⟨_, rfl⟩).bind fun _ _ => ?_
  refine (succeeds_auditPhase hf).bind fun pushTip _ => ?_
  refine (succeeds_now hf).bind fun pushedAt _ => ?_
  exact (succeeds_persist hf).bind fun _ _ => succeeds_pure trivial

end

/-- **Which requests can be started**: those whose two proofs the verifier accepts. -/
theorem starts_iff : (∃ as w, Starts sv o id req as w) ↔ sv.Accepts req := by
  constructor
  · rintro ⟨as, w, v, hv⟩
    exact ensures_startSwap as w v hv
  · intro h
    obtain ⟨v, hv, -⟩ := succeeds_startSwap (a := Sample.healthy .unspent) h rfl rfl
    exact ⟨_, _, v, hv⟩

/-- What holds of every started request holds of the requests whose proofs are accepted. -/
theorem forall_starts_iff {P : Prop} : (∀ o id as w, Starts sv o id req as w → P) ↔ ¬ sv.Accepts req ∨ P := by
  constructor
  · intro h
    by_cases haccepts : sv.Accepts req
    · obtain ⟨as, w, hstarts⟩ := starts_iff.2 haccepts
      exact .inr (h Sample.orchestrator Sample.swapId as w hstarts)
    · exact .inl haccepts
  · rintro (h | h) o id as w hstarts
    · exact absurd (starts_iff.1 ⟨as, w, hstarts⟩) h
    · exact h

/-! ## The public inputs -/

/-- How a request's public data are written as public inputs (docs/zkp-circuits.md:42, :86): the payloads,
both PGP keys, Alice's share and nonce. What does not come from the request, the referee's own key and nonce,
is part of the circuits, and these and their encoding are another project's. -/
structure Circuits where
  bobInputs : InitiateRequest → List (List UInt8)
  aliceInputs : InitiateRequest → List (List UInt8)

/-- The proofs are about this request: their public inputs are the ones it determines. -/
def InitiateRequest.ProofsBound (circuits : Circuits) (req : InitiateRequest) : Prop :=
  req.bob.zkpPayload.publicInputs = circuits.bobInputs req ∧
    req.alice.zkpSignature.publicInputs = circuits.aliceInputs req

/-- **When a verified swap is the swap that was proved.** -/
theorem proofs_bound_iff (sv : Services) (circuits : Circuits) (req : InitiateRequest) :
    (∀ o id as w, Starts sv o id req as w → req.ProofsBound circuits) ↔ ¬ sv.Accepts req ∨
      req.ProofsBound circuits :=
  forall_starts_iff

namespace Sample

/-- Every part is an input of its own, in the order of the list; the referee's nonce is `r0` and its key `02bb`,
so that the combined key goes in as the two shares. -/
def circuits : Circuits where
  bobInputs req := [req.bob.encSecretForAlice.bytes, asBytes req.bob.hB.hash, asBytes req.parties.alicePgpPubkeyHex]
  aliceInputs req := [req.alice.encPartialSigForBob.bytes, asBytes req.parties.aliceMusig2Pubkey.hex,
    asBytes req.alice.txSettleHash, asBytes req.aliceNonces.settleNoncePub, asBytes "r0",
    asBytes req.parties.aliceMusig2Pubkey.hex ++ asBytes "02bb", asBytes req.parties.bobPgpPubkeyHex]

/-- Two proofs that are about `initiateRequest`. -/
def provedRequest : InitiateRequest :=
  { initiateRequest with
    bob := { initiateRequest.bob with zkpPayload := ⟨[3], circuits.bobInputs initiateRequest⟩ }
    alice := { initiateRequest.alice with zkpSignature := ⟨[6], circuits.aliceInputs initiateRequest⟩ } }

/-- The same proofs with another ciphertext. -/
def swappedRequest : InitiateRequest :=
  { provedRequest with bob := { provedRequest.bob with encSecretForAlice := ⟨[9]⟩ } }

end Sample

/-- A verifier that accepts the proofs of one swap starts another with them. -/
theorem proof_reused : ¬ ∀ sv circuits o id req as w, Starts sv o id req as w → req.ProofsBound circuits := by
  intro h
  obtain ⟨as, w, hstarts⟩ : ∃ as w,
      Starts Sample.services Sample.orchestrator Sample.swapId Sample.swappedRequest as w :=
    starts_iff.2 ⟨rfl, rfl⟩
  have hbound := (h _ Sample.circuits _ _ _ _ _ hstarts).1
  revert hbound
  decide

/-! ## Alice's key and nonces -/

section

variable (lib : Musig2)

/-- The signer can read what Alice supplied. -/
def InitiateRequest.Musig2Usable (req : InitiateRequest) : Prop :=
  (∃ pk, parseAlicePubkey lib req.parties.aliceMusig2Pubkey = .ok pk) ∧
    (∃ n, parseAlicePubNonce lib ⟨req.aliceNonces.settleNoncePub⟩ = .ok n) ∧
    ∃ n, parseAlicePubNonce lib ⟨req.aliceNonces.refundNoncePub⟩ = .ok n

/-- **When a live swap has usable MuSig2 inputs.** -/
theorem musig2_usable_iff (verify : Circuit → Groth16Proof → Bool) (ed : Ed25519) (req : InitiateRequest) :
    (∀ o id as w, Starts ⟨verify, realSigner lib, ed⟩ o id req as w → req.Musig2Usable lib) ↔
      ¬ Services.Accepts ⟨verify, realSigner lib, ed⟩ req ∨ req.Musig2Usable lib :=
  forall_starts_iff

variable {lib} {w : World} {session : Session} {seed : Nat} {txHash : List UInt8} {pubshare : Secp256k1Pubkey}
  {nonce : PubNonce}

/-- What the signer cannot read costs the session: its nonce is gone before the inputs are read. -/
theorem sign_unusable (hsigner : sv.signer = realSigner lib) (hlive : w.live.lookup (id, session) = some seed)
    (hbad : (∀ pk, parseAlicePubkey lib pubshare ≠ .ok pk) ∨ ∀ n, parseAlicePubNonce lib nonce ≠ .ok n)
    (a : Answer) :
    ∃ e, World.perform sv (.partialSign id session txHash pubshare nonce) a w =
      (.error e, { w with live := w.live.erase (id, session) }) := by
  have hsign : ∃ e, (realSigner lib).sign id session seed txHash pubshare nonce = .error e := by
    unfold realSigner
    dsimp only
    cases hpk : parseAlicePubkey lib pubshare with
    | error e => exact ⟨e, rfl⟩
    | ok pk =>
      cases hn : parseAlicePubNonce lib nonce with
      | error e => exact ⟨e, rfl⟩
      | ok n =>
        rcases hbad with hbad | hbad
        · exact absurd hpk (hbad pk)
        · exact absurd hn (hbad n)
  obtain ⟨e, he⟩ := hsign
  refine ⟨e, ?_⟩
  rw [World.perform, hlive]
  dsimp only
  rw [hsigner, he]

end

namespace Sample

/-- Keys of 33 bytes and nonces of 66. -/
def musig2 : Musig2 where
  PublicKey := List UInt8
  Nonce := List UInt8
  SecNonce := Nat
  KeyAgg := List UInt8 × List UInt8
  AggNonce := List UInt8 × List UInt8
  pk := List.replicate 33 2
  secNonce seed := seed
  publicNonce seed := List.replicate 66 (UInt8.ofNat seed)
  serializeNonce n := n
  publicKeyFromSlice bytes := if bytes.length = 33 then .ok bytes else .error "malformed public key"
  nonceFromBytes bytes := if bytes.length = 66 then .ok bytes else .error "invalid nonce length"
  keyAgg a b := .ok (a, b)
  aggNonce a b := (a, b)
  signPartial _ _ _ _ := .ok [1]

end Sample

/-- A key of two bytes goes live. -/
theorem short_key_goes_live : ¬ ∀ lib verify ed o id req as w,
    Starts ⟨verify, realSigner lib, ed⟩ o id req as w →
    req.Musig2Usable lib := by
  intro h
  obtain ⟨as, w, hstarts⟩ : ∃ as w,
    Starts ⟨fun _ _ => true, realSigner Sample.musig2, Sample.ed25519⟩ Sample.orchestrator
      Sample.swapId Sample.initiateRequest as w := starts_iff.2 ⟨rfl, rfl⟩
  obtain ⟨⟨pk, hpk⟩, -⟩ := h _ _ _ _ _ _ _ _ hstarts
  have hshort : parseAlicePubkey Sample.musig2 Sample.initiateRequest.parties.aliceMusig2Pubkey =
      .error (.musig2 "alice pubkey: malformed public key") := by rfl
  rw [hshort] at hpk
  cases hpk

end Webycash.Referee
