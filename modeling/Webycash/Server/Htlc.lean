import Webycash.Server.Plans
import Webycash.Storage.Redis
/-!
# Who a lock pays

The predicate of an HTLC compares the lock's owners with an owner hash that the witness carries
(htlc/predicate.rs:98). The module doc promises that the server cross-checks that hash against
the new outputs (htlc/predicate.rs:30); no handler does. `lock_pays_owner_iff` says exactly
which accepted replaces pay an owner of the lock all the same.
-/

namespace Webycash

section

variable {σ ρ δ : Type}

/-- The record the handler reads for input `j` is locked by `state`. -/
def ConsumesLocked (store : LedgerStore δ ρ) (htlcState : ρ → Option HtlcState) (ns : Namespace)
    (op : ReplaceOp ρ) (db : δ) (j : Nat) (state : HtlcState) : Prop :=
  ∃ found r, store.getTokens ns op.inputs db = .ok found ∧ j < op.inputs.length ∧ found[j]? = some (some r) ∧
    htlcState r = some state

/-- Some witness of the request brings a preimage of the commitment. -/
def SuppliesPreimage (hook : HookBody) (state : HtlcState) : Prop :=
  ∃ witnesses, hook.witnesses = .ok witnesses ∧
    ∃ w ∈ witnesses, w.witness.providedXHex.map sha256HexOfAscii = some state.committedHHex

/-- An inserted record carries the hash `owner`. -/
def Pays (H : HashRecord ρ) (op : ReplaceOp ρ) (owner : String) : Prop := ∃ o ∈ op.outputs, H.publicHash o = owner

/-- What the lock is for: the claim owner is paid for a preimage, or the refund owner after the
deadline. -/
def PaysOwner (H : HashRecord ρ) (hook : HookBody) (op : ReplaceOp ρ) (state : HtlcState) (now : Nat) : Prop :=
  (Pays H op state.claimOwnerHashHex ∧ SuppliesPreimage hook state) ∨
    (Pays H op state.refundOwnerHashHex ∧ state.refundAfterUnix ≤ now)

/-- One of the output tokens of the request hashes to `owner`. -/
def OutputFor (A : Asset σ ρ) (req : ReplaceRequest) (owner : String) : Prop :=
  ∃ parsed, req.body = .ok parsed ∧ ∃ t ∈ parsed.newWebcashes, ∃ s, A.parseSecret t = .ok s ∧
    A.publicHash s = owner

/-- The witness the hook picks for input `j` names the owner of an output. A request that fails
this pays an owner only by chance: the other path is open too, and an output is for its owner. -/
def CrossChecked (A : Asset σ ρ) (req : ReplaceRequest) (now j : Nat) (state : HtlcState) : Prop :=
  ∃ witnesses entry, req.hook.witnesses = .ok witnesses ∧
    witnesses.find? (fun w => w.inputIndex = j) = some entry ∧
    match executePredicate state entry.witness now with
    | .ok .claim => OutputFor A req entry.witness.outputOwnerHashHex ∨
        (OutputFor A req state.refundOwnerHashHex ∧ state.refundAfterUnix ≤ now)
    | .ok .refund => OutputFor A req entry.witness.outputOwnerHashHex ∨
        (OutputFor A req state.claimOwnerHashHex ∧ SuppliesPreimage req.hook state)
    | .error _ => False

variable {A : Asset σ ρ} {store : LedgerStore δ ρ} {env : RequestEnv} {req : ReplaceRequest} {db : δ}
  {ns : Namespace} {op : ReplaceOp ρ} {ins outs : List σ} {recs : List ρ} {state : HtlcState} {j : Nat}

/-- The inserted records carry the hashes of the output tokens, locked or not. -/
theorem Planned.pays_iff (h : Planned A store env req db ns op ins outs recs) (owner : String) :
    Pays A.codec op owner ↔ OutputFor A req owner := by
  obtain ⟨parsed, hbody, -, hparsed⟩ := h.tokens
  have hhashes : op.outputs.map A.codec.publicHash = outs.map A.publicHash := by
    have := congrArg (List.map Prod.fst) h.outputs
    simpa [List.map_map, Function.comp_def, HashRecord.face, A.record_hash] using this
  have hpays : Pays A.codec op owner ↔ owner ∈ outs.map A.publicHash := by
    rw [← hhashes, List.mem_map]
    rfl
  rw [hpays, List.mem_map]
  constructor
  · rintro ⟨s, hs, rfl⟩
    obtain ⟨t, ht, hp⟩ := mem_of_parsed hparsed hs
    exact ⟨parsed, hbody, t, ht, s, hp, rfl⟩
  · rintro ⟨parsed', hbody', t, ht, s, hp, rfl⟩
    obtain rfl : parsed = parsed' := by simpa [hbody] using hbody'
    exact ⟨s, parsed_of_mem hparsed ht hp, rfl⟩

/-- A locked input passed its predicate, under the first witness for its index. -/
theorem Planned.opened (h : Planned A store env req db ns op ins outs recs) {htlcState : ρ → Option HtlcState}
    (hv : validateHtlc htlcState req.hook recs env.serverNowUnix = .ok ())
    (hc : ConsumesLocked store htlcState ns op db j state) :
    ∃ witnesses entry, req.hook.witnesses = .ok witnesses ∧
      witnesses.find? (fun w => w.inputIndex = j) = some entry ∧
      ∃ path, executePredicate state entry.witness env.serverNowUnix = .ok path := by
  obtain ⟨found, r, hget, hj, hr, hlock⟩ := hc
  obtain ⟨found', hget', hreads⟩ := h.reads
  obtain rfl : found' = found := by simpa [hget'] using hget
  obtain ⟨r', he, hrec⟩ := hreads j hj _ hr
  cases he
  obtain ⟨hlt, rfl⟩ := List.getElem?_eq_some_iff.1 hrec
  obtain ⟨witnesses, hw, hall⟩ := validateHtlc_ok htlcState hv
  obtain ⟨entry, hentry, hpath⟩ := hall j hlt state hlock
  exact ⟨witnesses, entry, hw, hentry, hpath⟩

theorem supplies_of_find {hook : HookBody} {witnesses : List HtlcWitnessEntry} {entry : HtlcWitnessEntry} {now : Nat}
    (hw : hook.witnesses = .ok witnesses) (hf : witnesses.find? (fun w => w.inputIndex = j) = some entry)
    (he : executePredicate state entry.witness now = .ok .claim) : SuppliesPreimage hook state := by
  obtain ⟨⟨x, hx, hsha⟩, -⟩ := evaluate_claim he
  exact ⟨witnesses, hw, entry, List.mem_of_find?_eq_some hf, by rw [hx, Option.map_some, hsha]⟩

/-- **One lock, one plan.** -/
theorem Planned.paysOwner_iff (h : Planned A store env req db ns op ins outs recs) {htlcState : ρ → Option HtlcState}
    (hv : validateHtlc htlcState req.hook recs env.serverNowUnix = .ok ())
    (hc : ConsumesLocked store htlcState ns op db j state) :
    PaysOwner A.codec req.hook op state env.serverNowUnix ↔ CrossChecked A req env.serverNowUnix j state := by
  obtain ⟨witnesses, entry, hw, hf, path, hpath⟩ := h.opened hv hc
  have hcross : CrossChecked A req env.serverNowUnix j state ↔
      match path with
      | .claim => OutputFor A req entry.witness.outputOwnerHashHex ∨
          (OutputFor A req state.refundOwnerHashHex ∧ state.refundAfterUnix ≤ env.serverNowUnix)
      | .refund => OutputFor A req entry.witness.outputOwnerHashHex ∨
          (OutputFor A req state.claimOwnerHashHex ∧ SuppliesPreimage req.hook state) := by
    constructor
    · rintro ⟨witnesses', entry', hw', hf', hmatch⟩
      rw [hw] at hw'
      cases hw'
      rw [hf] at hf'
      cases hf'
      rw [hpath] at hmatch
      cases path <;> exact hmatch
    · intro hmatch
      refine ⟨witnesses, entry, hw, hf, ?_⟩
      rw [hpath]
      cases path <;> exact hmatch
  rw [hcross, PaysOwner, h.pays_iff, h.pays_iff]
  cases path with
  | claim =>
    have hx := supplies_of_find hw hf hpath
    rw [(evaluate_claim hpath).2]
    simp only [hx, and_true]
  | refund =>
    obtain ⟨hdue, howner⟩ := evaluate_refund hpath
    rw [howner]
    simp only [ge_iff_le] at hdue
    simp only [hdue, and_true]
    exact Or.comm

end

/-- **A lock pays one of its owners exactly when the request passes the promised cross-check.**
For both RGB flavours, every store and every accepted replace, at each locked input. -/
theorem lock_pays_owner_iff (chrono : Codec) (json : HtlcJson) (δ : Type) :
    (∀ (store : LedgerStore δ RgbFungibleRecord) (env : RequestEnv) (req : ReplaceRequest) (db : δ)
      (answer : String) (db' : δ),
      replace (rgbFungible chrono json) store env req db = (.ok answer, db') →
      ∀ ns op, planReplace (rgbFungible chrono json) store env req db = .ok (some (ns, op)) →
      ∀ j state, ConsumesLocked store RgbFungibleRecord.htlcState ns op db j state →
      (PaysOwner (rgbFungibleCodec chrono json) req.hook op state env.serverNowUnix ↔
        CrossChecked (rgbFungible chrono json).toAsset req env.serverNowUnix j state)) ∧
    (∀ (store : LedgerStore δ RgbCollectibleRecord) (env : RequestEnv) (req : ReplaceRequest) (db : δ)
      (answer : String)
      (db' : δ), replaceCollectible (rgbCollectible chrono json) collectibleSecrets store env req db =
      (.ok answer, db') →
      ∀ ns op, planReplaceCollectible (rgbCollectible chrono json) collectibleSecrets store env req db =
        .ok (some (ns, op)) →
      ∀ j state, ConsumesLocked store RgbCollectibleRecord.htlcState ns op db j state →
      (PaysOwner (rgbCollectibleCodec chrono json) req.hook op state env.serverNowUnix ↔
        CrossChecked (rgbCollectible chrono json).toAsset req env.serverNowUnix j state)) := by
  refine ⟨fun store env req db answer db' _ ns op hplan j state hc => ?_,
    fun store env req db answer db' _ ns op hplan j state hc => ?_⟩
  · obtain ⟨ins, outs, recs, hp, -⟩ := planReplace_ok hplan
    exact hp.paysOwner_iff hp.validated hc
  · obtain ⟨input, output, rec₀, hp⟩ := planReplaceCollectible_ok (fun _ => rfl) hplan
    exact hp.paysOwner_iff hp.validated hc

/-! ## A lock that pays a stranger -/

namespace Sample

def contract : ContractId := ⟨"rgb20-usdc"⟩
def issuer : PgpFingerprint := ⟨"aabbccddeeff00112233445566778899aabbccdd"⟩

/-- An RGB20 token worth 1. -/
def rgbToken (c : Char) : String := token "1" c ++ ":" ++ contract.id ++ ":" ++ issuer.hex

/-- Pay the holder of `c` for a preimage of `e…e`'s hash, the holder of `d` after an hour. -/
def lockRequest : LockRequest := ⟨sha256HexOfAscii (hex 'e'), 3600, hex 'c', hex 'd'⟩

def lockState : HtlcState := lockRequest.stampIntoState 0

def rgb : SplittableAsset SecretIssued RgbFungibleRecord := rgbFungible .atEpoch (.ofState lockState)

def rgbStore : LedgerStore Redis.Db RgbFungibleRecord :=
  Redis.store (rgb.storeConfig .namespacedKeys .atEpoch "service error") ⟨0⟩

/-- The ledger after a token was mined and moved under the lock. -/
def lockedLedger : Redis.Db :=
  let mined := (miningReport rgb (serveConfig (rgbToken 'a')) rgbStore env
    (.ok ⟨preimageOf (rgbToken 'a'), some true⟩)
    .empty).2
  (replace rgb rgbStore env ⟨.ok ⟨[rgbToken 'a'], [rgbToken 'b'], some true⟩,
    ⟨.ok [], .ok [⟨0, lockRequest⟩]⟩⟩ mined).2

/-- Open the lock with the preimage, for the claim owner, and pay the holder of `c`. -/
def claimTo (c : Char) : ReplaceRequest :=
  ⟨.ok ⟨[rgbToken 'b'], [rgbToken c], some true⟩,
    ⟨.ok [⟨0, ⟨some (hex 'e'), sha256HexOfAscii (hex 'c')⟩⟩], .ok []⟩⟩

/-- The op such a request hands over. -/
def claimOp (c : Char) : ReplaceOp RgbFungibleRecord where
  inputs := [sha256HexOfAscii (hex 'b')]
  outputs := [⟨sha256HexOfAscii (hex c), I64.wrap 100000000, false, ⟨0⟩, none, .replaced, contract,
    issuer, none⟩]
  record := ⟨"9f1c", [sha256HexOfAscii (hex 'b')], [sha256HexOfAscii (hex c)], I64.wrap 100000000, ⟨0⟩⟩

/-- The record under the lock. -/
def lockedRecord : RgbFungibleRecord :=
  ⟨sha256HexOfAscii (hex 'b'), I64.wrap 100000000, false, ⟨0⟩, none, .replaced, contract, issuer,
    some lockState⟩

end Sample

open Sample

/-- The request is accepted, hands over its op, and consumes the locked record. -/
def ClaimGoesThrough (c : Char) : Prop :=
  (replace rgb rgbStore env (claimTo c) lockedLedger).1 = success ∧
  planReplace rgb rgbStore env (claimTo c) lockedLedger = .ok (some (.scopedTo contract issuer, claimOp c)) ∧
  rgbStore.getTokens (.scopedTo contract issuer) (claimOp c).inputs lockedLedger = .ok [some lockedRecord]

/-- A witness naming the claim owner opens the lock; the output is for somebody else. -/
theorem claim_pays_stranger : ClaimGoesThrough 'f' ∧
    ¬ PaysOwner rgb.codec (claimTo 'f').hook (claimOp 'f') lockState env.serverNowUnix := by
  have hf : ∀ owner ∈ [lockState.claimOwnerHashHex, lockState.refundOwnerHashHex],
      ¬ Pays rgb.codec (claimOp 'f') owner := by
    unfold Pays
    decide +kernel
  refine ⟨?_, ?_⟩
  · unfold ClaimGoesThrough
    decide +kernel
  · rintro (⟨h, -⟩ | ⟨h, -⟩)
    · exact hf _ (by simp) h
    · exact hf _ (by simp) h

/-- The same lock opened by its claim owner, who is paid. -/
theorem claim_pays_owner : ClaimGoesThrough 'c' ∧
    CrossChecked rgb.toAsset (claimTo 'c') env.serverNowUnix 0 lockState ∧
    PaysOwner rgb.codec (claimTo 'c').hook (claimOp 'c') lockState env.serverNowUnix := by
  have hgo : ClaimGoesThrough 'c' := by
    unfold ClaimGoesThrough
    decide +kernel
  have hpath : executePredicate lockState ⟨some (hex 'e'), sha256HexOfAscii (hex 'c')⟩ env.serverNowUnix =
      .ok .claim := by
    decide +kernel
  have hparse : rgb.parseSecret (rgbToken 'c') = .ok ⟨⟨I64.wrap 100000000⟩, hex 'c', contract, issuer⟩ :=
    by decide +kernel
  have hout : OutputFor rgb.toAsset (claimTo 'c') (sha256HexOfAscii (hex 'c')) :=
    ⟨_, rfl, rgbToken 'c', List.mem_singleton_self _, _, hparse, rfl⟩
  have hcross : CrossChecked rgb.toAsset (claimTo 'c') env.serverNowUnix 0 lockState := by
    refine ⟨_, ⟨0, ⟨some (hex 'e'), sha256HexOfAscii (hex 'c')⟩⟩, rfl, rfl, ?_⟩
    rw [hpath]
    exact Or.inl hout
  have hpays := (lock_pays_owner_iff .atEpoch (.ofState lockState) Redis.Db).1 rgbStore env
    (claimTo 'c') lockedLedger _ _
    (answered hgo.1) (.scopedTo contract issuer) (claimOp 'c') hgo.2.1 0 lockState
    ⟨[some lockedRecord], lockedRecord, hgo.2.2, Nat.one_pos, rfl, rfl⟩
  exact And.intro hgo (And.intro hcross (hpays.2 hcross))

end Webycash
