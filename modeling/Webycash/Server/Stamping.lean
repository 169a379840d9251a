import Webycash.Asset.Predicate
import Webycash.Lib.HexText
import Webycash.Server.Htlc
import Webycash.Storage.RoundTrip
/-!
# Locks that a request asks for

`augment_output_records` stamps the outputs of a replace that `htlc_locks` names: the last entry for
an output counts, an entry for an output that is not there ends the request
(`stampLocks_ok_iff`). The deadline is the server's clock plus the delta, so a refund never opens
early.

The commitment is stored as it came. It may be no digest at all, or one in upper case, and the
predicate compares it with what `hex::encode` writes: `locks_open_iff` (Server/Locks) says which accepted
requests lock value that its claim owner can get.
-/

namespace Webycash

/-! ## What is stamped -/

section

variable {ρ : Type} {lock : HtlcState → ρ → ρ} {locks : List HtlcLockEntry} {recs recs' : List ρ}
  {now total i : Nat}

/-- The entry that counts for output `i`. -/
def lastLock (locks : List HtlcLockEntry) (i : Nat) : Option LockRequest :=
  (locks.reverse.find? (·.outputIndex = i)).map HtlcLockEntry.request

/-- The records with the locks that were asked for. -/
def stamped (lock : HtlcState → ρ → ρ) (locks : List HtlcLockEntry) (now : Nat) (recs : List ρ) : List ρ :=
  recs.mapIdx fun i r => ((lastLock locks i).map fun req => lock (req.stampIntoState now) r).getD r

theorem lastLock_cons (entry : HtlcLockEntry) (locks : List HtlcLockEntry) (i : Nat) :
    lastLock (entry :: locks) i = (lastLock locks i).or (if entry.outputIndex = i then some entry.request
      else none) := by
  rw [lastLock, List.reverse_cons, List.find?_append, lastLock]
  cases locks.reverse.find? (·.outputIndex = i) with
  | some e => rfl
  | none => by_cases h : entry.outputIndex = i <;> simp [h]

theorem lastLock_mem {req : LockRequest} (h : lastLock locks i = some req) : ∃ e ∈ locks, e.outputIndex = i ∧
    e.request = req := by
  obtain ⟨e, he, rfl⟩ := Option.map_eq_some_iff.1 h
  have hi : decide (e.outputIndex = i) = true :=
    List.find?_some (p := fun e : HtlcLockEntry => decide (e.outputIndex = i)) he
  exact ⟨e, List.mem_reverse.1 (List.mem_of_find?_eq_some he), of_decide_eq_true hi, rfl⟩

theorem getElem?_stamped : (stamped lock locks now recs)[i]? =
    recs[i]?.map fun r => ((lastLock locks i).map fun req => lock (req.stampIntoState now) r).getD r := by
  rw [stamped, List.getElem?_mapIdx]

/-- The first entry, where later ones overwrite it. -/
theorem stamped_cons (hlock : ∀ s s' r, lock s (lock s' r) = lock s r) {entry : HtlcLockEntry} {rec₀ : ρ}
    (hrec : recs[entry.outputIndex]? = some rec₀) :
    stamped lock (entry :: locks) now recs =
      stamped lock locks now (recs.set entry.outputIndex (lock (entry.request.stampIntoState now) rec₀)) := by
  refine List.ext_getElem? fun i => ?_
  rw [getElem?_stamped, getElem?_stamped, lastLock_cons, List.getElem?_set]
  by_cases hi : entry.outputIndex = i
  · subst hi
    rw [if_pos rfl, if_pos rfl, if_pos (List.getElem?_eq_some_iff.1 hrec).1, hrec]
    cases lastLock locks entry.outputIndex with
    | none => rfl
    | some req => exact congrArg some (hlock _ _ _).symm
  · rw [if_neg hi, if_neg hi, Option.or_none]

/-- **The loop over the entries**: it fails exactly for an output that is not there. -/
theorem stampLocks_ok_iff (hlock : ∀ s s' r, lock s (lock s' r) = lock s r) :
    ∀ {locks : List HtlcLockEntry} {recs recs' : List ρ},
    stampLocks lock now total locks recs = .ok recs' ↔ (∀ e ∈ locks, e.outputIndex < recs.length) ∧
      recs' = stamped lock locks now recs
  | [], recs, recs' => by
    have hnil : stamped lock [] now recs = recs := List.ext_getElem? fun i => by
      rw [getElem?_stamped]
      exact Option.map_id'
    rw [stampLocks, hnil, Except.ok.injEq, eq_comm]
    exact (and_iff_right nofun).symm
  | entry :: locks, recs, recs' => by
    cases hrec : recs[entry.outputIndex]? with
    | none =>
      simp only [stampLocks, hrec]
      refine iff_of_false nofun fun h => ?_
      have hlt := h.1 entry List.mem_cons_self
      rw [List.getElem?_eq_getElem hlt] at hrec
      cases hrec
    | some rec₀ =>
      have hlt := (List.getElem?_eq_some_iff.1 hrec).1
      simp only [stampLocks, hrec]
      rw [stampLocks_ok_iff hlock, ← stamped_cons hlock hrec, List.length_set, List.forall_mem_cons]
      exact and_congr_left fun _ => (and_iff_right hlt).symm

/-- `augment_output_records` does what `htlc_locks` says, and nothing else. -/
def StampsAsAsked (lock : HtlcState → ρ → ρ)
    (augment : HookBody → List ρ → Nat → Except AssetError (List ρ)) : Prop :=
  ∀ body recs now recs', augment body recs now = .ok recs' ↔
    ∃ locks, body.locks = .ok locks ∧ (∀ e ∈ locks, e.outputIndex < recs.length) ∧
      recs' = stamped lock locks now recs

theorem augmentHtlc_stamps (hlock : ∀ s s' r, lock s (lock s' r) = lock s r) :
    StampsAsAsked lock (augmentHtlc lock) := by
  intro body recs now recs'
  unfold augmentHtlc
  cases hbody : body.locks with
  | error e => exact iff_of_false nofun fun ⟨_, h, _⟩ => nomatch h
  | ok locks =>
    rw [stampLocks_ok_iff hlock]
    constructor
    · exact fun h => ⟨locks, rfl, h⟩
    · rintro ⟨locks', heq, h⟩
      cases heq
      exact h

end

/-! ## What a request does with them -/

section

variable {σ ρ δ : Type} {lock : HtlcState → ρ → ρ} {env : RequestEnv} {req : ReplaceRequest}
  {store : LedgerStore δ ρ} {db : δ} {ns : Namespace} {op : ReplaceOp ρ}

/-- The outputs of a plan are the records built from the output tokens, with the locks. -/
def StampedPlan (lock : HtlcState → ρ → ρ) (A : Asset σ ρ) (env : RequestEnv) (req : ReplaceRequest)
    (op : ReplaceOp ρ) : Prop :=
  ∃ parsed outs locks, req.body = .ok parsed ∧
    List.Forall₂ (fun t s => A.parseSecret t = .ok s) parsed.newWebcashes outs ∧
    req.hook.locks = .ok locks ∧ (∀ e ∈ locks, e.outputIndex < outs.length) ∧
    op.outputs = stamped lock locks env.serverNowUnix (outs.map (A.recordFromSecret env.now · .replaced))

/-- The store is written only with outputs that carry the locks. -/
def WritesStamped (lock : HtlcState → ρ → ρ) (A : Asset σ ρ) (store : LedgerStore δ ρ) (env : RequestEnv)
    (req : ReplaceRequest) (db : δ) (result : Response × δ) : Prop :=
  result.2 = db ∨ ∃ ns op, StampedPlan lock A env req op ∧ result.2 = (store.batchReplace ns [op] db).2

theorem planReplace_stamped {A : SplittableAsset σ ρ} (hA : StampsAsAsked lock A.augmentOutputRecords)
    (h : planReplace A store env req db = .ok (some (ns, op))) : StampedPlan lock A.toAsset env req op := by
  unfold planReplace at h
  obtain ⟨parsed, hbody, h⟩ := Except.bind_ok_iff.1 h
  obtain ⟨_, -, h⟩ := Except.bind_ok_iff.1 h
  split at h
  · cases h
  obtain ⟨⟨ins, inputTotal⟩, -, h⟩ := Except.bind_ok_iff.1 h
  obtain ⟨⟨outs, outputTotal⟩, houts, h⟩ := Except.bind_ok_iff.1 h
  obtain ⟨_, -, h⟩ := Except.bind_ok_iff.1 h
  obtain ⟨_, -, h⟩ := Except.bind_ok_iff.1 h
  obtain ⟨found, -, h⟩ := Except.bind_ok_iff.1 h
  obtain ⟨recs, -, h⟩ := Except.bind_ok_iff.1 h
  obtain ⟨_, -, h⟩ := Except.bind_ok_iff.1 h
  obtain ⟨outputs, haug, h⟩ := Except.bind_ok_iff.1 h
  cases h
  obtain ⟨locks, hlocks, hrange, rfl⟩ := (hA _ _ _ _).1 (orElse_ok_iff.1 haug)
  exact ⟨parsed, outs, locks, hbody, (sumTokens_ok houts).2, hlocks, by simpa using hrange, rfl⟩

theorem planReplaceCollectible_stamped {A : CollectibleAsset σ ρ} {I : IssuedAsset σ}
    (hA : StampsAsAsked lock A.augmentOutputRecords)
    (h : planReplaceCollectible A I store env req db = .ok (some (ns, op))) :
    StampedPlan lock A.toAsset env req op := by
  unfold planReplaceCollectible at h
  obtain ⟨parsed, hbody, h⟩ := Except.bind_ok_iff.1 h
  obtain ⟨_, -, h⟩ := Except.bind_ok_iff.1 h
  split at h
  swap
  · cases h
  rename_i tokenIn tokenOut htin htout
  obtain ⟨input, -, h⟩ := Except.bind_ok_iff.1 h
  obtain ⟨output, hout, h⟩ := Except.bind_ok_iff.1 h
  obtain ⟨_, -, h⟩ := Except.bind_ok_iff.1 h
  obtain ⟨_, -, h⟩ := Except.bind_ok_iff.1 h
  obtain ⟨found, -, h⟩ := Except.bind_ok_iff.1 h
  obtain ⟨rec₀, -, h⟩ := Except.bind_ok_iff.1 h
  obtain ⟨_, -, h⟩ := Except.bind_ok_iff.1 h
  obtain ⟨outputs, haug, h⟩ := Except.bind_ok_iff.1 h
  cases h
  obtain ⟨locks, hlocks, hrange, rfl⟩ := (hA _ _ _ _).1 (orElse_ok_iff.1 haug)
  exact ⟨parsed, [output], locks, hbody, htout ▸ .cons (orElse_ok_iff.1 hout) .nil, hlocks, hrange, rfl⟩

theorem commitReplace_stamped {A : Asset σ ρ} {noResult : String}
    {plan : Except String (Option (Namespace × ReplaceOp ρ))}
    (h : ∀ ns op, plan = .ok (some (ns, op)) → StampedPlan lock A env req op) :
    WritesStamped lock A store env req db (commitReplace store noResult plan db) := by
  cases plan with
  | error e => exact .inl rfl
  | ok plan =>
    cases plan with
    | none => exact .inl rfl
    | some planned => exact .inr ⟨planned.1, planned.2, h _ _ rfl, rfl⟩

end

/-- A refund does not open before the delta has passed on the server's clock. -/
theorem stamp_refund_late (req : LockRequest) (lockedAt : Nat) (witness : HtlcWitness) (now : Nat)
    (h : evaluate (req.stampIntoState lockedAt) witness now = .ok .refund) :
    min (lockedAt + req.refundAfterSecondsFromNow) (2 ^ 64 - 1) ≤ now := (evaluate_refund h).1

theorem rgbFungible_stamps (chrono : Codec) (json : HtlcJson) :
    StampsAsAsked RgbFungibleRecord.lock (rgbFungible chrono json).augmentOutputRecords :=
  augmentHtlc_stamps fun _ _ _ => rfl

theorem rgbCollectible_stamps (chrono : Codec) (json : HtlcJson) :
    StampsAsAsked RgbCollectibleRecord.lock (rgbCollectible chrono json).augmentOutputRecords :=
  augmentHtlc_stamps fun _ _ _ => rfl

/-- **Locks are stamped where they were asked for, and refunds never open early.** For both RGB
flavours, every store and every request. -/
theorem locks_stamped (chrono : Codec) (json : HtlcJson) (δ : Type) :
    (StampsAsAsked RgbFungibleRecord.lock (rgbFungible chrono json).augmentOutputRecords ∧
      ∀ (store : LedgerStore δ RgbFungibleRecord) (env : RequestEnv) (req : ReplaceRequest) (db : δ),
        WritesStamped RgbFungibleRecord.lock (rgbFungible chrono json).toAsset store env req db
          (replace (rgbFungible chrono json) store env req db)) ∧
    (StampsAsAsked RgbCollectibleRecord.lock (rgbCollectible chrono json).augmentOutputRecords ∧
      ∀ (store : LedgerStore δ RgbCollectibleRecord) (env : RequestEnv) (req : ReplaceRequest) (db : δ),
        WritesStamped RgbCollectibleRecord.lock (rgbCollectible chrono json).toAsset store env req db
          (replaceCollectible (rgbCollectible chrono json) collectibleSecrets store env req db)) ∧
    ∀ (req : LockRequest) (lockedAt : Nat) (witness : HtlcWitness) (now : Nat),
      evaluate (req.stampIntoState lockedAt) witness now = .ok .refund →
        min (lockedAt + req.refundAfterSecondsFromNow) (2 ^ 64 - 1) ≤ now := by
  have hfungible := rgbFungible_stamps chrono json
  have hcollectible := rgbCollectible_stamps chrono json
  exact ⟨⟨hfungible, fun store env req db => commitReplace_stamped fun ns op h =>
    planReplace_stamped hfungible h⟩,
    ⟨hcollectible, fun store env req db => commitReplace_stamped fun ns op h =>
      planReplaceCollectible_stamped hcollectible h⟩,
    stamp_refund_late⟩

/-! ## Locks that open -/

/-- A text denotes the bytes that its hex digits, of either case, spell. -/
def Denotes (text : String) (bytes : List UInt8) : Prop := Hex.decode (asBytes text) = .ok bytes

/-- A commitment is the digest of some preimage's text. -/
def Commits (committed xHex : String) : Prop :=
  (∃ X, Denotes xHex X) ∧ Denotes committed (Sha256.digest (asBytes xHex))

/-- The commitment of a lock denotes a digest. -/
def LockRequest.IsDigest (req : LockRequest) : Prop :=
  ∃ digest, Denotes req.committedHHex digest ∧ digest.length = 32

/-- The stored lock pays the claim owner of the request at every clock, for every preimage. -/
def LockRequest.OpensWith (req : LockRequest) (state : HtlcState) : Prop :=
  ∀ xHex, Commits req.committedHHex xHex → ∀ currentUnix,
    evaluate state ⟨some xHex, sha256HexOfAscii req.claimOwnerSecretHex⟩ currentUnix = .ok .claim

/-- A commitment that some preimage opens is written in lower case. -/
def LockRequest.WellSpelled (req : LockRequest) : Prop :=
  (∃ xHex, Commits req.committedHHex xHex) → Hex.LowerCase (asBytes req.committedHHex)

theorem Denotes.unique {text : String} {bytes bytes' : List UInt8} (h : Denotes text bytes) (h' : Denotes text bytes') :
    bytes = bytes' := Except.ok.inj (h.symm.trans h')

/-- **What the comparison of texts accepts**: the digest, in lower case. -/
theorem opens_iff {committed xHex : String} (h : Denotes committed (Sha256.digest (asBytes xHex))) :
    sha256HexOfAscii xHex = committed ↔ Hex.LowerCase (asBytes committed) := Hex.encode_eq_iff h

/-- The stamp of a request opens for its claim owner exactly when it is well spelled. -/
theorem LockRequest.opensWith_iff (req : LockRequest) (lockedAt : Nat) :
    req.OpensWith (req.stampIntoState lockedAt) ↔ req.WellSpelled := by
  constructor
  · rintro h ⟨xHex, hcommits⟩
    obtain ⟨⟨x, hx, hopen⟩, -⟩ := evaluate_claim (h xHex hcommits 0)
    cases hx
    exact (opens_iff hcommits.2).1 hopen
  · intro h xHex hcommits currentUnix
    obtain ⟨X, hX⟩ := hcommits.1
    rw [evaluate_right rfl hX ((opens_iff hcommits.2).2 (h ⟨xHex, hcommits⟩))]
    exact if_pos rfl

section

variable {ρ : Type} {lock : HtlcState → ρ → ρ} {json : HtlcJson} {H : HashRecord ρ}
  {locks : List HtlcLockEntry} {now : Nat} {op : ReplaceOp ρ} {req : LockRequest} {state : HtlcState}

/-- Both stored forms of a record carry the lock. -/
def StoredLock (H : HashRecord ρ) (json : HtlcJson) (r : ρ) (state : HtlcState) : Prop :=
  lockOfFields json (H.fieldMap r) = some state ∧ lockOfDoc (H.toJson r) = some state

/-- Every lock an op brings into the store opens, and every entry committed to a digest. -/
def LocksOpen (H : HashRecord ρ) (json : HtlcJson) (locks : List HtlcLockEntry) (op : ReplaceOp ρ) : Prop :=
  (∀ e ∈ locks, e.request.IsDigest) ∧
    ∀ i r req, op.outputs[i]? = some r → lastLock locks i = some req →
      ∃ state, StoredLock H json r state ∧ req.OpensWith state

/-- The request's commitments are digests, in lower case where they can be opened at all. -/
def CommitmentsSpelled (locks : List HtlcLockEntry) : Prop :=
  (∀ e ∈ locks, e.request.IsDigest) ∧ ∀ i req, lastLock locks i = some req → req.WellSpelled

/-- serde reads back the locks that the request asks for. -/
def StampsRead (json : HtlcJson) (locks : List HtlcLockEntry) (now : Nat) : Prop :=
  ∀ e ∈ locks, json.ReadsLock (some (e.request.stampIntoState now))

/-- A stamped lock is stored as stamped. -/
def KeepsLock (lock : HtlcState → ρ → ρ) (H : HashRecord ρ) (json : HtlcJson) : Prop :=
  ∀ state r, json.ReadsLock (some state) → LockValid (some state) → StoredLock H json (lock state r) state

theorem stamp_lockValid (req : LockRequest) (lockedAt : Nat) : LockValid (some (req.stampIntoState lockedAt)) := by
  intro s h
  cases h
  show saturatingAddU64 lockedAt req.refundAfterSecondsFromNow < _
  unfold saturatingAddU64
  omega

theorem StampedPlan.locksOpen_iff {σ : Type} {A : Asset σ ρ} {env : RequestEnv} {request : ReplaceRequest}
    {op : ReplaceOp ρ} (hkeeps : KeepsLock lock A.codec json) (hlocks : request.hook.locks = .ok locks)
    (hread : StampsRead json locks env.serverNowUnix)
    (h : StampedPlan lock A env request op) : LocksOpen A.codec json locks op ↔ CommitmentsSpelled locks := by
  obtain ⟨parsed, outs, locks', -, -, hlocks', hrange, hop⟩ := h
  rw [hlocks] at hlocks'
  cases hlocks'
  -- The record under an entry that counts holds the stamp of that entry.
  have hstored : ∀ i req, lastLock locks i = some req → ∃ r, op.outputs[i]? = some r ∧
      StoredLock A.codec json r (req.stampIntoState env.serverNowUnix) := by
    intro i req hlast
    obtain ⟨e, he, rfl, rfl⟩ := lastLock_mem hlast
    have hlt := hrange e he
    refine ⟨_, ?_, hkeeps _ (A.recordFromSecret env.now outs[e.outputIndex] .replaced) (hread e he)
      (stamp_lockValid _ _)⟩
    rw [hop, getElem?_stamped, List.getElem?_map, List.getElem?_eq_getElem hlt, hlast]
    rfl
  refine and_congr_right fun _ => ⟨fun h i req hlast => ?_, fun h i r req hr hlast => ?_⟩
  · obtain ⟨r, hr, hstore⟩ := hstored i req hlast
    obtain ⟨state, hstate, hopens⟩ := h i r req hr hlast
    rw [← Option.some.inj (hstore.1.symm.trans hstate.1)] at hopens
    exact (req.opensWith_iff _).1 hopens
  · obtain ⟨r', hr', hstore⟩ := hstored i req hlast
    obtain rfl : r' = r := Option.some.inj (hr'.symm.trans hr)
    exact ⟨_, hstore, (req.opensWith_iff _).2 (h i req hlast)⟩

end

theorem rgbFungible_keepsLock (chrono : Codec) (json : HtlcJson) :
    KeepsLock RgbFungibleRecord.lock (rgbFungibleCodec chrono json) json := by
  intro state r hread hvalid
  have hfields : lockOfFields json ((rgbFungibleCodec chrono json).fieldMap (r.lock state)) = some state :=
    (read_issuedTail hread fun _ _ => rfl).2.2
  have hamount : ∀ n ∈ [("amount_wats", Json.num r.amountWats.val)].map Prod.fst, n = "amount_wats" := by simp
  have hdoc : docHtlc ((rgbFungibleCodec chrono json).toJson (r.lock state)) = some (some state) :=
    (read_issuedDoc hvalid hamount rfl).2.2
  exact ⟨hfields, by rw [lockOfDoc, hdoc, Option.getD_some]⟩

theorem rgbCollectible_keepsLock (chrono : Codec) (json : HtlcJson) :
    KeepsLock RgbCollectibleRecord.lock (rgbCollectibleCodec chrono json) json := by
  intro state r hread hvalid
  have hfields : lockOfFields json ((rgbCollectibleCodec chrono json).fieldMap (r.lock state)) = some state :=
    (read_issuedTail hread fun _ _ => rfl).2.2
  have hamount : ∀ n ∈ ([] : List (String × Json)).map Prod.fst, n = "amount_wats" := by simp
  have hdoc : docHtlc ((rgbCollectibleCodec chrono json).toJson (r.lock state)) = some (some state) :=
    (read_issuedDoc hvalid hamount rfl).2.2
  exact ⟨hfields, by rw [lockOfDoc, hdoc, Option.getD_some]⟩

/-- **Every accepted lock opens for its claim owner exactly when its commitment is spelled in lower
case.** For both RGB flavours, every store and every accepted replace. -/
theorem locks_open_iff (chrono : Codec) (json : HtlcJson) (δ : Type) :
    (∀ (store : LedgerStore δ RgbFungibleRecord) (env : RequestEnv) (req : ReplaceRequest) (db : δ)
      (answer : String) (db' : δ),
      replace (rgbFungible chrono json) store env req db = (.ok answer, db') →
      ∀ ns op, planReplace (rgbFungible chrono json) store env req db = .ok (some (ns, op)) →
      ∀ locks, req.hook.locks = .ok locks → StampsRead json locks env.serverNowUnix →
      (LocksOpen (rgbFungibleCodec chrono json) json locks op ↔ CommitmentsSpelled locks)) ∧
    (∀ (store : LedgerStore δ RgbCollectibleRecord) (env : RequestEnv) (req : ReplaceRequest) (db : δ)
      (answer : String)
      (db' : δ), replaceCollectible (rgbCollectible chrono json) collectibleSecrets store env req db =
      (.ok answer, db') →
      ∀ ns op, planReplaceCollectible (rgbCollectible chrono json) collectibleSecrets store env req db =
        .ok (some (ns, op)) →
      ∀ locks, req.hook.locks = .ok locks → StampsRead json locks env.serverNowUnix →
      (LocksOpen (rgbCollectibleCodec chrono json) json locks op ↔ CommitmentsSpelled locks)) := by
  refine ⟨fun store env req db answer db' _ ns op hplan locks hlocks hread => ?_,
    fun store env req db answer db' _ ns op hplan locks hlocks hread => ?_⟩
  · have hstamped := planReplace_stamped (rgbFungible_stamps chrono json) hplan
    exact hstamped.locksOpen_iff (rgbFungible_keepsLock chrono json) hlocks hread
  · have hstamped := planReplaceCollectible_stamped (rgbCollectible_stamps chrono json) hplan
    exact hstamped.locksOpen_iff (rgbCollectible_keepsLock chrono json) hlocks hread

/-! ## A lock in upper case -/

namespace Sample

/-- The commitment of `lockRequest`, in the spelling `committed`. -/
def spelledRequest (committed : String) : LockRequest := { lockRequest with committedHHex := committed }

/-- The digest of `e…e`, in upper case. -/
def upperDigest : String := "ADD5B41FC5A881FC87EF4640581ED5FF7FE5EAB39640B3A3E6E8B90F0AA71730"

def lowerDigest : String := "add5b41fc5a881fc87ef4640581ed5ff7fe5eab39640b3a3e6e8b90f0aa71730"

/-- Codec and serde for the lock of one request. -/
def spelledRgb (committed : String) : SplittableAsset SecretIssued RgbFungibleRecord :=
  rgbFungible .atEpoch (.ofState ((spelledRequest committed).stampIntoState 0))

def spelledStore (committed : String) : LedgerStore Redis.Db RgbFungibleRecord :=
  Redis.store ((spelledRgb committed).storeConfig .namespacedKeys .atEpoch "service error") ⟨0⟩

def spelledLocks (committed : String) : List HtlcLockEntry := [⟨0, spelledRequest committed⟩]

/-- Move the mined token under the lock. -/
def lockIt (committed : String) : ReplaceRequest :=
  ⟨.ok ⟨[rgbToken 'a'], [rgbToken 'b'], some true⟩, ⟨.ok [], .ok (spelledLocks committed)⟩⟩

def minedLedger (committed : String) : Redis.Db :=
  (miningReport (spelledRgb committed) (serveConfig (rgbToken 'a')) (spelledStore committed) env
    (.ok ⟨preimageOf (rgbToken 'a'), some true⟩) .empty).2

def lockOp (committed : String) : ReplaceOp RgbFungibleRecord where
  inputs := [sha256HexOfAscii (hex 'a')]
  outputs := [⟨sha256HexOfAscii (hex 'b'), I64.wrap 100000000, false, ⟨0⟩, none, .replaced, contract, issuer,
    some ((spelledRequest committed).stampIntoState 0)⟩]
  record := ⟨"9f1c", [sha256HexOfAscii (hex 'a')], [sha256HexOfAscii (hex 'b')], I64.wrap 100000000, ⟨0⟩⟩

/-- The request is accepted and hands over its op. -/
def LockGoesThrough (committed : String) : Prop :=
  (replace (spelledRgb committed) (spelledStore committed) env (lockIt committed) (minedLedger committed)).1 =
    success ∧
  planReplace (spelledRgb committed) (spelledStore committed) env (lockIt committed) (minedLedger committed) =
    .ok (some (.scopedTo contract issuer, lockOp committed))

end Sample

open Sample

/-- The digest of `e…e`, in either spelling. -/
theorem commits_upperDigest : Commits upperDigest (hex 'e') := by
  refine ⟨⟨_, rfl⟩, ?_⟩
  unfold Denotes
  decide +kernel

theorem commits_lowerDigest : Commits lowerDigest (hex 'e') := by
  refine ⟨⟨_, rfl⟩, ?_⟩
  unfold Denotes
  decide +kernel

/-- A commitment in upper case is accepted, stamped and stored, and the right preimage does not open it. -/
theorem upper_case_lock_frozen : LockGoesThrough upperDigest ∧
    ¬ LocksOpen (spelledRgb upperDigest).codec (.ofState ((spelledRequest upperDigest).stampIntoState 0))
      (spelledLocks upperDigest) (lockOp upperDigest) := by
  refine ⟨?_, ?_⟩
  · unfold LockGoesThrough
    decide +kernel
  · rintro ⟨-, h⟩
    obtain ⟨state, hstored, hopens⟩ := h 0 _ (spelledRequest upperDigest) rfl rfl
    have hkept := rgbFungible_keepsLock .atEpoch (.ofState ((spelledRequest upperDigest).stampIntoState 0))
      ((spelledRequest upperDigest).stampIntoState 0)
      ⟨sha256HexOfAscii (hex 'b'), I64.wrap 100000000, false, ⟨0⟩, none, .replaced, contract, issuer, none⟩
      (HtlcJson.readsLock_ofState _) (stamp_lockValid _ _)
    rw [← Option.some.inj (hkept.1.symm.trans hstored.1)] at hopens
    obtain ⟨⟨x, hx, hopen⟩, -⟩ := evaluate_claim (hopens (hex 'e') commits_upperDigest 0)
    cases hx
    exact absurd hopen (by decide +kernel)

/-- The same lock in lower case. -/
theorem lower_case_lock_opens : LockGoesThrough lowerDigest ∧ CommitmentsSpelled (spelledLocks lowerDigest) ∧
    LocksOpen (spelledRgb lowerDigest).codec (.ofState ((spelledRequest lowerDigest).stampIntoState 0))
      (spelledLocks lowerDigest) (lockOp lowerDigest) := by
  have hgo : LockGoesThrough lowerDigest := by
    unfold LockGoesThrough
    decide +kernel
  have hread : StampsRead (.ofState ((spelledRequest lowerDigest).stampIntoState 0))
      (spelledLocks lowerDigest) env.serverNowUnix := by
    intro e he
    obtain rfl := List.mem_singleton.1 he
    exact HtlcJson.readsLock_ofState _
  have hspelled : CommitmentsSpelled (spelledLocks lowerDigest) := by
    refine ⟨fun e he => ?_, fun i req hlast _ => ?_⟩
    · obtain rfl := List.mem_singleton.1 he
      exact ⟨_, commits_lowerDigest.2, by decide +kernel⟩
    · obtain ⟨e, he, -, rfl⟩ := lastLock_mem hlast
      obtain rfl := List.mem_singleton.1 he
      show Hex.LowerCase (asBytes lowerDigest)
      decide +kernel
  have hopen := (locks_open_iff .atEpoch (.ofState ((spelledRequest lowerDigest).stampIntoState 0)) Redis.Db).1
    (spelledStore lowerDigest) env (lockIt lowerDigest) (minedLedger lowerDigest) _ _ (answered hgo.1)
      (.scopedTo contract issuer)
    (lockOp lowerDigest) hgo.2 (spelledLocks lowerDigest) rfl hread
  exact And.intro hgo (And.intro hspelled (hopen.2 hspelled))

end Webycash
