import Webycash.Core.Asset
import Webycash.Lib.Json
/-!
# HTLC locks (`asset-rgb/src/htlc`)

| here | there |
| --- | --- |
| `HtlcState`, `HtlcWitness`, `LockRequest` | htlc/state.rs:24, htlc/state.rs:55, htlc/state.rs:103 |
| `LockRequest.stampIntoState`              | htlc/state.rs:124 |
| `evaluate`, `executePredicate`            | htlc/predicate.rs:98, htlc/vm.rs:14 |
| `validateHtlc`, `augmentHtlc`             | `ReplaceHook` of both RGB flavours (asset-rgb/src/lib.rs:469, :581) |
-/

namespace Webycash

structure HtlcState where
  committedHHex : String
  refundAfterUnix : Nat
  claimOwnerHashHex : String
  refundOwnerHashHex : String
  deriving DecidableEq

structure HtlcWitness where
  providedXHex : Option String
  outputOwnerHashHex : String
  deriving DecidableEq

structure LockRequest where
  committedHHex : String
  refundAfterSecondsFromNow : Nat
  claimOwnerSecretHex : String
  refundOwnerSecretHex : String
  deriving DecidableEq

/-- Deadline from the server clock, owner hashes computed here. -/
def LockRequest.stampIntoState (req : LockRequest) (serverNowUnix : Nat) : HtlcState where
  committedHHex := req.committedHHex
  refundAfterUnix := saturatingAddU64 serverNowUnix req.refundAfterSecondsFromNow
  claimOwnerHashHex := sha256HexOfAscii req.claimOwnerSecretHex
  refundOwnerHashHex := sha256HexOfAscii req.refundOwnerSecretHex

inductive PredicateResult
  | claim
  | refund
  deriving DecidableEq

inductive PredicateError
  | preimageMismatch
  | claimOwnerMismatch
  | refundLocked (delta : Nat)
  | refundOwnerMismatch
  | neitherPath
  | badPreimageHex (e : Hex.FromHexError)
  deriving DecidableEq

/-- `FromHexError`'s `Display`; the character is shown by its code. -/
def hexErrorText : Hex.FromHexError → String
  | .oddLength => "Odd number of digits"
  | .invalidHexCharacter c index =>
    "Invalid character '" ++ String.ofList [Char.ofNat c.toNat] ++ "' at position " ++ toString index

def PredicateError.display : PredicateError → String
  | preimageMismatch => "htlc: provided preimage does not match committed hash"
  | claimOwnerMismatch => "htlc: claim-path output owner mismatch"
  | refundLocked delta => "htlc: refund window not yet open (" ++ toString delta ++ " seconds remaining)"
  | refundOwnerMismatch => "htlc: refund-path output owner mismatch"
  | neitherPath => "htlc: witness satisfies neither claim nor refund path"
  | badPreimageHex e => "htlc: malformed preimage hex: " ++ hexErrorText e

/-- `evaluate`: claim first when a preimage is given, refund otherwise or as a fall-through
for a wrong preimage. -/
def evaluate (state : HtlcState) (witness : HtlcWitness) (currentUnix : Nat) :
    Except PredicateError PredicateResult :=
  match witness.providedXHex with
  | some xHex =>
    match Hex.decode (asBytes xHex) with
    | .error e => .error (.badPreimageHex e)
    | .ok _ =>
      if sha256HexOfAscii xHex ≠ state.committedHHex then
        if currentUnix ≥ state.refundAfterUnix ∧ witness.outputOwnerHashHex =
          state.refundOwnerHashHex then .ok .refund
        else .error .preimageMismatch
      else if witness.outputOwnerHashHex ≠ state.claimOwnerHashHex then .error .claimOwnerMismatch
      else .ok .claim
  | none =>
    if currentUnix < state.refundAfterUnix then .error (.refundLocked (state.refundAfterUnix - currentUnix))
    else if witness.outputOwnerHashHex ≠ state.refundOwnerHashHex then .error .refundOwnerMismatch
    else .ok .refund

def executePredicate (state : HtlcState) (witness : HtlcWitness) (currentUnix : Nat) :
    Except PredicateError PredicateResult := evaluate state witness currentUnix

/-- The claim path was taken: the witness's preimage opens the commitment for the claim owner. -/
theorem evaluate_claim {s : HtlcState} {w : HtlcWitness} {now : Nat} (h : evaluate s w now = .ok .claim) :
    (∃ x, w.providedXHex = some x ∧ sha256HexOfAscii x = s.committedHHex) ∧
      w.outputOwnerHashHex = s.claimOwnerHashHex := by
  unfold evaluate at h
  split at h
  · rename_i x hx
    split at h
    · cases h
    · split at h
      · split at h <;> cases h
      · rename_i hc
        split at h
        · cases h
        · rename_i ho
          exact ⟨⟨x, hx, not_not.1 hc⟩, not_not.1 ho⟩
  · split at h
    · cases h
    · split at h <;> cases h

/-- The refund path was taken: the deadline has passed, for the refund owner. -/
theorem evaluate_refund {s : HtlcState} {w : HtlcWitness} {now : Nat} (h : evaluate s w now = .ok .refund) :
    now ≥ s.refundAfterUnix ∧ w.outputOwnerHashHex = s.refundOwnerHashHex := by
  unfold evaluate at h
  split at h
  · split at h
    · cases h
    · split at h
      · split at h
        · rename_i hr; exact hr
        · cases h
      · split at h <;> cases h
  · split at h
    · cases h
    · rename_i hd
      split at h
      · cases h
      · rename_i ho
        exact ⟨Nat.not_lt.1 hd, not_not.1 ho⟩

/-! ## The replace hook -/

structure HtlcWitnessEntry where
  inputIndex : Nat
  witness : HtlcWitness
  deriving DecidableEq

structure HtlcLockEntry where
  outputIndex : Nat
  request : LockRequest
  deriving DecidableEq

section

variable {ρ : Type} (htlcState : ρ → Option HtlcState) (setHtlcState : HtlcState → ρ → ρ)

/-- The loop over the input records, from index `idx`. -/
def validateFrom (witnesses : List HtlcWitnessEntry) (now : Nat) : Nat → List ρ → Except AssetError Unit
  | _, [] => .ok ()
  | idx, rec :: recs =>
    match htlcState rec with
    | none => validateFrom witnesses now (idx + 1) recs
    | some state =>
      match witnesses.find? (fun w => w.inputIndex = idx) with
      | none => .error (.invariant ("htlc: input " ++ toString idx ++
          " is HTLC-locked but no htlc_witnesses entry was supplied"))
      | some entry =>
        match executePredicate state entry.witness now with
        | .error e => .error (.invariant ("htlc input " ++ toString idx ++ ": " ++ e.display))
        | .ok _ => validateFrom witnesses now (idx + 1) recs

/-- The loop over the lock entries: the last entry for an index wins. -/
def stampLocks (now total : Nat) : List HtlcLockEntry → List ρ → Except AssetError (List ρ)
  | [], recs => .ok recs
  | entry :: locks, recs =>
    match recs[entry.outputIndex]? with
    | none => .error (.invariant ("htlc: htlc_locks references output_index " ++ toString entry.outputIndex ++
        " but only " ++ toString total ++ " outputs"))
    | some rec =>
      stampLocks now total locks (recs.set entry.outputIndex (setHtlcState (entry.request.stampIntoState now) rec))

/-- Every locked input is covered by a witness its lock accepts at `now`. -/
theorem validateFrom_ok {witnesses : List HtlcWitnessEntry} {now : Nat} : ∀ {idx : Nat} {recs : List ρ},
    validateFrom htlcState witnesses now idx recs = .ok () → ∀ (j : Nat) (hj : j < recs.length) (state : HtlcState),
    htlcState recs[j] = some state →
    ∃ entry, witnesses.find? (fun w => w.inputIndex = idx + j) = some entry ∧
      ∃ path, executePredicate state entry.witness now = .ok path
  | _, [], _, j, hj, _, _ => absurd hj (Nat.not_lt_zero j)
  | idx, rec :: recs, h, j, hj, state, hs => by
    unfold validateFrom at h
    cases hrec : htlcState rec with
    | none =>
      simp only [hrec] at h
      cases j with
      | zero => simp [hrec] at hs
      | succ j =>
        have := validateFrom_ok h j (by simpa using hj) state (by simpa using hs)
        rwa [Nat.add_right_comm, Nat.add_assoc] at this
    | some st =>
      simp only [hrec] at h
      split at h
      · cases h
      · rename_i entry hentry
        split at h
        · cases h
        · rename_i path hpath
          cases j with
          | zero =>
            obtain rfl : st = state := by simpa [hrec] using hs
            exact ⟨entry, hentry, path, hpath⟩
          | succ j =>
            have := validateFrom_ok h j (by simpa using hj) state (by simpa using hs)
            rwa [Nat.add_right_comm, Nat.add_assoc] at this

/-- Stamping rewrites single records, so anything the setter keeps is kept pointwise. -/
theorem stampLocks_map {β : Type} {f : ρ → β} (hf : ∀ s r, f (setHtlcState s r) = f r) {now total : Nat} :
    ∀ {locks : List HtlcLockEntry} {recs recs' : List ρ},
      stampLocks setHtlcState now total locks recs = .ok recs' →
    recs'.map f = recs.map f
  | [], _, _, h => by cases h; rfl
  | entry :: locks, recs, recs', h => by
    unfold stampLocks at h
    split at h
    · cases h
    · rename_i rec hrec
      rw [stampLocks_map hf h, List.map_set, hf]
      obtain ⟨hlt, rfl⟩ := List.getElem?_eq_some_iff.1 hrec
      rw [← List.getElem_map f (h := by simpa using hlt), List.set_getElem_self]

end

end Webycash
