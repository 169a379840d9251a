import Webycash.Asset.Htlc
/-!
# The HTLC predicate and its documented formula (`asset-rgb/src/htlc/predicate.rs`)

The module documentation gives `evaluate` as a disjunction (predicate.rs:11): a claim, or a refund.
The code returns early. A wrong preimage falls through to the refund path, but a preimage that is
not hexadecimal does not, and neither does the right one in the hands of another than the claim
owner: where such a witness meets an open refund, the formula accepts and the code rejects
(`evaluate_documented_iff`).
-/

namespace Webycash

/-! ## The formula -/

/-- The witness brings bytes `X` in hexadecimal, and the hash of that text is the commitment. -/
def HtlcState.OpenedBy (state : HtlcState) (witness : HtlcWitness) : Prop :=
  ∃ xHex X, witness.providedXHex = some xHex ∧ Hex.decode (asBytes xHex) = .ok X ∧ sha256HexOfAscii xHex =
    state.committedHHex

def HtlcState.ClaimHolds (state : HtlcState) (witness : HtlcWitness) : Prop :=
  state.OpenedBy witness ∧ witness.outputOwnerHashHex = state.claimOwnerHashHex

def HtlcState.RefundHolds (state : HtlcState) (witness : HtlcWitness) (currentUnix : Nat) : Prop :=
  currentUnix ≥ state.refundAfterUnix ∧ witness.outputOwnerHashHex = state.refundOwnerHashHex

/-- "accept iff" (predicate.rs:12). -/
def HtlcState.Accepts (state : HtlcState) (witness : HtlcWitness) (currentUnix : Nat) : Prop :=
  state.ClaimHolds witness ∨ state.RefundHolds witness currentUnix

/-- The preimage ends the evaluation before the refund path is looked at: it is no hexadecimal, or it
opens the commitment for another than the claim owner. -/
def HtlcState.CutsShort (state : HtlcState) (witness : HtlcWitness) : Prop :=
  ∃ xHex, witness.providedXHex = some xHex ∧
    ((∃ e, Hex.decode (asBytes xHex) = .error e) ∨
      (sha256HexOfAscii xHex = state.committedHHex ∧ witness.outputOwnerHashHex ≠ state.claimOwnerHashHex))

variable {state : HtlcState} {witness : HtlcWitness} {currentUnix : Nat} {xHex : String}

/-! ## The code, path by path -/

theorem evaluate_malformed (hx : witness.providedXHex = some xHex) {e : Hex.FromHexError}
    (hdecode : Hex.decode (asBytes xHex) = .error e) :
    evaluate state witness currentUnix = .error (.badPreimageHex e) := by
  simp only [evaluate, hx, hdecode]

theorem evaluate_right (hx : witness.providedXHex = some xHex) {X : List UInt8}
    (hdecode : Hex.decode (asBytes xHex) = .ok X)
    (hopen : sha256HexOfAscii xHex = state.committedHHex) : evaluate state witness currentUnix =
      if witness.outputOwnerHashHex = state.claimOwnerHashHex then .ok .claim else .error .claimOwnerMismatch := by
  by_cases howner : witness.outputOwnerHashHex = state.claimOwnerHashHex <;> simp [evaluate, hx, hdecode, hopen, howner]

theorem evaluate_wrong (hx : witness.providedXHex = some xHex) {X : List UInt8}
    (hdecode : Hex.decode (asBytes xHex) = .ok X)
    (hopen : sha256HexOfAscii xHex ≠ state.committedHHex) : evaluate state witness currentUnix =
      if currentUnix ≥ state.refundAfterUnix ∧ witness.outputOwnerHashHex =
        state.refundOwnerHashHex then .ok .refund
      else .error .preimageMismatch := by
  simp only [evaluate, hx, hdecode, if_pos hopen]

theorem evaluate_without (hx : witness.providedXHex = none) :
    (∃ path, evaluate state witness currentUnix = .ok path) ↔ state.RefundHolds witness currentUnix := by
  unfold HtlcState.RefundHolds
  by_cases hlate : currentUnix < state.refundAfterUnix
  · simp [evaluate, hx, hlate]
  · by_cases howner : witness.outputOwnerHashHex = state.refundOwnerHashHex
    · simp [evaluate, hx, hlate, howner, Nat.le_of_not_lt hlate]
    · simp [evaluate, hx, hlate, howner]

/-- Without a preimage of the commitment there is no claim. -/
theorem HtlcState.not_openedBy (hx : witness.providedXHex = some xHex)
    (h : sha256HexOfAscii xHex = state.committedHHex → ∀ X, Hex.decode (asBytes xHex) ≠ .ok X) :
    ¬ state.OpenedBy witness := by
  rintro ⟨x, X, hx', hdecode, hopen⟩
  rw [hx] at hx'
  cases hx'
  exact h hopen X hdecode

/-- **What the code accepts**: the formula, unless the preimage cuts the evaluation short. -/
theorem evaluate_ok_iff : (∃ path, evaluate state witness currentUnix = .ok path) ↔
    state.ClaimHolds witness ∨ (state.RefundHolds witness currentUnix ∧ ¬ state.CutsShort witness) := by
  cases hx : witness.providedXHex with
  | none =>
    have hclaim : ¬ state.ClaimHolds witness := fun ⟨⟨_, _, h, _⟩, _⟩ => nomatch hx.symm.trans h
    have hcut : ¬ state.CutsShort witness := fun ⟨_, h, _⟩ => nomatch hx.symm.trans h
    rw [evaluate_without hx, or_iff_right hclaim, and_iff_left hcut]
  | some xHex =>
    have hcut : state.CutsShort witness ↔ (∃ e, Hex.decode (asBytes xHex) = .error e) ∨
        (sha256HexOfAscii xHex = state.committedHHex ∧ witness.outputOwnerHashHex ≠ state.claimOwnerHashHex) := by
      simp [HtlcState.CutsShort, hx]
    cases hdecode : Hex.decode (asBytes xHex) with
    | error e =>
      have hopen : ¬ state.OpenedBy witness := HtlcState.not_openedBy hx fun _ X h => nomatch hdecode.symm.trans h
      rw [evaluate_malformed hx hdecode, hcut]
      simp [HtlcState.ClaimHolds, hopen, hdecode]
    | ok X =>
      by_cases hopen : sha256HexOfAscii xHex = state.committedHHex
      · have hopened : state.OpenedBy witness := ⟨xHex, X, hx, hdecode, hopen⟩
        rw [evaluate_right hx hdecode hopen, hcut]
        by_cases howner : witness.outputOwnerHashHex = state.claimOwnerHashHex
        · simp [HtlcState.ClaimHolds, hopened, howner]
        · simp [HtlcState.ClaimHolds, howner, hopen]
      · have hnot : ¬ state.OpenedBy witness := HtlcState.not_openedBy hx fun h => absurd h hopen
        rw [evaluate_wrong hx hdecode hopen, hcut]
        by_cases hrefund : currentUnix ≥ state.refundAfterUnix ∧ witness.outputOwnerHashHex =
          state.refundOwnerHashHex
        · simp [HtlcState.ClaimHolds, HtlcState.RefundHolds, hnot, hrefund, hopen, hdecode]
        · simp only [if_neg hrefund]
          simp [HtlcState.ClaimHolds, HtlcState.RefundHolds, hnot, hrefund]

/-- **The code follows the formula** on exactly the witnesses that do not meet an open refund with
a preimage that cuts the evaluation short. -/
theorem evaluate_documented_iff (state : HtlcState) (witness : HtlcWitness) (currentUnix : Nat) :
    ((∃ path, evaluate state witness currentUnix = .ok path) ↔ state.Accepts witness currentUnix) ↔
      ¬ (state.RefundHolds witness currentUnix ∧ state.CutsShort witness) := by
  have hclaim : state.ClaimHolds witness → ¬ state.CutsShort witness := by
    rintro ⟨⟨x, X, hx, hdecode, -⟩, howner⟩ ⟨x', hx', hbad⟩
    rw [hx] at hx'
    cases hx'
    rcases hbad with ⟨e, he⟩ | ⟨-, hne⟩
    · exact nomatch hdecode.symm.trans he
    · exact hne howner
  rw [evaluate_ok_iff, HtlcState.Accepts]
  tauto

/-! ## A refund with a malformed preimage -/

namespace Sample

/-- A lock whose refund opens at 1714003200. -/
def openLock : HtlcState where
  committedHHex := "02d449a31fbb267c8f352e9968a79e3e5fc95c1bbeaa502fd6454ebde5a4bedc"
  refundAfterUnix := 1714003200
  claimOwnerHashHex := "ffe054fe7ae0cb6dc65c3af9b61d5209f439851db43d0ba5997337df154668eb"
  refundOwnerHashHex := "92e4a0ca9dd7c1a6fe8ad8e8ae0e9b4b2d2c2b1f4e3a9a9ad7d1c0a4f0b7c6d5"

/-- The refund owner, after the timeout, with a stray preimage that is no hexadecimal. -/
def strayWitness : HtlcWitness := ⟨some "zz", openLock.refundOwnerHashHex⟩

end Sample

theorem refund_blocked_by_stray_preimage :
    ¬ ∀ (state : HtlcState) (witness : HtlcWitness) (currentUnix : Nat),
      (∃ path, evaluate state witness currentUnix = .ok path) ↔ state.Accepts witness currentUnix := by
  intro h
  obtain ⟨path, hpath⟩ := (h Sample.openLock Sample.strayWitness 1714003201).2 (.inr ⟨by decide, rfl⟩)
  rw [evaluate_malformed (e := .invalidHexCharacter 122 0) rfl (by decide)] at hpath
  cases hpath

end Webycash
