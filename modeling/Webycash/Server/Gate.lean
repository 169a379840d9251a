import Webycash.Core.Asset
import Webycash.Lib.FMap
/-!
# What gates a mint: proof of work, issuer signatures, nonces

| here | there |
| --- | --- |
| `MiningMode`, `MiningConfig`, `currentDifficulty` | mining/src/lib.rs:36, :81, :111 |
| `leadingZeroBits`, `verifyPow`  | mining/src/lib.rs:126, mining/src/lib.rs:134 |
| `IssuerRegistry.verify`         | auth/src/lib.rs:93 |
| `NonceCache.checkAndInsert`     | auth/src/lib.rs:193 |
-/

namespace Webycash

/-! ## Mining -/

inductive MiningMode
  | disabled
  | fixed (difficulty : Nat)
  | dynamic (initial targetSecs reportsPerEpoch : Nat)
  deriving DecidableEq

structure MiningConfig where
  mode : MiningMode
  miningAmountWats : I64
  subsidyAmountWats : I64
  maxIssuance : Option Nat
  requirePowForIssuance : Bool

def MiningConfig.currentDifficulty (c : MiningConfig) : Option Nat :=
  match c.mode with
  | .disabled => none
  | .fixed difficulty => some difficulty
  | .dynamic initial _ _ => some initial

/-- `u8::leading_zeros`. -/
def leadingZeros (b : UInt8) : Nat := ((List.range 8).takeWhile fun i => !b.toNat.testBit (7 - i)).length

/-- Whole zero bytes, then the zeros of the first other byte. -/
def leadingZeroBits (hash : List UInt8) : Nat :=
  let zeros := (hash.takeWhile (· == 0)).length
  ((hash[zeros]?).map leadingZeros).getD 0 + zeros * 8

def verifyPow (preimage : String) (difficultyBits : Nat) : Bool :=
  difficultyBits ≤ leadingZeroBits (Sha256.digest (asBytes preimage))

example : leadingZeroBits (0 :: 15 :: List.replicate 30 0) = 12 := by decide

/-! ## Issuer authentication -/

inductive AuthError
  | unknownIssuer (fp : String)
  | invalidSignature
  | replayedNonce
  | malformedSignature (msg : String)
  deriving DecidableEq

def AuthError.display : AuthError → String
  | unknownIssuer fp => "issuer fingerprint not registered: " ++ fp
  | invalidSignature => "invalid signature"
  | replayedNonce => "nonce already seen (replay)"
  | malformedSignature m => "malformed signature: " ++ m

/-- Fingerprint to key bytes. `verifies` is the Ed25519 check and `toLowercase` is
`str::to_lowercase`; both are taken as they come. -/
structure IssuerRegistry where
  keys : FMap String (List UInt8)
  verifies : List UInt8 → List UInt8 → List UInt8 → Bool
  toLowercase : String → String

def IssuerRegistry.verify (reg : IssuerRegistry) (fp : PgpFingerprint) (body sig : List UInt8) :
    Except AuthError Unit :=
  match reg.keys.lookup (reg.toLowercase fp.hex) with
  | none => .error (.unknownIssuer fp.hex)
  | some key =>
    if sig.length ≠ 64 then .error (.malformedSignature ("expected 64 bytes, got " ++ toString sig.length))
    else if reg.verifies key body sig then .ok () else .error .invalidSignature

/-- `seen` and `max_size`. -/
structure NonceCache where
  seen : List String
  maxSize : Nat

def NonceCache.default : NonceCache := ⟨[], 100000⟩

/-- A full cache is cleared before the pair is looked up. -/
def NonceCache.checkAndInsert (c : NonceCache) (fp : PgpFingerprint) (nonce : String) :
    Except AuthError Unit × NonceCache :=
  let seen := if c.maxSize ≤ c.seen.length then [] else c.seen
  let key := fp.hex ++ ":" ++ nonce
  if key ∈ seen then (.error .replayedNonce, { c with seen := seen }) else (.ok (), { c with seen := key :: seen })

end Webycash
