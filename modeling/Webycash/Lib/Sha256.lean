import Mathlib.Algebra.Ring.Nat
import Mathlib.Data.List.Basic
/-!
# SHA-256, hexadecimal and base64 text

The hash of FIPS 180-4, with words as numbers below `2 ^ 32` and the plain `Nat` operations that
the kernel evaluates directly, the lower-case hex encoding of bytes with the decoder that takes either
case, and padded base64 in the standard alphabet. The lemmas are the shape facts callers need: a digest has 32
bytes, its hex form 64 digits.
-/

namespace Sha256

/-- A 32-bit word as a number below `2 ^ 32`. -/
abbrev Word := Nat

/-- The state `H` between blocks. -/
structure State where
  (a b c d e f g h : Word)

def initial : State :=
  ⟨0x6a09e667, 0xbb67ae85, 0x3c6ef372, 0xa54ff53a, 0x510e527f, 0x9b05688c, 0x1f83d9ab, 0x5be0cd19⟩

/-- The 64 round constants. -/
def roundConstants : List Word :=
  [0x428a2f98, 0x71374491, 0xb5c0fbcf, 0xe9b5dba5, 0x3956c25b, 0x59f111f1, 0x923f82a4, 0xab1c5ed5,
   0xd807aa98, 0x12835b01, 0x243185be, 0x550c7dc3, 0x72be5d74, 0x80deb1fe, 0x9bdc06a7, 0xc19bf174,
   0xe49b69c1, 0xefbe4786, 0x0fc19dc6, 0x240ca1cc, 0x2de92c6f, 0x4a7484aa, 0x5cb0a9dc, 0x76f988da,
   0x983e5152, 0xa831c66d, 0xb00327c8, 0xbf597fc7, 0xc6e00bf3, 0xd5a79147, 0x06ca6351, 0x14292967,
   0x27b70a85, 0x2e1b2138, 0x4d2c6dfc, 0x53380d13, 0x650a7354, 0x766a0abb, 0x81c2c92e, 0x92722c85,
   0xa2bfe8a1, 0xa81a664b, 0xc24b8b70, 0xc76c51a3, 0xd192e819, 0xd6990624, 0xf40e3585, 0x106aa070,
   0x19a4c116, 0x1e376c08, 0x2748774c, 0x34b0bcb5, 0x391c0cb3, 0x4ed8aa4a, 0x5b9cca4f, 0x682e6ff3,
   0x748f82ee, 0x78a5636f, 0x84c87814, 0x8cc70208, 0x90befffa, 0xa4506ceb, 0xbef9a3f7, 0xc67178f2]

/-- Addition modulo `2 ^ 32`. -/
def add (x y : Word) : Word := Nat.mod (Nat.add x y) 4294967296

/-- `ROTR^n`. -/
def rotr (n : Nat) (x : Word) : Word :=
  Nat.lor (Nat.shiftRight x n) (Nat.mod (Nat.shiftLeft x (Nat.sub 32 n)) 4294967296)

def bigSigma0 (x : Word) : Word := Nat.xor (Nat.xor (rotr 2 x) (rotr 13 x)) (rotr 22 x)
def bigSigma1 (x : Word) : Word := Nat.xor (Nat.xor (rotr 6 x) (rotr 11 x)) (rotr 25 x)
def smallSigma0 (x : Word) : Word := Nat.xor (Nat.xor (rotr 7 x) (rotr 18 x)) (Nat.shiftRight x 3)
def smallSigma1 (x : Word) : Word := Nat.xor (Nat.xor (rotr 17 x) (rotr 19 x)) (Nat.shiftRight x 10)
def ch (x y z : Word) : Word := Nat.xor (Nat.land x y) (Nat.land (Nat.sub 4294967295 x) z)
def maj (x y z : Word) : Word := Nat.xor (Nat.xor (Nat.land x y) (Nat.land x z)) (Nat.land y z)

/-- The next schedule word from the last sixteen, newest first. -/
def nextWord (w : List Word) : Word :=
  add (add (add (smallSigma1 (w.getD 1 0)) (w.getD 6 0)) (smallSigma0 (w.getD 14 0))) (w.getD 15 0)

/-- `n` further schedule words, newest first. -/
def extend : Nat → List Word → List Word
  | 0, w => w
  | n + 1, w => extend n (nextWord w :: w)

def schedule (block : List Word) : List Word := (extend 48 block.reverse).reverse

def round (s : State) (kw : Word × Word) : State :=
  let t1 := add (add (add (add s.h (bigSigma1 s.e)) (ch s.e s.f s.g)) kw.1) kw.2
  let t2 := add (bigSigma0 s.a) (maj s.a s.b s.c)
  ⟨add t1 t2, s.a, s.b, s.c, add s.d t1, s.e, s.f, s.g⟩

def compress (s : State) (block : List Word) : State :=
  let t := (roundConstants.zip (schedule block)).foldl round s
  ⟨add s.a t.a, add s.b t.b, add s.c t.c, add s.d t.d, add s.e t.e, add s.f t.f, add s.g t.g, add s.h t.h⟩

/-- The message, `0x80`, zeros up to 56 mod 64, and the bit length in 8 bytes. -/
def pad (msg : List UInt8) : List UInt8 :=
  let zeros := (119 - msg.length % 64) % 64
  let bits := msg.length * 8
  msg ++ 0x80 :: List.replicate zeros 0 ++
    (List.range 8).map fun i => UInt8.ofNat (bits / 2 ^ (56 - 8 * i) % 256)

/-- Big-endian words. -/
def words : List UInt8 → List Word
  | a :: b :: c :: d :: l =>
    (a.toNat * 2 ^ 24 + b.toNat * 2 ^ 16 + c.toNat * 2 ^ 8 + d.toNat) :: words l
  | _ => []

/-- Fold `compress` over `n` blocks of 16 words. -/
def blocks : Nat → State → List Word → State
  | 0, s, _ => s
  | n + 1, s, w => blocks n (compress s (w.take 16)) (w.drop 16)

def wordBytes (w : Word) : List UInt8 :=
  [UInt8.ofNat (w / 2 ^ 24), UInt8.ofNat (w / 2 ^ 16 % 256), UInt8.ofNat (w / 2 ^ 8 % 256), UInt8.ofNat (w % 256)]

/-- `Sha256::digest`. -/
def digest (msg : List UInt8) : List UInt8 :=
  let w := words (pad msg)
  let s := blocks (w.length / 16) initial w
  [s.a, s.b, s.c, s.d, s.e, s.f, s.g, s.h].flatMap wordBytes

theorem length_digest (msg : List UInt8) : (digest msg).length = 32 := by simp [digest, wordBytes]

end Sha256

namespace Hex

/-- A lower-case hex digit. -/
def digit (n : Nat) : Char := "0123456789abcdef".toList.getD n '0'

/-- `char::is_ascii_hexdigit`. -/
def isDigit (c : Char) : Bool :=
  ('0' ≤ c && c ≤ '9') || ('a' ≤ c && c ≤ 'f') || ('A' ≤ c && c ≤ 'F')

/-- `hex::encode`, as characters. -/
def encodeChars (bytes : List UInt8) : List Char :=
  bytes.flatMap fun b => [digit (b.toNat / 16), digit (b.toNat % 16)]

def encode (bytes : List UInt8) : String := String.ofList (encodeChars bytes)

/-- `hex::FromHexError`, as far as `hex::decode` produces it. -/
inductive FromHexError
  | oddLength
  | invalidHexCharacter (c : UInt8) (index : Nat)
  deriving DecidableEq

/-- Value of a hex digit of either case. -/
def value (c : UInt8) : Option Nat :=
  if 48 ≤ c ∧ c ≤ 57 then some (c.toNat - 48)
  else if 97 ≤ c ∧ c ≤ 102 then some (c.toNat - 87)
  else if 65 ≤ c ∧ c ≤ 70 then some (c.toNat - 55)
  else none

/-- Digit pairs from position `index` on. -/
def decodeFrom (index : Nat) : List UInt8 → Except FromHexError (List UInt8)
  | a :: b :: l =>
    match value a, value b with
    | some hi, some lo => (decodeFrom (index + 2) l).map (UInt8.ofNat (hi * 16 + lo) :: ·)
    | some _, none => .error (.invalidHexCharacter b (index + 1))
    | none, _ => .error (.invalidHexCharacter a index)
  | _ => .ok []

/-- `hex::decode`. -/
def decode (text : List UInt8) : Except FromHexError (List UInt8) :=
  if text.length % 2 ≠ 0 then .error .oddLength else decodeFrom 0 text

theorem isDigit_digit : ∀ n < 16, isDigit (digit n) = true := by decide

theorem isDigit_of_mem_encodeChars {bytes : List UInt8} {c : Char} (h : c ∈ encodeChars bytes) :
    isDigit c = true := by
  obtain ⟨b, -, hc⟩ := List.mem_flatMap.1 h
  have hb := b.toNat_lt
  simp only [List.mem_cons, List.not_mem_nil, or_false] at hc
  rcases hc with rfl | rfl <;> exact isDigit_digit _ (by omega)

theorem colon_notMem_encode (bytes : List UInt8) : ':' ∉ (encode bytes).toList := by
  intro h
  rw [encode, String.toList_ofList] at h
  exact absurd (isDigit_of_mem_encodeChars h) (by decide)

theorem length_encodeChars (bytes : List UInt8) : (encodeChars bytes).length = 2 * bytes.length := by
  induction bytes with
  | nil => rfl
  | cons b l ih =>
    show (digit _ :: digit _ :: encodeChars l).length = _
    simp only [List.length_cons, ih]
    omega

end Hex

namespace Base64

def digit (n : Nat) : Char := "ABCDEFGHIJKLMNOPQRSTUVWXYZabcdefghijklmnopqrstuvwxyz0123456789+/".toList.getD n 'A'

def encodeChars : List UInt8 → List Char
  | a :: b :: c :: l =>
    let n := a.toNat * 65536 + b.toNat * 256 + c.toNat
    digit (n / 262144) :: digit (n / 4096 % 64) :: digit (n / 64 % 64) :: digit (n % 64) :: encodeChars l
  | [a, b] =>
    let n := a.toNat * 1024 + b.toNat * 4
    [digit (n / 4096), digit (n / 64 % 64), digit (n % 64), '=']
  | [a] => [digit (a.toNat / 4), digit (a.toNat % 4 * 16), '=', '=']
  | [] => []

/-- `general_purpose::STANDARD.encode`. -/
def encode (bytes : List UInt8) : String := String.ofList (encodeChars bytes)

example : encode [0x4d, 0x61, 0x6e, 0x4d, 0x61, 0x4d] = "TWFuTWFN" := by decide +kernel
example : encode [0x4d, 0x61, 0x6e, 0x4d] = "TWFuTQ==" := by decide +kernel

end Base64
