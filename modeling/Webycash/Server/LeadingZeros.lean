import Webycash.Lib.Sha256Laws
import Webycash.Server.Gate
/-!
# Leading zero bits and the target they stand for

A hash meets a difficulty of `d` bits when its big-endian value is below `2 ^ (8 * length - d)`. The count
of the code is that, as long as it fits `u32`, which it does for a 32-byte hash, the argument it is
documented for, and for every text with fewer than `2 ^ 29` leading zero bytes (`leading_zero_bits_target`).
Beyond, the count wraps.

| here | there |
| --- | --- |
| `Mining.leadingZeroBits`       | mining/src/lib.rs:127 |
| `AssetWebcash.leadingZeroBits` | asset-webcash/src/lib.rs:246 |
| `Protocol.leadingZeroBits`     | server/src/protocol/mining.rs:25 |
| `Compute.countLeadingZeroBits` | compute/src/lib.rs:70 |
| `Compute.ComputeBackend.leadingZeroBits` | server/src/compute/mod.rs:94 |
| `Compute.leadingZeroBitsCpu`   | server/src/compute/cpu.rs:77 |
-/

namespace Webycash

/-- The body the copies share, in `u32`: the number of zero bytes, its product and the sum wrap. -/
def countZeroBits (hash : List UInt8) : UInt32 :=
  let fullZeroBytes := UInt32.ofNat (hash.takeWhile (· == 0)).length
  ((hash[fullZeroBytes.toNat]?).map fun b => UInt32.ofNat (leadingZeros b)).getD 0 + fullZeroBytes * 8

def Mining.leadingZeroBits (hash : List UInt8) : UInt32 := countZeroBits hash

def AssetWebcash.leadingZeroBits (hash : List UInt8) : UInt32 := countZeroBits hash

def Protocol.leadingZeroBits (hash : List UInt8) : UInt32 := countZeroBits hash

def Compute.countLeadingZeroBits (hash : List UInt8) : UInt32 := countZeroBits hash

/-- The method of the trait; the blanket implementation for a box passes the hash on. -/
def Compute.ComputeBackend.leadingZeroBits (hash : List UInt8) : UInt32 := countZeroBits hash

def Compute.leadingZeroBitsCpu (hash : List UInt8) : UInt32 := countZeroBits hash

/-- The big-endian value of a byte string. -/
def bigEndian : List UInt8 → Nat
  | [] => 0
  | b :: bs => b.toNat * 2 ^ (8 * bs.length) + bigEndian bs

theorem bigEndian_lt : ∀ h : List UInt8, bigEndian h < 2 ^ (8 * h.length)
  | [] => by decide
  | b :: bs => by
    have hb : b.toNat < 2 ^ 8 := b.toNat_lt
    have ih := bigEndian_lt bs
    have hpow : 2 ^ (8 * (b :: bs).length) = 2 ^ 8 * 2 ^ (8 * bs.length) := by
      rw [← Nat.pow_add, List.length_cons]
      congr 1
      omega
    rw [bigEndian, hpow]
    calc b.toNat * 2 ^ (8 * bs.length) + bigEndian bs < b.toNat * 2 ^ (8 * bs.length) + 2 ^ (8 * bs.length) := by omega
      _ = (b.toNat + 1) * 2 ^ (8 * bs.length) := by rw [Nat.add_mul, Nat.one_mul]
      _ ≤ 2 ^ 8 * 2 ^ (8 * bs.length) := Nat.mul_le_mul_right _ hb

/-! ## One byte -/

theorem leadingZeros_spec : ∀ n < 256, ∀ d < 9, (d ≤ leadingZeros (UInt8.ofNat n) ↔ n < 2 ^ (8 - d)) :=
  by decide +kernel

theorem le_leadingZeros_iff (b : UInt8) {d : Nat} (hd : d ≤ 8) : d ≤ leadingZeros b ↔ b.toNat < 2 ^ (8 - d) := by
  have hb := leadingZeros_spec b.toNat b.toNat_lt d (by omega)
  rwa [UInt8.ofNat_toNat] at hb

/-- A byte that is not zero has a bit set. -/
theorem leadingZeros_lt {b : UInt8} (h : b ≠ 0) : leadingZeros b < 8 := by
  by_contra hle
  have hb := (le_leadingZeros_iff b le_rfl).1 (by omega)
  exact h (UInt8.toNat_inj.1 (by simpa using hb))

/-! ## The count without bounds -/

/-- The number of leading zero bytes. -/
def zeroBytes (h : List UInt8) : Nat := (h.takeWhile (· == 0)).length

theorem zeroBytes_zero (h : List UInt8) : zeroBytes (0 :: h) = zeroBytes h + 1 := by
  rw [zeroBytes, List.takeWhile_cons_of_pos (by rfl), List.length_cons, zeroBytes]

theorem zeroBytes_cons {b : UInt8} (hb : b ≠ 0) (h : List UInt8) : zeroBytes (b :: h) = 0 := by
  rw [zeroBytes, List.takeWhile_cons_of_neg (by simpa using hb), List.length_nil]

theorem leadingZeroBits_eq (h : List UInt8) :
    leadingZeroBits h = ((h[zeroBytes h]?).map leadingZeros).getD 0 + zeroBytes h * 8 := rfl

theorem leadingZeroBits_zero (h : List UInt8) : leadingZeroBits (0 :: h) = leadingZeroBits h + 8 := by
  rw [leadingZeroBits_eq, leadingZeroBits_eq, zeroBytes_zero, List.getElem?_cons_succ]
  omega

theorem leadingZeroBits_cons {b : UInt8} (hb : b ≠ 0) (h : List UInt8) :
    leadingZeroBits (b :: h) = leadingZeros b := by
  rw [leadingZeroBits_eq, zeroBytes_cons hb]
  rfl

theorem leadingZeroBits_le : ∀ h : List UInt8, leadingZeroBits h ≤ 8 * h.length
  | [] => Nat.le_refl 0
  | b :: bs => by
    by_cases hb : b = 0
    · have ih := leadingZeroBits_le bs
      rw [hb, leadingZeroBits_zero, List.length_cons]
      omega
    · have hlt := leadingZeros_lt hb
      rw [leadingZeroBits_cons hb, List.length_cons]
      omega

/-- **The target.** The count reaches `d` exactly when the value is below the target of `d` bits. -/
theorem le_leadingZeroBits_iff : ∀ (h : List UInt8) {d : Nat}, d ≤ 8 * h.length →
    (d ≤ leadingZeroBits h ↔ bigEndian h < 2 ^ (8 * h.length - d))
  | [], d, hd => by
    obtain rfl : d = 0 := Nat.le_zero.1 hd
    exact ⟨fun _ => by decide, fun _ => Nat.le_refl 0⟩
  | b :: bs, d, hd => by
    have hval := bigEndian_lt bs
    rw [List.length_cons] at hd ⊢
    by_cases hb : b = 0
    · have hhead : bigEndian (b :: bs) = bigEndian bs := by
        rw [hb, bigEndian, UInt8.toNat_zero, Nat.zero_mul, Nat.zero_add]
      rw [hb, leadingZeroBits_zero, ← hb, hhead]
      by_cases hsmall : d ≤ 8
      · have hpow : 2 ^ (8 * bs.length) ≤ 2 ^ (8 * (bs.length + 1) - d) :=
          Nat.pow_le_pow_right (by decide) (by omega)
        exact ⟨fun _ => Nat.lt_of_lt_of_le hval hpow, fun _ => by omega⟩
      · have ih := le_leadingZeroBits_iff bs (d := d - 8) (by omega)
        rw [show 8 * (bs.length + 1) - d = 8 * bs.length - (d - 8) by omega, ← ih]
        omega
    · rw [leadingZeroBits_cons hb, bigEndian]
      have hpos : 0 < b.toNat := Nat.pos_of_ne_zero fun h0 => hb (UInt8.toNat_inj.1 h0)
      by_cases hsmall : d ≤ 8
      · have hpow : 2 ^ (8 * (bs.length + 1) - d) = 2 ^ (8 - d) * 2 ^ (8 * bs.length) := by
          rw [← Nat.pow_add]
          congr 1
          omega
        rw [le_leadingZeros_iff b hsmall, hpow]
        constructor
        · intro hlt
          calc b.toNat * 2 ^ (8 * bs.length) + bigEndian bs < (b.toNat + 1) * 2 ^ (8 * bs.length) := by
                rw [Nat.add_mul, Nat.one_mul]
                omega
            _ ≤ 2 ^ (8 - d) * 2 ^ (8 * bs.length) := Nat.mul_le_mul_right _ hlt
        · intro hlt
          exact Nat.lt_of_mul_lt_mul_right (Nat.lt_of_le_of_lt (Nat.le_add_right _ _) hlt)
      · have hlz := leadingZeros_lt hb
        have hpow : 2 ^ (8 * (bs.length + 1) - d) ≤ 2 ^ (8 * bs.length) := Nat.pow_le_pow_right (by decide) (by omega)
        refine ⟨fun hle => absurd hle (by omega), fun hlt => absurd hlt (Nat.not_lt.2 (Nat.le_trans hpow ?_))⟩
        exact Nat.le_trans (Nat.le_mul_of_pos_left _ hpos) (Nat.le_add_right _ _)

/-! ## The count of the code -/

/-- The byte behind the zero bytes is not zero. -/
theorem zeros_of_next : ∀ (h : List UInt8), ((h[zeroBytes h]?).map leadingZeros).getD 0 < 8
  | [] => by decide
  | b :: bs => by
    by_cases hb : b = 0
    · rw [hb, zeroBytes_zero, List.getElem?_cons_succ]
      exact zeros_of_next bs
    · rw [zeroBytes_cons hb]
      exact leadingZeros_lt hb

theorem zeroBytes_le (h : List UInt8) : zeroBytes h ≤ h.length := (List.takeWhile_prefix _).length_le

/-- The count is exact as long as it fits. -/
theorem toNat_countZeroBits {h : List UInt8} (hz : zeroBytes h < 2 ^ 29) :
    (countZeroBits h).toNat = leadingZeroBits h := by
  have hnext := zeros_of_next h
  have hfull : (UInt32.ofNat (zeroBytes h)).toNat = zeroBytes h :=
    UInt32.toNat_ofNat_of_lt' (show zeroBytes h < 4294967296 by omega)
  have hcount : countZeroBits h =
      ((h[(UInt32.ofNat (zeroBytes h)).toNat]?).map fun b => UInt32.ofNat (leadingZeros b)).getD 0 +
        UInt32.ofNat (zeroBytes h) * 8 := rfl
  rw [hcount, hfull, leadingZeroBits_eq]
  have hsum : ∀ n < 8, (UInt32.ofNat n + UInt32.ofNat (zeroBytes h) * 8).toNat = n + zeroBytes h * 8 := by
    intro n hn
    rw [UInt32.toNat_add, UInt32.toNat_mul, hfull, UInt32.toNat_ofNat_of_lt' (show n < 4294967296 by omega)]
    show (n + zeroBytes h * 8 % 2 ^ 32) % 2 ^ 32 = _
    omega
  cases hbyte : h[zeroBytes h]? with
  | none => exact hsum 0 (by decide)
  | some b =>
    rw [hbyte] at hnext
    exact hsum _ hnext

theorem toNat_countZeroBits_lt (h : List UInt8) : (countZeroBits h).toNat < 2 ^ 32 := UInt32.toNat_lt _

/-- Zero bytes make the count reach eight times their number. -/
theorem bigEndian_lt_of_zeroBytes {h : List UInt8} {n : Nat} (hz : n ≤ 8 * zeroBytes h) :
    bigEndian h < 2 ^ (8 * h.length - n) := by
  have hle := zeroBytes_le h
  refine (le_leadingZeroBits_iff h (by omega)).1 ?_
  rw [leadingZeroBits_eq]
  omega

/-- What every reader of the count takes it for. -/
def CountsTarget (count : List UInt8 → UInt32) (h : List UInt8) : Prop :=
  ∀ d ≤ 8 * h.length, d ≤ (count h).toNat ↔ bigEndian h < 2 ^ (8 * h.length - d)

theorem countsTarget_iff (h : List UInt8) : CountsTarget countZeroBits h ↔ zeroBytes h < 2 ^ 29 := by
  constructor
  · intro htarget
    by_contra hz
    have hle := zeroBytes_le h
    have hcount := (htarget (2 ^ 32) (by omega)).2 (bigEndian_lt_of_zeroBytes (by omega))
    exact absurd (toNat_countZeroBits_lt h) (Nat.not_lt.2 hcount)
  · intro hz d hd
    rw [toNat_countZeroBits hz]
    exact le_leadingZeroBits_iff h hd

/-- **Leading zero bits mean what the target means**, for all copies of the count. -/
theorem leading_zero_bits_target (h : List UInt8) :
    (CountsTarget Mining.leadingZeroBits h ↔ zeroBytes h < 2 ^ 29) ∧
    AssetWebcash.leadingZeroBits h = Mining.leadingZeroBits h ∧
    Protocol.leadingZeroBits h = Mining.leadingZeroBits h ∧
    Compute.countLeadingZeroBits h = Mining.leadingZeroBits h ∧
    Compute.ComputeBackend.leadingZeroBits h = Mining.leadingZeroBits h ∧
    Compute.leadingZeroBitsCpu h = Mining.leadingZeroBits h :=
  ⟨countsTarget_iff h, rfl, rfl, rfl, rfl, rfl⟩

/-- Half a gibibyte of zeros: eight times their number does not fit the count. -/
theorem long_zeros_miscounted : ¬ ∀ (h : List UInt8) (d : Nat), d ≤ 8 * h.length →
    (d ≤ (Mining.leadingZeroBits h).toNat ↔ bigEndian h < 2 ^ (8 * h.length - d)) := by
  intro hall
  have hzeros : ∀ n, zeroBytes (List.replicate n 0) = n := by
    intro n
    induction n with
    | zero => rfl
    | succ n ih => rw [List.replicate_succ, zeroBytes_zero, ih]
  have hlen : (List.replicate (2 ^ 29) (0 : UInt8)).length = 2 ^ 29 := List.length_replicate
  have hcount := (hall (List.replicate (2 ^ 29) 0) (2 ^ 32) (by rw [hlen]; decide)).2
    (bigEndian_lt_of_zeroBytes (by rw [hzeros]; decide))
  exact absurd (toNat_countZeroBits_lt _) (Nat.not_lt.2 hcount)

/-! ## Proof of work -/

theorem zeroBytes_digest (message : List UInt8) : zeroBytes (Sha256.digest message) < 2 ^ 29 := by
  have hle := zeroBytes_le (Sha256.digest message)
  rw [Sha256.length_digest] at hle
  omega

/-- A 32-byte hash is counted exactly. -/
theorem toNat_count_digest (message : List UInt8) :
    (Mining.leadingZeroBits (Sha256.digest message)).toNat = leadingZeroBits (Sha256.digest message) :=
  toNat_countZeroBits (zeroBytes_digest message)

/-- No preimage meets more than 256 bits. -/
theorem difficulty_le_of_verifyPow {preimage : String} {bits : Nat} (h : verifyPow preimage bits = true) :
    bits ≤ 256 := by
  have hle := leadingZeroBits_le (Sha256.digest (asBytes preimage))
  rw [Sha256.length_digest] at hle
  exact Nat.le_trans (of_decide_eq_true h) hle

/-- **Proof of work** is a bound on the value of the hash. -/
theorem verifyPow_iff_target {preimage : String} {bits : Nat} (hbits : bits ≤ 256) :
    verifyPow preimage bits = true ↔ bigEndian (Sha256.digest (asBytes preimage)) < 2 ^ (256 - bits) := by
  have htarget := le_leadingZeroBits_iff (Sha256.digest (asBytes preimage)) (d := bits)
    (by rw [Sha256.length_digest]; omega)
  rw [Sha256.length_digest] at htarget
  rw [verifyPow, decide_eq_true_iff]
  exact htarget

end Webycash
