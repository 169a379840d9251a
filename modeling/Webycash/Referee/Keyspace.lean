import Webycash.Core.Asset
import Webycash.Lib.KeyRange
/-!
# FoundationDB keys and range reads (`referee/src/store/fdb.rs`, `referee/src/audit/fdb.rs`)

A key is the UTF-8 bytes of its parts, joined with `/` and not escaped. Bytes are kept as numbers,
which have the order of the bytes. A range read answers the pairs of the range in key order unless
the option says reverse, and at most as many as the option's limit; the iteration number and the
snapshot flag of a read change nothing about calls that do not overlap.
-/

namespace Webycash.Referee

open KeyRange

abbrev Key := List Nat

def keyOf (s : String) : Key := (asBytes s).map UInt8.toNat

/-- `b'/'`. -/
def slash : Nat := 47

/-- `{:020}`. -/
def padded (n : Nat) : Key :=
  let digits := (Nat.toDigits 10 n).map Char.toNat
  List.replicate (20 - digits.length) 48 ++ digits

/-- `foundationdb::RangeOption`, as far as it is set. -/
structure RangeOption where
  start : Key
  stop : Key
  limit : Option Nat
  reverse : Bool

/-- `RangeOption::from`. -/
def RangeOption.of (start stop : Key) : RangeOption := ⟨start, stop, none, false⟩

def getRange {ν : Type} (opt : RangeOption) (_iteration : Nat) (_snapshot : Bool) (kv : List (Key × ν)) :
    List (Key × ν) :=
  let found := range opt.start opt.stop kv
  let found := if opt.reverse then found.reverse else found
  match opt.limit with
  | none => found
  | some n => found.take n

/-! ## What bytes a key has -/

theorem utf8_cases {c : Char} {b : UInt8} (h : b ∈ String.utf8EncodeChar c) :
    b.toNat < 255 ∧ (b.toNat = slash → c = '/') := by
  unfold String.utf8EncodeChar at h
  dsimp only at h
  split at h
  · rename_i hv
    obtain rfl := List.mem_singleton.1 h
    rw [UInt8.toNat_ofNat', Nat.mod_eq_of_lt (by omega)]
    exact ⟨by omega, fun hslash => Char.ext (UInt32.toNat_inj.1 hslash)⟩
  · have hbytes : ∀ n, 128 ≤ n → n < 255 → (UInt8.ofNat n).toNat < 255 ∧
        ((UInt8.ofNat n).toNat = slash → c = '/') := by
      intro n hlow hhigh
      rw [UInt8.toNat_ofNat', Nat.mod_eq_of_lt (by omega)]
      exact ⟨hhigh, fun hslash => by unfold slash at hslash; omega⟩
    split at h
    · rcases List.mem_pair.1 h with rfl | rfl <;> exact hbytes _ (by omega) (by omega)
    · split at h
      · simp only [List.mem_cons, List.not_mem_nil, or_false] at h
        rcases h with rfl | rfl | rfl <;> exact hbytes _ (by omega) (by omega)
      · simp only [List.mem_cons, List.not_mem_nil, or_false] at h
        rcases h with rfl | rfl | rfl | rfl <;> exact hbytes _ (by omega) (by omega)

theorem mem_keyOf {s : String} {b : Nat} (h : b ∈ keyOf s) :
    ∃ c ∈ s.toList, ∃ x ∈ String.utf8EncodeChar c, x.toNat = b := by
  obtain ⟨x, hx, rfl⟩ := List.mem_map.1 h
  rw [← String.ofList_toList (s := s), asBytes_ofList] at hx
  obtain ⟨c, hc, hx⟩ := List.mem_flatMap.1 hx
  exact ⟨c, hc, x, hx, rfl⟩

theorem lt_of_mem_keyOf {s : String} {b : Nat} (h : b ∈ keyOf s) : b < 255 := by
  obtain ⟨c, -, x, hx, rfl⟩ := mem_keyOf h
  exact (utf8_cases hx).1

theorem slash_mem_keyOf {s : String} : slash ∈ keyOf s ↔ '/' ∈ s.toList := by
  constructor
  · intro h
    obtain ⟨c, hc, x, hx, hslash⟩ := mem_keyOf h
    exact (utf8_cases hx).2 hslash ▸ hc
  · intro h
    refine List.mem_map.2 ⟨47, ?_, rfl⟩
    rw [← String.ofList_toList (s := s), asBytes_ofList]
    exact List.mem_flatMap.2 ⟨'/', h, by decide⟩

theorem keyOf_append (s t : String) : keyOf (s ++ t) = keyOf s ++ keyOf t := by
  simp [keyOf, asBytes]

theorem keyOf_inj {s t : String} (h : keyOf s = keyOf t) : s = t := by
  have hbytes : asBytes s = asBytes t := List.map_injective_iff.2 (fun a b hab => UInt8.toNat_inj.1 hab) h
  exact String.toByteArray_inj.1 (ByteArray.ext (Array.toList_inj.1 hbytes))

theorem digit_of_mem_padded {n b : Nat} (h : b ∈ padded n) : 48 ≤ b ∧ b ≤ 57 := by
  rcases List.mem_append.1 h with h | h
  · rw [List.eq_of_mem_replicate h]
    decide
  · obtain ⟨c, hc, rfl⟩ := List.mem_map.1 h
    have hdigit := Nat.isDigit_of_mem_toDigits (by decide) (by decide) hc
    simp only [Char.isDigit, Bool.and_eq_true, decide_eq_true_eq] at hdigit
    exact ⟨UInt32.le_iff_toNat_le.1 hdigit.1, UInt32.le_iff_toNat_le.1 hdigit.2⟩

theorem slash_notMem_padded (n : Nat) : slash ∉ padded n := fun h => absurd (digit_of_mem_padded h).1 (by decide)

end Webycash.Referee
