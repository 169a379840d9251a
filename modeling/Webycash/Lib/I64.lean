import Mathlib.Algebra.Ring.Int.Defs
import Mathlib.Algebra.Ring.Nat
import Mathlib.Data.List.Basic
/-!
# Signed 64-bit integers and their decimal text

`I64` is an integer with the proof that it fits in 64 bits, so a checked operation returns an
`Option` and nothing downstream proves a range again. `toText` / `ofText` are Rust's
`i64::to_string` and `str::parse::<i64>`; `ofText_toText` is their round trip.
-/

structure I64 where
  val : Int
  lo : -9223372036854775808 ≤ val
  hi : val < 9223372036854775808
  deriving DecidableEq

namespace I64

@[ext] theorem ext {a b : I64} (h : a.val = b.val) : a = b := by
  cases a; cases b; simp only [mk.injEq]; exact h

/-- The value itself, when it fits. -/
def ofInt? (z : Int) : Option I64 :=
  if h : -9223372036854775808 ≤ z ∧ z < 9223372036854775808 then some ⟨z, h.1, h.2⟩ else none

theorem ofInt?_eq_some {z : Int} {a : I64} : ofInt? z = some a ↔ a.val = z := by
  unfold ofInt?
  split
  · rename_i h
    rw [Option.some.injEq]
    exact ⟨fun e => e ▸ rfl, fun e => I64.ext e.symm⟩
  · rename_i h
    refine ⟨fun e => by simp at e, fun e => absurd ⟨a.lo, a.hi⟩ (e ▸ h)⟩

@[simp] theorem ofInt?_val (a : I64) : ofInt? a.val = some a := ofInt?_eq_some.2 rfl

instance : Zero I64 := ⟨⟨0, by decide, by decide⟩⟩

@[simp] theorem val_zero : (0 : I64).val = 0 := rfl

/-- `i64::checked_add`. -/
def checkedAdd (a b : I64) : Option I64 := ofInt? (a.val + b.val)

/-- `i64::checked_mul`. -/
def checkedMul (a b : I64) : Option I64 := ofInt? (a.val * b.val)

/-- Two's-complement wrap, as `+` does in a release build. -/
def wrap (z : Int) : I64 :=
  ⟨(z + 9223372036854775808) % 18446744073709551616 - 9223372036854775808, by omega, by omega⟩

/-- `i64::saturating_add`. -/
def saturatingAdd (a b : I64) : I64 :=
  ⟨max (-9223372036854775808) (min 9223372036854775807 (a.val + b.val)), by omega, by omega⟩

/-- What 64 bits can hold. -/
def InRange (z : Int) : Prop := -9223372036854775808 ≤ z ∧ z < 9223372036854775808

instance decidableInRange (z : Int) : Decidable (InRange z) := inferInstanceAs (Decidable (_ ∧ _))

theorem val_wrap {z : Int} (h : InRange z) : (wrap z).val = z := by
  unfold InRange at h
  simp only [wrap]
  omega

theorem val_saturatingAdd {a b : I64} (h : InRange (a.val + b.val)) : (saturatingAdd a b).val = a.val + b.val := by
  unfold InRange at h
  simp only [saturatingAdd]
  omega

theorem val_checkedMul {a b c : I64} (h : checkedMul a b = some c) : c.val = a.val * b.val :=
  ofInt?_eq_some.1 h

theorem val_checkedAdd {a b c : I64} (h : checkedAdd a b = some c) : c.val = a.val + b.val :=
  ofInt?_eq_some.1 h

/-! ## Text -/

/-- One or more ASCII digits. -/
def digits? (cs : List Char) : Option Nat :=
  if cs ≠ [] ∧ cs.all Char.isDigit then some (Nat.ofDigitChars 10 cs 0) else none

/-- `str::parse::<i64>`: an optional sign, then digits, within range. -/
def ofChars : List Char → Option I64
  | '-' :: cs => (digits? cs).bind fun n => ofInt? (-n)
  | '+' :: cs => (digits? cs).bind fun n => ofInt? n
  | cs => (digits? cs).bind fun n => ofInt? n

def ofText (s : String) : Option I64 := ofChars s.toList

/-- `i64::to_string`. -/
def toText (a : I64) : String := toString a.val

theorem digits?_toDigits (n : Nat) : digits? (Nat.toDigits 10 n) = some n := by
  have hall : (Nat.toDigits 10 n).all Char.isDigit = true :=
    List.all_eq_true.2 fun c hc => Nat.isDigit_of_mem_toDigits (by decide) (by decide) hc
  rw [digits?, if_pos ⟨Nat.toDigits_ne_nil, hall⟩, Nat.ofDigitChars_ten_toDigits]

/-- Digits carry no sign, so the unsigned case reads them. -/
theorem ofChars_toDigits (n : Nat) : ofChars (Nat.toDigits 10 n) = ofInt? n := by
  have hd : ∀ c ∈ Nat.toDigits 10 n, c.isDigit = true :=
    fun c hc => Nat.isDigit_of_mem_toDigits (by decide) (by decide) hc
  unfold ofChars
  split
  · rename_i cs h; exact absurd (hd '-' (by simp [h])) (by decide)
  · rename_i cs h; exact absurd (hd '+' (by simp [h])) (by decide)
  · rw [digits?_toDigits, Option.bind_some]

/-- **Round trip of the decimal text.** -/
theorem ofText_toText (a : I64) : ofText a.toText = some a := by
  unfold ofText toText
  cases h : a.val with
  | ofNat n =>
    show ofChars (Nat.repr n).toList = _
    rw [Nat.toList_repr, ofChars_toDigits]
    exact ofInt?_eq_some.2 h
  | negSucc n =>
    show ofChars ("-" ++ Nat.repr (n + 1)).toList = _
    rw [String.toList_append, Nat.toList_repr]
    show ((digits? (Nat.toDigits 10 (n + 1))).bind fun m => ofInt? (-m)) = _
    rw [digits?_toDigits, Option.bind_some]
    exact ofInt?_eq_some.2 (by omega)

end I64
