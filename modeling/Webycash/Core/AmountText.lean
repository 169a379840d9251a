import Webycash.Core.Amount
import Webycash.Lib.Grammar
/-!
# Decimal texts and the amounts they spell

`digits[.digits]` is what a token carries, and what `Display` prints for an amount that is not negative.
`Amount::from_str` reads such a text as the wats it stands for exactly when there are eight decimals at
most and the wats fit 64 bits (`parse_of_isWats`, `isWats_of_parse`).
-/

namespace Webycash

open Grammar

/-- `str::split` on one character is splitting a list. -/
theorem splitOnChar_eq (sep : Char) : ∀ cs : List Char, splitOnChar sep cs = cs.splitOn sep
  | [] => rfl
  | c :: cs => by
    rw [List.splitOn_cons_eq_if_modifyHead, splitOnChar, splitOnChar_eq sep cs]
    by_cases h : c = sep
    · simp [h]
    · rw [if_neg h, if_neg (by simpa using h)]
      cases hs : cs.splitOn sep with
      | nil => exact absurd hs (List.splitOn_ne_nil sep cs)
      | cons part parts => rfl

/-- `digits` and `digits.digits`. -/
def digits : Language Char := word Char.isDigit

def numerals : Language Char := digits + digits * {['.']} * digits

/-- The number digits denote. -/
def decimal (ds : List Char) : Nat := Nat.ofDigitChars 10 ds 0

/-- A decimal text and the wats it stands for. -/
inductive IsWats : List Char → Nat → Prop
  | whole {ds : List Char} (hd : ds ∈ digits) : IsWats ds (decimal ds * 10 ^ 8)
  | point {ds fs : List Char} (hd : ds ∈ digits) (hf : fs ∈ digits) (hlen : fs.length ≤ 8) :
    IsWats (ds ++ '.' :: fs) (decimal ds * 10 ^ 8 + decimal fs * 10 ^ (8 - fs.length))

/-- A text that stands for this amount. -/
def Spells (text : List Char) (a : Amount) : Prop := ∃ wats : Nat, IsWats text wats ∧ a.wats.val = wats

variable {ds fs text : List Char} {a : Amount}

theorem mem_numerals : text ∈ numerals ↔ text ∈ digits ∨ ∃ ds ∈ digits, ∃ fs ∈ digits, text =
    ds ++ '.' :: fs := by
  simp only [numerals, Language.mem_add, Language.mem_mul]
  refine or_congr_right ⟨?_, ?_⟩
  · rintro ⟨_, ⟨ds, hd, _, rfl, rfl⟩, fs, hf, rfl⟩
    exact ⟨ds, hd, fs, hf, by simp⟩
  · rintro ⟨ds, hd, fs, hf, rfl⟩
    exact ⟨_, ⟨ds, hd, _, rfl, rfl⟩, fs, hf, by simp⟩

theorem IsWats.numeral {wats : Nat} (h : IsWats text wats) : text ∈ numerals := by
  cases h with
  | whole hd => exact mem_numerals.2 (Or.inl hd)
  | point hd hf _ => exact mem_numerals.2 (Or.inr ⟨_, hd, _, hf, rfl⟩)

theorem colon_notMem_numeral (h : text ∈ numerals) : ':' ∉ text := by
  rcases mem_numerals.1 h with hd | ⟨ds, hd, fs, hf, rfl⟩
  · exact notMem_of_word hd rfl
  · have h₁ : ':' ∉ ds := notMem_of_word hd rfl
    have h₂ : ':' ∉ fs := notMem_of_word hf rfl
    simp [h₁, h₂]

/-! ## Reading -/

theorem digits?_digits (h : ds ∈ digits) : I64.digits? ds = some (decimal ds) := by
  rw [I64.digits?, if_pos ⟨h.1, List.all_eq_true.2 h.2⟩]
  rfl

/-- Digits carry no sign. -/
theorem ofChars_digits (h : ds ∈ digits) : I64.ofChars ds = I64.ofInt? (decimal ds) := by
  unfold I64.ofChars
  split
  · exact absurd (h.2 '-' (by simp)) (by decide)
  · exact absurd (h.2 '+' (by simp)) (by decide)
  · rw [digits?_digits h, Option.bind_some]

theorem head?_digits (h : ds ∈ digits) (rest : List Char) : ((ds ++ rest).head? == some '-') = false := by
  cases ds with
  | nil => exact absurd rfl h.1
  | cons c cs =>
    have hc : c ≠ '-' := by
      rintro rfl
      exact absurd (h.2 '-' (by simp)) (by decide)
    simpa using hc

theorem utf8Size_digit {c : Char} (h : c.isDigit = true) : c.utf8Size = 1 := by
  rw [Char.isDigit, Bool.and_eq_true, decide_eq_true_iff, decide_eq_true_iff] at h
  unfold Char.utf8Size
  rw [if_pos]
  exact UInt32.le_trans h.2 (by decide)

theorem byteLen_digits (h : fs ∈ digits) : byteLen fs = fs.length := by
  have hone : fs.map Char.utf8Size = fs.map fun _ => 1 := List.map_congr_left fun c hc => utf8Size_digit (h.2 c hc)
  rw [byteLen, hone]
  simp

/-- The decimals filled up to eight. -/
theorem decimal_padded (fs : List Char) (k : Nat) : decimal (fs ++ List.replicate k '0') = decimal fs * 10 ^ k := by
  rw [decimal, Nat.ofDigitChars_append, Nat.ofDigitChars_replicate_zero, Nat.mul_comm]
  rfl

theorem padded_digits (h : fs ∈ digits) (k : Nat) : fs ++ List.replicate k '0' ∈ digits := by
  refine ⟨by simp [h.1], fun c hc => ?_⟩
  rcases List.mem_append.1 hc with hc | hc
  · exact h.2 c hc
  · rw [List.eq_of_mem_replicate hc]
    rfl

theorem parse_whole (hd : ds ∈ digits) : (parseAmountChars ds).toOption =
    (I64.ofInt? (decimal ds)).bind fun whole => (whole.checkedMul Amount.scale).map Amount.mk := by
  have hminus := head?_digits hd []
  rw [List.append_nil] at hminus
  have hsplit : splitOnChar '.' ds = [ds] := by
    rw [splitOnChar_eq, List.splitOn_eq_singleton (notMem_of_word hd rfl)]
  unfold parseAmountChars
  simp only [hminus, hsplit, ofChars_digits hd, Bool.false_eq_true, if_false]
  cases I64.ofInt? (decimal ds) with
  | none => rfl
  | some whole =>
    simp only [Option.bind_some]
    cases whole.checkedMul Amount.scale with
    | none => rfl
    | some wats => rfl

theorem parse_point (hd : ds ∈ digits) (hf : fs ∈ digits) : (parseAmountChars (ds ++ '.' :: fs)).toOption =
    if 8 < fs.length then none
    else (I64.ofInt? (decimal ds)).bind fun whole =>
      (I64.ofInt? (decimal fs * 10 ^ (8 - fs.length) : Nat)).bind fun frac =>
      ((whole.checkedMul Amount.scale).bind (·.checkedAdd frac)).map Amount.mk := by
  have hsplit : splitOnChar '.' (ds ++ '.' :: fs) = [ds, fs] := by
    rw [splitOnChar_eq, List.splitOn_append_cons_self_of_not_mem (notMem_of_word hd rfl),
      List.splitOn_eq_singleton (notMem_of_word hf rfl)]
  have hfrac : I64.ofChars (fs ++ List.replicate (8 - fs.length) '0') =
      I64.ofInt? (decimal fs * 10 ^ (8 - fs.length) : Nat) := by
    rw [ofChars_digits (padded_digits hf _), decimal_padded]
  generalize I64.ofInt? (decimal fs * 10 ^ (8 - fs.length) : Nat) = part at hfrac ⊢
  unfold parseAmountChars
  simp only [head?_digits hd, hsplit, ofChars_digits hd, byteLen_digits hf, hfrac, Amount.decimals,
    Bool.false_eq_true, if_false]
  generalize I64.ofInt? (decimal ds) = front
  by_cases hlen : 8 < fs.length
  · rw [if_pos hlen]
    cases front with
    | none => rfl
    | some whole =>
      show Except.toOption (if fs.length > 8 then _ else _) = none
      rw [if_pos hlen]
      rfl
  · rw [if_neg hlen]
    cases front with
    | none => rfl
    | some whole =>
      show Except.toOption (if fs.length > 8 then _ else _) = _
      rw [if_neg hlen]
      cases part with
      | none => rfl
      | some frac =>
        dsimp only [Option.bind_some]
        cases (whole.checkedMul Amount.scale).bind (·.checkedAdd frac) with
        | none => rfl
        | some wats => rfl

/-- A number below `2 ^ 63` is the value of an `i64`. -/
theorem exists_ofInt? {n : Nat} (h : n < 2 ^ 63) : ∃ w : I64, I64.ofInt? n = some w ∧ w.val = n :=
  ⟨⟨n, by omega, by omega⟩, I64.ofInt?_eq_some.2 rfl, rfl⟩

theorem spells_iff_whole (hd : ds ∈ digits) :
    (parseAmountChars ds).toOption = some a ↔ a.wats.val = (decimal ds * 10 ^ 8 : Nat) := by
  rw [parse_whole hd]
  constructor
  · intro h
    obtain ⟨whole, hw, h⟩ := Option.bind_eq_some_iff.1 h
    obtain ⟨wats, hm, rfl⟩ := Option.map_eq_some_iff.1 h
    have hw := I64.ofInt?_eq_some.1 hw
    have hm := I64.val_checkedMul hm
    rw [hm, hw]
    simp [Amount.scale]
  · intro h
    have hhi := a.wats.hi
    obtain ⟨whole, hw, hval⟩ := exists_ofInt? (n := decimal ds) (by omega)
    rw [hw, Option.bind_some, Option.map_eq_some_iff]
    refine ⟨a.wats, I64.ofInt?_eq_some.2 ?_, rfl⟩
    rw [h, hval]
    simp [Amount.scale]

theorem spells_iff_point (hd : ds ∈ digits) (hf : fs ∈ digits) :
    (parseAmountChars (ds ++ '.' :: fs)).toOption = some a ↔
      fs.length ≤ 8 ∧ a.wats.val = (decimal ds * 10 ^ 8 + decimal fs * 10 ^ (8 - fs.length) : Nat) := by
  rw [parse_point hd hf]
  by_cases hlen : 8 < fs.length
  · rw [if_pos hlen]
    refine ⟨fun h => (by cases h), fun h => absurd h.1 (by omega)⟩
  · rw [if_neg hlen]
    generalize decimal fs * 10 ^ (8 - fs.length) = part
    constructor
    · intro h
      obtain ⟨whole, hw, h⟩ := Option.bind_eq_some_iff.1 h
      obtain ⟨frac, hfr, h⟩ := Option.bind_eq_some_iff.1 h
      obtain ⟨wats, hsum, rfl⟩ := Option.map_eq_some_iff.1 h
      obtain ⟨prod, hm, hs⟩ := Option.bind_eq_some_iff.1 hsum
      have hw := I64.ofInt?_eq_some.1 hw
      have hfr := I64.ofInt?_eq_some.1 hfr
      have hm := I64.val_checkedMul hm
      have hs := I64.val_checkedAdd hs
      refine ⟨by omega, ?_⟩
      rw [hs, hm, hw, hfr]
      simp [Amount.scale]
    · rintro ⟨-, h⟩
      have hhi := a.wats.hi
      obtain ⟨whole, hw, hval⟩ := exists_ofInt? (n := decimal ds) (by omega)
      obtain ⟨frac, hfr, hfval⟩ := exists_ofInt? (n := part) (by omega)
      obtain ⟨prod, hm, hmval⟩ := exists_ofInt? (n := decimal ds * 10 ^ 8) (by omega)
      have hmul : whole.checkedMul Amount.scale = some prod := by
        refine I64.ofInt?_eq_some.2 ?_
        rw [hmval, hval]
        simp [Amount.scale]
      have hadd : prod.checkedAdd frac = some a.wats := by
        refine I64.ofInt?_eq_some.2 ?_
        rw [h, hmval, hfval]
        simp
      rw [hw, Option.bind_some, hfr, Option.bind_some, hmul, Option.bind_some, hadd]
      rfl

/-- **What `Amount::from_str` reads.** Of the decimal texts, those with at most eight decimals whose wats
fit 64 bits, as these wats. -/
theorem parse_numeral_iff (h : text ∈ numerals) : (parseAmountChars text).toOption = some a ↔ Spells text a := by
  constructor
  · intro hp
    rcases mem_numerals.1 h with hd | ⟨ds, hd, fs, hf, rfl⟩
    · exact ⟨_, .whole hd, (spells_iff_whole hd).1 hp⟩
    · obtain ⟨hlen, hval⟩ := (spells_iff_point hd hf).1 hp
      exact ⟨_, .point hd hf hlen, hval⟩
  · rintro ⟨wats, hs, hval⟩
    cases hs with
    | whole hd => exact (spells_iff_whole hd).2 hval
    | point hd hf hlen => exact (spells_iff_point hd hf).2 ⟨hlen, hval⟩

theorem Spells.numeral (h : Spells text a) : text ∈ numerals := by
  obtain ⟨_, hs, -⟩ := h
  exact hs.numeral

theorem Spells.nonneg (h : Spells text a) : 0 ≤ a.wats.val := by
  obtain ⟨wats, -, hval⟩ := h
  omega

/-- A text spells an amount when its wats fit. -/
theorem exists_spells_iff : (∃ a, Spells text a) ↔ ∃ wats, IsWats text wats ∧ wats < 2 ^ 63 := by
  constructor
  · rintro ⟨a, wats, hs, hval⟩
    have hhi := a.wats.hi
    exact ⟨wats, hs, by omega⟩
  · rintro ⟨wats, hs, hlt⟩
    obtain ⟨w, -, hval⟩ := exists_ofInt? hlt
    exact ⟨⟨w⟩, wats, hs, hval⟩

/-! ## Printing -/

theorem digits_toDigits (n : Nat) : Nat.toDigits 10 n ∈ digits :=
  ⟨Nat.toDigits_ne_nil, fun _ hc => Nat.isDigit_of_mem_toDigits (by decide) (by decide) hc⟩

theorem toList_pad8 (n : Nat) : (Amount.pad8 n).toList =
    List.replicate (8 - (Nat.toDigits 10 n).length) '0' ++ Nat.toDigits 10 n := by
  rw [Amount.pad8, String.toList_append, String.toList_ofList, Nat.toString_eq_repr, ← String.length_toList,
    Nat.toList_repr]

theorem pad8_digits (n : Nat) : (Amount.pad8 n).toList ∈ digits := by
  rw [toList_pad8]
  refine ⟨by simp, fun c hc => ?_⟩
  rcases List.mem_append.1 hc with hc | hc
  · rw [List.eq_of_mem_replicate hc]
    rfl
  · exact (digits_toDigits n).2 c hc

theorem length_pad8 {n : Nat} (h : n < 10 ^ 8) : (Amount.pad8 n).toList.length = 8 := by
  have hlen := (Nat.length_toDigits_le_iff (b := 10) (n := n) (k := 8) (by decide) (by decide)).2 h
  rw [toList_pad8, List.length_append, List.length_replicate]
  omega

theorem decimal_pad8 (n : Nat) : decimal (Amount.pad8 n).toList = n := by
  rw [toList_pad8, decimal, Nat.ofDigitChars_append, Nat.ofDigitChars_replicate_zero, Nat.mul_zero,
    Nat.ofDigitChars_ten_toDigits]

/-- **Printed amounts.** What `Display` prints for an amount that is not negative spells it. -/
theorem spells_display (h : 0 ≤ a.wats.val) : Spells a.display.toList a := by
  have hlt : a.wats.val.natAbs % 100000000 < 10 ^ 8 := Nat.mod_lt _ (by decide)
  have htext : a.display.toList =
      Nat.toDigits 10 (a.wats.val.natAbs / 100000000) ++
        '.' :: (Amount.pad8 (a.wats.val.natAbs % 100000000)).toList := by
    have hdot : ".".toList = ['.'] := rfl
    simp only [Amount.display, if_neg (Int.not_lt.2 h), String.toList_append, Nat.toString_eq_repr,
      Nat.toList_repr, hdot,
      List.append_assoc, List.singleton_append]
  rw [htext]
  refine ⟨_, .point (digits_toDigits _) (pad8_digits _) (length_pad8 hlt).le, ?_⟩
  rw [length_pad8 hlt, decimal_pad8, decimal, Nat.ofDigitChars_ten_toDigits]
  omega

end Webycash
