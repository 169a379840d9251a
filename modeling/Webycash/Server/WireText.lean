import Webycash.Core.SignedText
import Webycash.Server.HealthCheck
import Webycash.Wire.Formats
/-!
# Amounts and keys in an answer (`server-core/src/lib.rs:1394`)

An amount is printed with all eight decimals (`Display`) or without trailing zeros (`wats_to_string`);
both texts denote it, so they read back as it, unless it is the smallest `i64` (`printed_reads_back_iff`).
The key of an answer is the token with an all-zero fraction dropped. That is another text of the same
token (`normalize_keeps_token`).

| here | there |
| --- | --- |
| `Amount.display` | amount.rs:72 |
| `watsToString`   | lib.rs:1396 |
| `productionNormalizePublic`, `normalizeAmountStr` | lib.rs:1413, lib.rs:1424 |
-/

namespace Webycash

open Grammar Wire

variable {ds fs text s amt suffix : List Char} {a : Amount} {w : I64} {q : ℚ}

/-! ## Printed amounts -/

/-- The sign both printers write. -/
theorem isNumber_signed (h : IsDecimal text q) (hq : (w.val.natAbs : ℚ) = q * 10 ^ 8) :
    ∃ r, IsNumber ((if w.val < 0 then "-" else "").toList ++ text) r ∧ (w.val : ℚ) = r * 10 ^ 8 := by
  by_cases hneg : w.val < 0
  · rw [if_pos hneg]
    refine ⟨-q, .negative h, ?_⟩
    have habs : (w.val : ℚ) = -(w.val.natAbs : ℚ) := by
      have hint : w.val = -(w.val.natAbs : Int) := by omega
      rw [← Int.cast_natCast, ← Int.cast_neg, ← hint]
    rw [habs, hq]
    ring
  · rw [if_neg hneg]
    refine ⟨q, .plain h, ?_⟩
    have habs : (w.val : ℚ) = (w.val.natAbs : ℚ) := by
      have hint : w.val = (w.val.natAbs : Int) := by omega
      rw [← Int.cast_natCast, ← hint]
    rw [habs, hq]

/-- Whole units, and a fraction in some number of decimals. -/
theorem isDecimal_split {n : Nat} (hf : ∀ c ∈ fs, c.isDigit = true) (hlen : fs.length ≤ 8)
    (hfrac : decimal fs * 10 ^ (8 - fs.length) = n % 100000000) :
    ∃ q, IsDecimal (Nat.toDigits 10 (n / 100000000) ++ '.' :: fs) q ∧ (n : ℚ) = q * 10 ^ 8 := by
  refine ⟨_, .point (digits_toDigits _) hf hlen, ?_⟩
  have hwhole : decimal (Nat.toDigits 10 (n / 100000000)) = n / 100000000 := Nat.ofDigitChars_ten_toDigits
  have hsum : n = n / 100000000 * 10 ^ 8 + decimal fs * 10 ^ (8 - fs.length) := by omega
  rw [hwhole, add_mul, ← scaled_fraction hlen]
  exact_mod_cast congrArg (Nat.cast : Nat → ℚ) hsum

theorem isNumber_display : ∃ q, IsNumber (Amount.display ⟨w⟩).toList q ∧ (w.val : ℚ) = q * 10 ^ 8 := by
  have hlt : w.val.natAbs % 100000000 < 10 ^ 8 := Nat.mod_lt _ (by decide)
  have hpad := length_pad8 hlt
  obtain ⟨q, hdec, hq⟩ := isDecimal_split (n := w.val.natAbs) (pad8_digits _).2 hpad.le
    (by rw [hpad, decimal_pad8, Nat.sub_self, Nat.pow_zero, Nat.mul_one])
  have htext : (Amount.display ⟨w⟩).toList = (if w.val < 0 then "-" else "").toList ++
      (Nat.toDigits 10 (w.val.natAbs / 100000000) ++ '.' :: (Amount.pad8 (w.val.natAbs % 100000000)).toList) := by
    have hdot : ".".toList = ['.'] := rfl
    by_cases hneg : w.val < 0
    · simp only [Amount.display, if_pos hneg, String.toList_append, Nat.toString_eq_repr, Nat.toList_repr, hdot,
        List.append_assoc, List.singleton_append]
    · simp only [Amount.display, if_neg hneg, String.toList_append, Nat.toString_eq_repr, Nat.toList_repr, hdot,
        List.append_assoc, List.singleton_append, String.toList_empty, List.nil_append]
  rw [htext]
  exact isNumber_signed hdec hq

/-- `trim_end_matches('0')`: what is cut off is zeros. -/
theorem exists_trimmed (cs : List Char) :
    ∃ k, cs = (cs.reverse.dropWhile (· = '0')).reverse ++ List.replicate k '0' := by
  refine ⟨(cs.reverse.takeWhile (· = '0')).length, ?_⟩
  have hzeros : cs.reverse.takeWhile (· = '0') = List.replicate (cs.reverse.takeWhile (· = '0')).length '0' :=
    List.eq_replicate_of_mem fun c hc => by simpa using List.mem_takeWhile_imp hc
  have hcut := congrArg List.reverse (List.takeWhile_append_dropWhile (p := (· = '0')) (l := cs.reverse))
  rw [List.reverse_append, List.reverse_reverse, hzeros, List.reverse_replicate] at hcut
  rw [← hzeros] at hcut ⊢
  exact hcut.symm

theorem isNumber_watsToString : ∃ q, IsNumber (watsToString w).toList q ∧ (w.val : ℚ) = q * 10 ^ 8 := by
  by_cases hfrac : w.val.natAbs % 100000000 = 0
  · have htext : (watsToString w).toList =
        (if w.val < 0 then "-" else "").toList ++ Nat.toDigits 10 (w.val.natAbs / 100000000) := by
      simp only [watsToString, if_pos hfrac, String.toList_append, Nat.toString_eq_repr, Nat.toList_repr]
    rw [htext]
    refine isNumber_signed (.whole (digits_toDigits _)) ?_
    have hwhole : decimal (Nat.toDigits 10 (w.val.natAbs / 100000000)) = w.val.natAbs / 100000000 :=
      Nat.ofDigitChars_ten_toDigits
    have hsum : w.val.natAbs = w.val.natAbs / 100000000 * 10 ^ 8 := by omega
    rw [hwhole]
    exact_mod_cast congrArg (Nat.cast : Nat → ℚ) hsum
  · have hlt : w.val.natAbs % 100000000 < 10 ^ 8 := Nat.mod_lt _ (by decide)
    obtain ⟨k, hk⟩ := exists_trimmed (Amount.pad8 (w.val.natAbs % 100000000)).toList
    have htext : (watsToString w).toList = (if w.val < 0 then "-" else "").toList ++
        (Nat.toDigits 10 (w.val.natAbs / 100000000) ++
          '.' :: ((Amount.pad8 (w.val.natAbs % 100000000)).toList.reverse.dropWhile (· = '0')).reverse) := by
      have hdot : ".".toList = ['.'] := rfl
      simp only [watsToString, if_neg hfrac, String.toList_append, Nat.toString_eq_repr, Nat.toList_repr, hdot,
        String.toList_ofList, List.append_assoc, List.singleton_append]
    generalize ((Amount.pad8 (w.val.natAbs % 100000000)).toList.reverse.dropWhile (· = '0')).reverse = fs at hk htext
    have hlen := length_pad8 hlt
    have hval := decimal_pad8 (w.val.natAbs % 100000000)
    have hdigits := (pad8_digits (w.val.natAbs % 100000000)).2
    rw [hk] at hlen hval hdigits
    rw [List.length_append, List.length_replicate] at hlen
    rw [decimal_padded] at hval
    obtain ⟨q, hdec, hq⟩ := isDecimal_split (n := w.val.natAbs) (fun c hc => hdigits c (List.mem_append_left _ hc))
      (by omega) (by rwa [show 8 - fs.length = k by omega])
    rw [htext]
    exact isNumber_signed hdec hq

/-- The amount that is not read back. -/
def minWats : I64 := ⟨-9223372036854775808, by decide, by decide⟩

theorem reads_back_iff (h : ∃ q, IsNumber text q ∧ (w.val : ℚ) = q * 10 ^ 8) :
    parseAmountChars text = .ok ⟨w⟩ ↔ w ≠ minWats := by
  constructor
  · rintro hp rfl
    exact ne_min_of_parse hp rfl
  · intro hmin
    obtain ⟨q, hq, hval⟩ := h
    exact parse_of_isNumber hq hval fun heq => hmin (I64.ext heq)

/-- **Amounts survive printing**, in both formats, but for the smallest `i64`. -/
theorem printed_reads_back_iff (w : I64) :
    (parseAmountStr (Amount.display ⟨w⟩) = .ok ⟨w⟩ ∧ parseAmountStr (watsToString w) = .ok ⟨w⟩) ↔
      w ≠ minWats :=
  ⟨fun h => (reads_back_iff isNumber_display).1 h.1,
    fun h => ⟨(reads_back_iff isNumber_display).2 h, (reads_back_iff isNumber_watsToString).2 h⟩⟩

theorem min_not_read_back : ¬ ∀ w : I64,
    parseAmountStr (Amount.display ⟨w⟩) = .ok ⟨w⟩ ∧ parseAmountStr (watsToString w) = .ok ⟨w⟩ := by
  intro h
  have hoverflow : parseAmountStr (Amount.display ⟨minWats⟩) = .error .overflow := by decide +kernel
  have hback := (h minWats).1
  rw [hoverflow] at hback
  cases hback

/-! ## Cutting at the first separator -/

theorem splitOnce_append {sep : Char} {before after : List Char} (h : sep ∉ before) :
    splitOnce sep (before ++ sep :: after) = some (before, after) := by
  induction before with
  | nil => exact if_pos rfl
  | cons c cs ih =>
    have hc : c ≠ sep := fun heq => h (heq ▸ List.mem_cons_self)
    have hcs : sep ∉ cs := fun hmem => h (List.mem_cons_of_mem _ hmem)
    rw [List.cons_append, splitOnce, if_neg hc, ih hcs]
    rfl

theorem splitOnce_none {sep : Char} {cs : List Char} (h : sep ∉ cs) : splitOnce sep cs = none := by
  induction cs with
  | nil => rfl
  | cons c cs ih =>
    have hc : c ≠ sep := fun heq => h (heq ▸ List.mem_cons_self)
    have hcs : sep ∉ cs := fun hmem => h (List.mem_cons_of_mem _ hmem)
    rw [splitOnce, if_neg hc, ih hcs]
    rfl

/-! ## Normalised amounts -/

theorem dot_notMem_digits (h : ds ∈ digits) : '.' ∉ ds := notMem_of_word h rfl

theorem normalizeAmountStr_whole (h : ds ∈ digits) : normalizeAmountStr ds = ds := by
  rw [normalizeAmountStr, splitOnce_none (dot_notMem_digits h)]

theorem normalizeAmountStr_point (hd : ds ∈ digits) (hf : fs ∈ digits) :
    normalizeAmountStr (ds ++ '.' :: fs) = if fs.all (· = '0') then ds else ds ++ '.' :: fs := by
  have hne : fs.isEmpty = false := by
    cases fs with
    | nil => exact absurd rfl hf.1
    | cons c cs => rfl
  rw [normalizeAmountStr, splitOnce_append (dot_notMem_digits hd)]
  simp only [hne, Bool.not_false, Bool.and_true]

/-- The normalised text stands for the same wats. -/
theorem isWats_normalize {wats : Nat} (h : IsWats amt wats) : IsWats (normalizeAmountStr amt) wats := by
  cases h with
  | whole hd =>
    rw [normalizeAmountStr_whole hd]
    exact .whole hd
  | @point ds fs hd hf hlen =>
    rw [normalizeAmountStr_point hd hf]
    split
    · rename_i hzeros
      have hrep : fs = [] ++ List.replicate fs.length '0' := List.eq_replicate_of_mem (by simpa using hzeros)
      have hfrac : decimal fs = 0 := by
        rw [hrep, decimal_padded]
        exact Nat.zero_mul _
      rw [hfrac, Nat.zero_mul, Nat.add_zero]
      exact .whole hd
    · exact .point hd hf hlen

theorem normalizeAmountStr_twice (h : amt ∈ numerals) : normalizeAmountStr (normalizeAmountStr amt) =
    normalizeAmountStr amt := by
  rcases mem_numerals.1 h with hd | ⟨ds, hd, fs, hf, rfl⟩
  · rw [normalizeAmountStr_whole hd, normalizeAmountStr_whole hd]
  · rw [normalizeAmountStr_point hd hf]
    split
    · exact normalizeAmountStr_whole hd
    · rename_i hne
      rw [normalizeAmountStr_point hd hf, if_neg hne]

/-! ## Digits without a leading zero -/

theorem digitChar_of_isDigit {c : Char} (h : c.isDigit = true) : (c.toNat - 48).digitChar = c ∧
    c.toNat - 48 < 10 := by
  rw [Char.isDigit, Bool.and_eq_true, decide_eq_true_iff, decide_eq_true_iff] at h
  have hlo : 48 ≤ c.toNat := h.1
  have hhi : c.toNat ≤ 57 := h.2
  have hlt : c.toNat - 48 < 10 := by omega
  refine ⟨Char.toNat_inj.1 ?_, hlt⟩
  rw [Nat.toNat_digitChar_of_lt_ten hlt]
  omega

/-- Behind digits of a positive number, every digit is one of the number they make together. -/
theorem toDigits_ofDigitChars (hd : ∀ c ∈ ds, c.isDigit = true) {n : Nat} (hn : 0 < n) :
    Nat.toDigits 10 (Nat.ofDigitChars 10 ds n) = Nat.toDigits 10 n ++ ds := by
  induction ds generalizing n with
  | nil => simp
  | cons c cs ih =>
    obtain ⟨hc, hlt⟩ := digitChar_of_isDigit (hd c List.mem_cons_self)
    have happend := Nat.toDigits_append_toDigits (b := 10) (by decide) hn hlt
    rw [Nat.toDigits_of_lt_base hlt, hc] at happend
    have hpos : 0 < 10 * n + (c.toNat - 48) := by omega
    rw [Nat.ofDigitChars_cons]
    show Nat.toDigits 10 (Nat.ofDigitChars 10 cs (10 * n + (c.toNat - 48))) = _
    rw [ih (fun x hx => hd x (List.mem_cons_of_mem _ hx)) hpos, ← happend, List.append_assoc, List.singleton_append]

/-- Written without leading zeros. -/
def Unpadded (ds : List Char) : Prop := ds.head? = some '0' → ds = ['0']

/-- Such digits are what their number is printed as. -/
theorem toDigits_decimal (hd : ds ∈ digits) (hu : Unpadded ds) : Nat.toDigits 10 (decimal ds) = ds := by
  cases ds with
  | nil => exact absurd rfl hd.1
  | cons c cs =>
    obtain ⟨hc, hlt⟩ := digitChar_of_isDigit (hd.2 c List.mem_cons_self)
    have hrest : decimal (c :: cs) = Nat.ofDigitChars 10 cs (c.toNat - 48) := by
      rw [decimal, Nat.ofDigitChars_cons, Nat.mul_zero, Nat.zero_add]
      rfl
    by_cases hzero : c.toNat - 48 = 0
    · have hc0 : c = '0' := by rw [← hc, hzero]; rfl
      rw [hu (by rw [hc0]; rfl)]
      rfl
    · rw [hrest, toDigits_ofDigitChars (fun x hx => hd.2 x (List.mem_cons_of_mem _ hx)) (Nat.pos_of_ne_zero hzero),
        Nat.toDigits_of_lt_base hlt, hc]
      rfl

theorem zeros_of_decimal (hf : ∀ c ∈ fs, c.isDigit = true) (h : decimal fs = 0) : ∀ c ∈ fs, c = '0' := by
  induction fs with
  | nil => simp
  | cons c cs ih =>
    obtain ⟨hc, -⟩ := digitChar_of_isDigit (hf c List.mem_cons_self)
    have hrest : decimal (c :: cs) = Nat.ofDigitChars 10 cs (c.toNat - 48) := by
      rw [decimal, Nat.ofDigitChars_cons, Nat.mul_zero, Nat.zero_add]
      rfl
    rw [hrest, Nat.ofDigitChars_eq_ofDigitChars_zero] at h
    have hzero : c.toNat - 48 = 0 := by
      have hpow : 0 < 10 ^ cs.length := Nat.pow_pos (by decide)
      by_contra hne
      have hmul := Nat.mul_pos hpow (Nat.pos_of_ne_zero hne)
      omega
    have hc0 : c = '0' := by rw [← hc, hzero]; rfl
    have htail : decimal cs = 0 := Nat.eq_zero_of_add_eq_zero_left h
    intro x hx
    rcases List.mem_cons.1 hx with rfl | hx
    · exact hc0
    · exact ih (fun x hx => hf x (List.mem_cons_of_mem _ hx)) htail x hx

/-! ## Keys -/

/-- A token of amount `a`, its text cut at the first colon. -/
def Headed (t : String) (a : Amount) (amt suffix : List Char) : Prop :=
  Spells amt a ∧ t.toList = 'e' :: (amt ++ ':' :: suffix)

theorem Headed.normalize {t : String} (h : Headed t a amt suffix) :
    (productionNormalizePublic t).toList = 'e' :: (normalizeAmountStr amt ++ ':' :: suffix) := by
  have hcut : splitOnce ':' (amt ++ ':' :: suffix) = some (amt, suffix) :=
    splitOnce_append (colon_notMem_numeral h.1.numeral)
  rw [productionNormalizePublic, chars_eq_toList, h.2]
  simp only [hcut, String.toList_ofList, List.cons_append]

theorem spells_normalize (h : Spells amt a) : Spells (normalizeAmountStr amt) a := by
  obtain ⟨wats, hs, hval⟩ := h
  exact ⟨wats, isWats_normalize hs, hval⟩

theorem Headed.normalize_headed {t : String} (h : Headed t a amt suffix) :
    Headed (productionNormalizePublic t) a (normalizeAmountStr amt) suffix := ⟨spells_normalize h.1, h.normalize⟩

theorem Headed.normalize_twice {t : String} (h : Headed t a amt suffix) :
    productionNormalizePublic (productionNormalizePublic t) = productionNormalizePublic t := by
  refine String.toList_inj.1 ?_
  rw [h.normalize_headed.normalize, h.normalize, normalizeAmountStr_twice h.1.numeral]

theorem webcash_headed {t h : String} (hp : webcashToken "public" t = some (a, h)) :
    ∃ amt suffix, Headed t a amt suffix := by
  obtain ⟨amt, hex, hs, -, -, htext⟩ := webcashToken_eq_some.1 hp
  exact ⟨amt, _, hs, htext⟩

theorem issued_headed {t h : String} {env : ContractId × PgpFingerprint}
    (hp : issuedToken "public" t = some (a, h, env)) :
    ∃ amt suffix, Headed t a amt suffix := by
  obtain ⟨amt, hex, contract, issuer, hs, -, -, -, -, -, htext⟩ := issuedToken_eq_some.1 hp
  exact ⟨amt, _, hs, htext⟩

theorem webcash_normalize {t : String} {p : PublicWebcash} (hp : PublicWebcash.parse t = some p) :
    PublicWebcash.parse (productionNormalizePublic t) = some p := by
  rw [PublicWebcash.parse_eq_some] at hp ⊢
  obtain ⟨amt, hex, hs, hhex, hhash, htext⟩ := webcashToken_eq_some.1 hp
  exact webcashToken_eq_some.2 ⟨_, hex, spells_normalize hs, hhex, hhash, Headed.normalize ⟨hs, htext⟩⟩

theorem issued_normalize {t : String} {p : PublicIssued} (hp : PublicIssued.parse t = some p) :
    PublicIssued.parse (productionNormalizePublic t) = some p := by
  rw [PublicIssued.parse_eq_some] at hp ⊢
  obtain ⟨amt, hex, contract, issuer, hs, hhex, hcontract, hissuer, hhash, henv, htext⟩ := issuedToken_eq_some.1 hp
  exact issuedToken_eq_some.2 ⟨_, hex, contract, issuer, spells_normalize hs, hhex, hcontract, hissuer, hhash, henv,
    Headed.normalize ⟨hs, htext⟩⟩

/-- The whole units of `e{amount}…`, as they are written. -/
def wholeText (t : String) : List Char := (t.toList.drop 1).takeWhile Char.isDigit

/-- What follows the first `:`. -/
def afterColon (t : String) : Option (List Char) := (splitOnce ':' t.toList).map Prod.snd

/-- Accepted as a public token with an amount, by one of the three parsers. -/
inductive Carries (t : String) : Amount → Prop
  | webcash {p : PublicWebcash} (h : WireFormat.webcash.parsePublic t = some p) : Carries t p.amount
  | fungible {p : PublicIssued} (h : WireFormat.rgbFungible.parsePublic t = some p) : Carries t p.amount
  | voucher {p : PublicIssued} (h : WireFormat.voucher.parsePublic t = some p) : Carries t p.amount

theorem Carries.headed {t : String} (h : Carries t a) : ∃ amt suffix, Headed t a amt suffix := by
  cases h with
  | webcash h => exact webcash_headed (PublicWebcash.parse_eq_some.1 h)
  | fungible h => exact issued_headed (PublicIssued.parse_eq_some.1 h)
  | voucher h => exact issued_headed (PublicIssued.parse_eq_some.1 h)

theorem Headed.afterColon_eq {t : String} (h : Headed t a amt suffix) : afterColon t = some suffix := by
  have hcolon : ':' ∉ 'e' :: amt := by
    have hamt := colon_notMem_numeral h.1.numeral
    simpa using hamt
  rw [afterColon, h.2, ← List.cons_append, splitOnce_append hcolon]
  rfl

theorem takeWhile_digits (hd : ds ∈ digits) {c : Char} (hc : c.isDigit = false) (rest : List Char) :
    (ds ++ c :: rest).takeWhile Char.isDigit = ds := by
  rw [List.takeWhile_append_of_pos fun x hx => hd.2 x hx, List.takeWhile_cons_of_neg (by simp [hc]), List.append_nil]

/-- A whole amount without leading zeros is normalised to the digits of its number. -/
theorem normalize_whole {t : String} (h : Headed t a amt suffix) (hwhole : (10 ^ 8 : Int) ∣ a.wats.val)
    (hu : Unpadded (wholeText t)) : normalizeAmountStr amt = Nat.toDigits 10 (a.wats.val.toNat / 10 ^ 8) := by
  obtain ⟨⟨wats, hs, hval⟩, htext⟩ := h
  have hdrop : t.toList.drop 1 = amt ++ ':' :: suffix := by rw [htext]; rfl
  have hnat : a.wats.val.toNat = wats := by omega
  rw [hnat]
  cases hs with
  | @whole ds hd =>
    have hds : wholeText t = amt := by rw [wholeText, hdrop, takeWhile_digits hd rfl]
    rw [normalizeAmountStr_whole hd, Nat.mul_div_cancel _ (by decide), toDigits_decimal hd (hds ▸ hu)]
  | @point ds fs hd hf hlen =>
    have hds : wholeText t = ds := by
      rw [wholeText, hdrop, List.append_assoc, List.cons_append, takeWhile_digits hd rfl]
    have hlt : decimal fs * 10 ^ (8 - fs.length) < 10 ^ 8 := by
      calc decimal fs * 10 ^ (8 - fs.length) < 10 ^ fs.length * 10 ^ (8 - fs.length) :=
            Nat.mul_lt_mul_of_pos_right (decimal_lt hf.2) (Nat.pow_pos (by decide))
        _ = 10 ^ 8 := by rw [← Nat.pow_add, Nat.add_sub_cancel' hlen]
    have hzero : decimal fs * 10 ^ (8 - fs.length) = 0 := by omega
    have hfrac : decimal fs = 0 := by
      rcases Nat.mul_eq_zero.1 hzero with h | h
      · exact h
      · exact absurd h (Nat.pow_pos (by decide)).ne'
    rw [normalizeAmountStr_point hd hf, if_pos (by simpa using zeros_of_decimal hf.2 hfrac), hzero, Nat.add_zero,
      Nat.mul_div_cancel _ (by decide), toDigits_decimal hd (hds ▸ hu)]

/-- What a key in an answer owes the token it stands for. -/
structure KeepsToken (normalize : String → String) : Prop where
  webcash : ∀ t p, WireFormat.webcash.parsePublic t = some p → WireFormat.webcash.parsePublic (normalize t) = some p
  fungible : ∀ t p, WireFormat.rgbFungible.parsePublic t = some p →
    WireFormat.rgbFungible.parsePublic (normalize t) = some p
  voucher : ∀ t p, WireFormat.voucher.parsePublic t = some p → WireFormat.voucher.parsePublic (normalize t) = some p
  twice : ∀ t a, Carries t a → normalize (normalize t) = normalize t
  /-- One key for the spellings of a whole amount. -/
  same_key : ∀ t t' a, Carries t a → Carries t' a → (10 ^ 8 : Int) ∣ a.wats.val → Unpadded (wholeText t) →
    Unpadded (wholeText t') → afterColon t = afterColon t' → normalize t = normalize t'

/-- **Key normalisation keeps the token.** -/
theorem normalize_keeps_token : KeepsToken productionNormalizePublic where
  webcash _ _ hp := webcash_normalize hp
  fungible _ _ hp := issued_normalize hp
  voucher _ _ hp := issued_normalize hp
  twice t a h := by
    obtain ⟨amt, suffix, hh⟩ := h.headed
    exact hh.normalize_twice
  same_key t t' a h h' hwhole hu hu' hcolon := by
    obtain ⟨amt, suffix, hh⟩ := h.headed
    obtain ⟨amt', suffix', hh'⟩ := h'.headed
    rw [hh.afterColon_eq, hh'.afterColon_eq, Option.some.injEq] at hcolon
    refine String.toList_inj.1 ?_
    rw [hh.normalize, hh'.normalize, normalize_whole hh hwhole hu, normalize_whole hh' hwhole hu', hcolon]

end Webycash
