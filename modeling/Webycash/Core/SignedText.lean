import Webycash.Core.AmountText
import Mathlib.Data.Rat.Cast.Order
import Mathlib.Tactic.FieldSimp
import Mathlib.Tactic.Linarith
import Mathlib.Tactic.Ring
/-!
# The language of `Amount::from_str` (`asset-core/src/amount.rs:144`)

`AmountError::InvalidFormat` describes the text as `digits[.digits]`, with a leading `-` for a negative
amount (`IsNumber`). The two parts go to the parser of `i64`, which has a sign syntax of its own, so a text
with a further sign is read as well (`parse_ok_iff`); and the minus is applied after the magnitude was
checked, so the smallest `i64` cannot be read. These are the only two differences
(`from_str_exact_iff`).
-/

namespace Webycash

open Grammar

/-! ## What a decimal text denotes -/

/-- `digits`, or `digits.` and up to eight digits. -/
inductive IsDecimal : List Char → ℚ → Prop
  | whole {ds : List Char} (hd : ds ∈ digits) : IsDecimal ds (decimal ds)
  | point {ds fs : List Char} (hd : ds ∈ digits) (hf : ∀ c ∈ fs, c.isDigit = true) (hlen : fs.length ≤ 8) :
    IsDecimal (ds ++ '.' :: fs) (decimal ds + decimal fs / 10 ^ fs.length)

/-- The same behind an optional `-`. -/
inductive IsNumber : List Char → ℚ → Prop
  | plain {text : List Char} {q : ℚ} (h : IsDecimal text q) : IsNumber text q
  | negative {text : List Char} {q : ℚ} (h : IsDecimal text q) : IsNumber ('-' :: text) (-q)

/-! ## What the parser takes -/

/-- The sign `str::parse::<i64>` allows in front of digits. -/
inductive Sign
  | bare
  | plus
  | minus
  deriving DecidableEq

namespace Sign

def text : Sign → List Char
  | bare => []
  | plus => ['+']
  | minus => ['-']

def apply : Sign → Nat → Int
  | minus, n => -n
  | _, n => n

theorem length_text : ∀ σ : Sign, σ.text.length = if σ = bare then 0 else 1
  | bare => rfl
  | plus => rfl
  | minus => rfl

end Sign

/-- One or two signed parts around a dot: the whole part, and the fraction filled up to eight places. -/
inductive Parts : Sign → Sign → List Char → Int → Int → Prop
  | whole {σ : Sign} {ds : List Char} (hd : ds ∈ digits) : Parts σ .bare (σ.text ++ ds) (σ.apply (decimal ds)) 0
  | point {σ τ : Sign} {ds fs : List Char} (hd : ds ∈ digits) (hf : ∀ c ∈ fs, c.isDigit = true)
    (hlen : (τ.text ++ fs).length ≤ 8) :
    Parts σ τ (σ.text ++ ds ++ '.' :: (τ.text ++ fs)) (σ.apply (decimal ds))
      (τ.apply (decimal fs * 10 ^ (8 - (τ.text ++ fs).length)))

/-- The text behind the leading `-`, where there is one. -/
inductive Opens : Bool → List Char → List Char → Prop
  | negative {text : List Char} : Opens true text ('-' :: text)
  | plain {text : List Char} (h : text.head? ≠ some '-') : Opens false text text

/-- The two parts together, where neither step leaves `i64`. -/
structure Fits (w f : Int) : Prop where
  whole : I64.InRange (w * 10 ^ 8)
  total : I64.InRange (w * 10 ^ 8 + f)

/-- A text with a sign beyond the leading `-`, in a place where the parser of `i64` takes one. -/
def StraySigned (input : List Char) : Prop := ∃ neg text σ τ w f,
  Opens neg text input ∧ Parts σ τ text w f ∧ (σ ≠ .bare ∨ τ ≠ .bare) ∧ Fits w f

variable {ds fs text input whole frac : List Char} {σ τ : Sign} {w f : Int} {a : Amount} {neg : Bool} {q : ℚ}
  {c : Char}

/-! ## Reading one part -/

theorem ofChars_signed (h : ds ∈ digits) : I64.ofChars (σ.text ++ ds) = I64.ofInt? (σ.apply (decimal ds)) := by
  cases σ with
  | bare => exact ofChars_digits h
  | plus =>
    show (I64.digits? ds).bind _ = _
    rw [digits?_digits h, Option.bind_some]
    simp only [Sign.apply]
  | minus =>
    show (I64.digits? ds).bind _ = _
    rw [digits?_digits h, Option.bind_some]
    simp only [Sign.apply]

theorem digits?_eq_some {n : Nat} (h : I64.digits? ds = some n) : ds ∈ digits ∧ n = decimal ds := by
  unfold I64.digits? at h
  split at h
  · rename_i hd
    cases h
    exact ⟨⟨hd.1, List.all_eq_true.1 hd.2⟩, rfl⟩
  · cases h

theorem ofChars_eq_some {z : I64} (h : I64.ofChars whole = some z) :
    ∃ σ : Sign, ∃ ds ∈ digits, whole = σ.text ++ ds ∧ z.val = σ.apply (decimal ds) := by
  unfold I64.ofChars at h
  split at h
  · obtain ⟨n, hn, hz⟩ := Option.bind_eq_some_iff.1 h
    obtain ⟨hd, rfl⟩ := digits?_eq_some hn
    exact ⟨.minus, _, hd, rfl, I64.ofInt?_eq_some.1 hz⟩
  · obtain ⟨n, hn, hz⟩ := Option.bind_eq_some_iff.1 h
    obtain ⟨hd, rfl⟩ := digits?_eq_some hn
    exact ⟨.plus, _, hd, rfl, I64.ofInt?_eq_some.1 hz⟩
  · obtain ⟨n, hn, hz⟩ := Option.bind_eq_some_iff.1 h
    obtain ⟨hd, rfl⟩ := digits?_eq_some hn
    exact ⟨.bare, _, hd, rfl, I64.ofInt?_eq_some.1 hz⟩

/-! ## Splitting at the dot -/

/-- A letter that is neither a digit nor a dot. -/
def isSign (c : Char) : Prop := c = '+' ∨ c = '-'

theorem mem_sign (h : c ∈ σ.text) : isSign c := by
  cases σ with
  | bare => cases h
  | plus => exact Or.inl (List.mem_singleton.1 h)
  | minus => exact Or.inr (List.mem_singleton.1 h)

theorem dot_notMem_sign : '.' ∉ σ.text := by
  intro h
  rcases mem_sign h with h | h <;> cases h

theorem dot_notMem_signed (h : ∀ c ∈ ds, c.isDigit = true) : '.' ∉ σ.text ++ ds := by
  intro hmem
  rcases List.mem_append.1 hmem with hmem | hmem
  · exact dot_notMem_sign hmem
  · exact absurd (h _ hmem) (by decide)

theorem text_of_split (h : splitOnChar '.' text = [whole]) : text = whole := by
  rw [splitOnChar_eq] at h
  have hj : List.intercalate ['.'] (text.splitOn '.') = text := List.intercalate_splitOn '.'
  rw [h] at hj
  simpa using hj.symm

theorem text_of_split_pair (h : splitOnChar '.' text = [whole, frac]) : text = whole ++ '.' :: frac := by
  rw [splitOnChar_eq] at h
  have hj : List.intercalate ['.'] (text.splitOn '.') = text := List.intercalate_splitOn '.'
  rw [h] at hj
  simpa [List.intercalate, List.intersperse] using hj.symm

theorem split_whole (h : '.' ∉ whole) : splitOnChar '.' whole = [whole] := by
  rw [splitOnChar_eq, List.splitOn_eq_singleton h]

theorem split_pair (hw : '.' ∉ whole) (hf : '.' ∉ frac) :
    splitOnChar '.' (whole ++ '.' :: frac) = [whole, frac] := by
  rw [splitOnChar_eq, List.splitOn_append_cons_self_of_not_mem hw, List.splitOn_eq_singleton hf]

/-! ## The fraction filled up to eight places -/

theorem length_le_byteLen (cs : List Char) : cs.length ≤ byteLen cs := by
  induction cs with
  | nil => exact Nat.le_refl 0
  | cons c cs ih =>
    have hc : 0 < c.utf8Size := c.utf8Size_pos
    have hcons : byteLen (c :: cs) = c.utf8Size + byteLen cs := by simp [byteLen]
    rw [hcons, List.length_cons]
    omega

theorem byteLen_signed (h : ∀ c ∈ ds, c.isDigit = true) : byteLen (σ.text ++ ds) = (σ.text ++ ds).length := by
  have hone : (σ.text ++ ds).map Char.utf8Size = (σ.text ++ ds).map fun _ => 1 := by
    refine List.map_congr_left fun c hc => ?_
    rcases List.mem_append.1 hc with hc | hc
    · rcases mem_sign hc with rfl | rfl <;> rfl
    · exact utf8Size_digit (h c hc)
  rw [byteLen, hone]
  simp

theorem filled_digits (h : ∀ c ∈ fs, c.isDigit = true) :
    fs ++ List.replicate (8 - (τ.text ++ fs).length) '0' ∈ digits := by
  refine ⟨fun hnil => ?_, fun c hc => ?_⟩
  · have hlen := congrArg List.length hnil
    have hsign := τ.length_text
    rw [List.length_append, List.length_replicate, List.length_append, List.length_nil] at hlen
    split at hsign <;> omega
  · rcases List.mem_append.1 hc with hc | hc
    · exact h c hc
    · rw [List.eq_of_mem_replicate hc]
      rfl

/-- Filling up with zeros makes no sign, so the sign stands in the text itself. -/
theorem fraction_of_filled {k : Nat} (h : frac ++ List.replicate k '0' = τ.text ++ ds) (hd : ds ∈ digits) :
    ∃ fs : List Char, (∀ c ∈ fs, c.isDigit = true) ∧ frac = τ.text ++ fs ∧ ds = fs ++
      List.replicate k '0' := by
  rcases List.append_eq_append_iff.1 h with ⟨r, hsign, hzeros⟩ | ⟨fs, hfrac, hds⟩
  · have hr : r = [] := by
      refine List.eq_nil_iff_forall_not_mem.2 fun c hc => ?_
      have hzero : c = '0' := List.eq_of_mem_replicate (hzeros ▸ List.mem_append_left ds hc)
      rcases mem_sign (hsign ▸ List.mem_append_right frac hc) with h | h <;> rw [hzero] at h <;> cases h
    subst hr
    refine ⟨[], by simp, by simpa using hsign.symm, by simpa using hzeros.symm⟩
  · exact ⟨fs, fun c hc => hd.2 c (hds ▸ List.mem_append_left _ hc), hfrac, hds⟩

theorem decimal_lt (h : ∀ c ∈ ds, c.isDigit = true) : decimal ds < 10 ^ ds.length := by
  induction ds using List.reverseRecOn with
  | nil => decide
  | append_singleton ds c ih =>
    have hc : c.toNat - '0'.toNat < 10 := by
      have hdigit := h c (by simp)
      rw [Char.isDigit, Bool.and_eq_true, decide_eq_true_iff, decide_eq_true_iff] at hdigit
      have hle : c.toNat ≤ '9'.toNat := hdigit.2
      exact Nat.lt_of_le_of_lt (Nat.sub_le_sub_right hle _) (by decide)
    have ih := ih fun x hx => h x (List.mem_append_left _ hx)
    rw [decimal, Nat.ofDigitChars_append, Nat.ofDigitChars_cons, Nat.ofDigitChars_nil, ← decimal, List.length_append,
      List.length_singleton, Nat.pow_succ]
    omega

/-- One place is taken by a sign, where there is one. -/
theorem Parts.bounds (h : Parts σ τ text w f) : -10 ^ 7 < f ∧ f < 10 ^ 8 := by
  cases h with
  | whole hd => decide
  | @point _ ds fs hd hf hlen =>
    have hfill : decimal fs * 10 ^ (8 - (τ.text ++ fs).length) < 10 ^ (8 - τ.text.length) := by
      rw [← decimal_padded]
      refine Nat.lt_of_lt_of_le (decimal_lt (filled_digits hf).2) (Nat.pow_le_pow_right (by decide) ?_)
      rw [List.length_append, List.length_replicate, List.length_append]
      rw [List.length_append] at hlen
      omega
    generalize decimal fs * 10 ^ (8 - (τ.text ++ fs).length) = n at hfill ⊢
    cases τ with
    | bare =>
      have hn : n < 10 ^ 8 := hfill
      simp only [Sign.apply]
      omega
    | plus =>
      have hn : n < 10 ^ 7 := hfill
      simp only [Sign.apply]
      omega
    | minus =>
      have hn : n < 10 ^ 7 := hfill
      simp only [Sign.apply]
      omega

/-! ## The whole text -/

/-- The magnitude never is the smallest `i64`, so turning its sign does not wrap. -/
theorem Parts.ne_min (h : Parts σ τ text w f) (hfit : Fits w f) : w * 10 ^ 8 + f ≠ -9223372036854775808 := by
  have hb := h.bounds
  have hw := hfit.whole
  unfold I64.InRange at hw
  omega

theorem val_negate (v : I64) (h : v.val ≠ -9223372036854775808) :
    (negate neg v).wats.val = if neg then -v.val else v.val := by
  have hlo := v.lo
  have hhi := v.hi
  cases neg with
  | false => rfl
  | true => exact I64.val_wrap ⟨by omega, by omega⟩

theorem exists_opens (input : List Char) : ∃ neg text, Opens neg text input := by
  by_cases h : input.head? = some '-'
  · obtain ⟨rest, rfl⟩ := List.head?_eq_some_iff.1 h
    exact ⟨true, rest, .negative⟩
  · exact ⟨false, input, .plain h⟩

theorem Opens.sign (h : Opens neg text input) : (input.head? == some '-') = neg := by
  cases h with
  | negative => rfl
  | plain h => simpa using h

theorem Opens.rest (h : Opens neg text input) : (if neg then input.tail else input) = text := by
  cases h <;> rfl

/-- What an accepted text consists of. -/
theorem parts_of_parse (h : parseAmountChars input = .ok a) : ∃ neg text σ τ w f,
    Opens neg text input ∧ Parts σ τ text w f ∧ Fits w f ∧ a.wats.val = if neg then -(w * 10 ^ 8 + f)
      else w * 10 ^ 8 + f := by
  obtain ⟨neg, text, ho⟩ := exists_opens input
  unfold parseAmountChars at h
  simp only [ho.sign, ho.rest] at h
  split at h
  · rename_i whole hsplit
    split at h
    · cases h
    · rename_i z hz
      split at h
      · cases h
      · rename_i wats hm
        cases h
        obtain ⟨σ, ds, hd, rfl, hval⟩ := ofChars_eq_some hz
        have hm := I64.val_checkedMul hm
        have htotal : wats.val = σ.apply (decimal ds) * 10 ^ 8 + 0 := by
          rw [hm, hval, Int.add_zero]
          rfl
        have hfit : Fits (σ.apply (decimal ds)) 0 :=
          ⟨by rw [← Int.add_zero (_ * _), ← htotal]; exact ⟨wats.lo, wats.hi⟩,
            by rw [← htotal]; exact ⟨wats.lo, wats.hi⟩⟩
        have hparts : Parts σ .bare text (σ.apply (decimal ds)) 0 := text_of_split hsplit ▸ .whole hd
        refine ⟨neg, text, σ, .bare, _, 0, ho, hparts, hfit, ?_⟩
        rw [val_negate wats (htotal ▸ hparts.ne_min hfit), htotal]
  · rename_i whole frac hsplit
    split at h
    · cases h
    · rename_i z hz
      split at h
      · cases h
      · rename_i hlen
        split at h
        · cases h
        · rename_i z' hz'
          split at h
          · cases h
          · rename_i wats hm
            cases h
            obtain ⟨σ, ds, hd, rfl, hval⟩ := ofChars_eq_some hz
            obtain ⟨τ, filled, hfilled, hfrac, hval'⟩ := ofChars_eq_some hz'
            obtain ⟨fs, hf, rfl, rfl⟩ := fraction_of_filled hfrac hfilled
            obtain ⟨prod, hprod, hadd⟩ := Option.bind_eq_some_iff.1 hm
            have hprod := I64.val_checkedMul hprod
            have hadd := I64.val_checkedAdd hadd
            rw [decimal_padded] at hval'
            rw [hval] at hprod
            rw [hprod, hval'] at hadd
            have hbytes := length_le_byteLen (τ.text ++ fs)
            have hfit : Fits (σ.apply (decimal ds)) (τ.apply (decimal fs * 10 ^ (8 - (τ.text ++ fs).length))) :=
              ⟨hprod ▸ ⟨prod.lo, prod.hi⟩, hadd ▸ ⟨wats.lo, wats.hi⟩⟩
            have hparts : Parts σ τ text (σ.apply (decimal ds))
                (τ.apply (decimal fs * 10 ^ (8 - (τ.text ++ fs).length))) := by
              rw [text_of_split_pair hsplit]
              exact .point hd hf (Nat.le_trans hbytes (Nat.not_lt.1 hlen))
            refine ⟨neg, text, σ, τ, _, _, ho, hparts, hfit, ?_⟩
            rw [val_negate wats (hadd ▸ hparts.ne_min hfit), hadd]
            rfl
  · cases h

theorem ofInt?_of_inRange {z : Int} (h : I64.InRange z) : ∃ v : I64, I64.ofInt? z = some v ∧ v.val = z :=
  ⟨⟨z, h.1, h.2⟩, I64.ofInt?_eq_some.2 rfl, rfl⟩

/-- Everything that consists of such parts is accepted. -/
theorem parse_of_parts (ho : Opens neg text input) (hp : Parts σ τ text w f) (hfit : Fits w f) :
    ∃ v : I64, v.val = w * 10 ^ 8 + f ∧ parseAmountChars input = .ok (negate neg v) := by
  have hbounds := hp.bounds
  have hwhole := hfit.whole
  unfold I64.InRange at hwhole
  obtain ⟨z, hz, hzval⟩ := ofInt?_of_inRange (z := w) ⟨by omega, by omega⟩
  obtain ⟨z', hz', hzval'⟩ := ofInt?_of_inRange (z := f) ⟨by omega, by omega⟩
  obtain ⟨prod, hprod, hpval⟩ := ofInt?_of_inRange hfit.whole
  obtain ⟨total, htotal, htval⟩ := ofInt?_of_inRange hfit.total
  have hmul : z.checkedMul Amount.scale = some prod := by
    rw [I64.checkedMul, hzval]
    exact hprod
  have hadd : prod.checkedAdd z' = some total := by
    rw [I64.checkedAdd, hpval, hzval']
    exact htotal
  unfold parseAmountChars
  simp only [ho.sign, ho.rest]
  cases hp with
  | whole hd =>
    have hprod0 : prod = total := I64.ext (by rw [hpval, htval, Int.add_zero])
    rw [split_whole (dot_notMem_signed hd.2)]
    simp only [ofChars_signed hd, hz, hmul, hprod0]
    exact ⟨total, htval, rfl⟩
  | @point _ ds fs hd hf hlen =>
    have hbytes : ¬ byteLen (τ.text ++ fs) > Amount.decimals := by
      rw [byteLen_signed hf]
      exact Nat.not_lt.2 hlen
    have hfrac : I64.ofChars (τ.text ++ fs ++ List.replicate (8 - (τ.text ++ fs).length) '0') = some z' := by
      rw [List.append_assoc, ofChars_signed (filled_digits hf), decimal_padded, hz']
    rw [split_pair (dot_notMem_signed hd.2) (dot_notMem_signed hf)]
    simp only [ofChars_signed hd, hz, if_neg hbytes, hfrac, hmul, Option.bind_some, hadd]
    exact ⟨total, htval, rfl⟩

/-! ## Decimal texts among them -/

theorem scaled_fraction {n k : Nat} (h : k ≤ 8) : ((n * 10 ^ (8 - k) : Nat) : ℚ) = n / 10 ^ k * 10 ^ 8 := by
  have hpow : (10 : ℚ) ^ 8 = 10 ^ (8 - k) * 10 ^ k := by
    rw [← pow_add]
    congr 1
    omega
  rw [hpow]
  push_cast
  field_simp

theorem Parts.isDecimal (h : Parts .bare .bare text w f) :
    ∃ q, IsDecimal text q ∧ ((w * 10 ^ 8 + f : Int) : ℚ) = q * 10 ^ 8 := by
  cases h with
  | @whole ds hd =>
    refine ⟨decimal ds, .whole hd, ?_⟩
    simp only [Sign.apply]
    push_cast
    ring
  | @point _ ds fs hd hf hlen =>
    refine ⟨_, .point hd hf hlen, ?_⟩
    rw [add_mul, ← scaled_fraction hlen]
    simp only [Sign.apply]
    push_cast
    rfl

theorem IsDecimal.parts (h : IsDecimal text q) :
    ∃ w f, Parts .bare .bare text w f ∧ 0 ≤ w ∧ 0 ≤ f ∧ ((w * 10 ^ 8 + f : Int) : ℚ) = q * 10 ^ 8 := by
  cases h with
  | whole hd =>
    refine ⟨_, 0, .whole hd, Int.natCast_nonneg _, le_rfl, ?_⟩
    simp only [Sign.apply]
    push_cast
    ring
  | point hd hf hlen =>
    refine ⟨_, _, .point hd hf hlen, Int.natCast_nonneg _, Int.natCast_nonneg _, ?_⟩
    rw [add_mul, ← scaled_fraction hlen]
    simp only [Sign.apply]
    push_cast
    rfl

theorem not_sign_of_digit (h : c.isDigit = true) : ¬ isSign c := by
  rintro (rfl | rfl) <;> exact absurd h (by decide)

theorem IsDecimal.unsigned (h : IsDecimal text q) (hc : c ∈ text) : ¬ isSign c := by
  cases h with
  | whole hd => exact not_sign_of_digit (hd.2 c hc)
  | point hd hf _ =>
    rcases List.mem_append.1 hc with hc | hc
    · exact not_sign_of_digit (hd.2 c hc)
    · rcases List.mem_cons.1 hc with rfl | hc
      · rintro (h | h) <;> cases h
      · exact not_sign_of_digit (hf c hc)

theorem IsDecimal.opens (h : IsDecimal text q) : Opens false text text := by
  refine .plain fun hhead => ?_
  exact h.unsigned (List.mem_of_head? hhead) (Or.inr rfl)

/-- A part with a sign shows it. -/
theorem Parts.signed (h : Parts σ τ text w f) (hs : σ ≠ .bare ∨ τ ≠ .bare) : ∃ c ∈ text, isSign c := by
  have key : ∀ ρ : Sign, ρ ≠ .bare → ∃ c ∈ ρ.text, isSign c := by
    intro ρ hρ
    cases ρ with
    | bare => exact absurd rfl hρ
    | plus => exact ⟨'+', by decide, Or.inl rfl⟩
    | minus => exact ⟨'-', by decide, Or.inr rfl⟩
  cases h with
  | whole hd =>
    obtain ⟨c, hc, hsign⟩ := key σ (by simpa using hs)
    exact ⟨c, by simp [hc], hsign⟩
  | point hd hf hlen =>
    rcases hs with hs | hs
    · obtain ⟨c, hc, hsign⟩ := key σ hs
      exact ⟨c, by simp [hc], hsign⟩
    · obtain ⟨c, hc, hsign⟩ := key τ hs
      exact ⟨c, by simp [hc], hsign⟩

/-- Such a text denotes nothing: its sign is neither the leading one nor a digit or a dot. -/
theorem not_isNumber_of_stray (hs : StraySigned input) : ¬ IsNumber input q := by
  obtain ⟨neg, text, σ, τ, w, f, ho, hp, hsign, -⟩ := hs
  obtain ⟨c, hc, hcs⟩ := hp.signed hsign
  intro h
  cases h with
  | plain h =>
    cases ho with
    | negative => exact h.unsigned (List.mem_cons_of_mem _ hc) hcs
    | plain _ => exact h.unsigned hc hcs
  | negative h =>
    cases ho with
    | negative => exact h.unsigned hc hcs
    | plain hhead => exact hhead rfl

theorem exists_of_stray (hs : StraySigned input) : ∃ a, parseAmountChars input = .ok a := by
  obtain ⟨neg, text, σ, τ, w, f, ho, hp, -, hfit⟩ := hs
  obtain ⟨v, -, hv⟩ := parse_of_parts ho hp hfit
  exact ⟨_, hv⟩

/-- The minus comes after the check of the magnitude, which does not reach `2 ^ 63`. -/
theorem ne_min_of_parse (h : parseAmountChars input = .ok a) : a.wats.val ≠ -9223372036854775808 := by
  obtain ⟨neg, text, σ, τ, w, f, -, hp, hfit, hval⟩ := parts_of_parse h
  have hmin := hp.ne_min hfit
  have htotal := hfit.total
  unfold I64.InRange at htotal
  rw [hval]
  cases neg with
  | false => exact hmin
  | true =>
    show -(w * 10 ^ 8 + f) ≠ _
    omega

theorem isNumber_of_parse (hs : ¬ StraySigned input) (h : parseAmountChars input = .ok a) :
    ∃ q, IsNumber input q ∧ (a.wats.val : ℚ) = q * 10 ^ 8 := by
  obtain ⟨neg, text, σ, τ, w, f, ho, hp, hfit, hval⟩ := parts_of_parse h
  have hbare : σ = .bare ∧ τ = .bare := by
    by_contra hne
    exact hs ⟨neg, text, σ, τ, w, f, ho, hp, not_and_or.1 hne, hfit⟩
  obtain ⟨rfl, rfl⟩ := hbare
  obtain ⟨q, hq, hsum⟩ := hp.isDecimal
  cases ho with
  | negative =>
    refine ⟨-q, .negative hq, ?_⟩
    rw [hval, neg_mul, ← hsum]
    simp
  | plain _ =>
    refine ⟨q, .plain hq, ?_⟩
    rw [hval, ← hsum]
    rfl

theorem parse_of_isNumber (hd : IsNumber input q) (ha : (a.wats.val : ℚ) = q * 10 ^ 8)
    (hmin : a.wats.val ≠ -9223372036854775808) : parseAmountChars input = .ok a := by
  have hlo := a.wats.lo
  have hhi := a.wats.hi
  cases hd with
  | plain h =>
    obtain ⟨w, f, hp, hw, hf, hsum⟩ := h.parts
    have hval : a.wats.val = w * 10 ^ 8 + f := by
      rw [← ha] at hsum
      exact_mod_cast hsum.symm
    obtain ⟨v, hv, hparse⟩ := parse_of_parts h.opens hp ⟨⟨by omega, by omega⟩, ⟨by omega, by omega⟩⟩
    rw [hparse]
    exact congrArg (Except.ok ∘ Amount.mk) (I64.ext (hv.trans hval.symm))
  | @negative text q h =>
    obtain ⟨w, f, hp, hw, hf, hsum⟩ := h.parts
    have hval : -a.wats.val = w * 10 ^ 8 + f := by
      have hneg : ((-a.wats.val : Int) : ℚ) = ((w * 10 ^ 8 + f : Int) : ℚ) := by
        rw [hsum, Int.cast_neg, ha]
        ring
      exact_mod_cast hneg
    obtain ⟨v, hv, hparse⟩ := parse_of_parts .negative hp ⟨⟨by omega, by omega⟩, ⟨by omega, by omega⟩⟩
    rw [hparse]
    have hnegate : (negate true v).wats = a.wats := by
      refine I64.ext ((val_negate v (by omega)).trans ?_)
      rw [if_pos rfl]
      omega
    exact congrArg (Except.ok ∘ Amount.mk) hnegate

/-- **What `Amount::from_str` reads.** The code reads exactly the decimal numbers with at most eight decimals
whose wats fit 64 bits, except that it also takes a stray sign and that it does not take the smallest one. -/
theorem from_str_exact_iff (s : String) :
    (∀ a, parseAmountStr s = .ok a ↔ ∃ q, IsNumber s.toList q ∧ (a.wats.val : ℚ) = q * 10 ^ 8) ↔
      ¬ StraySigned s.toList ∧ ¬ IsNumber s.toList (-9223372036854775808 / 10 ^ 8) := by
  constructor
  · intro h
    refine ⟨fun hs => ?_, fun hd => ?_⟩
    · obtain ⟨a, ha⟩ := exists_of_stray hs
      obtain ⟨q, hq, -⟩ := (h a).1 ha
      exact not_isNumber_of_stray hs hq
    · have hmin := (h ⟨⟨-9223372036854775808, by decide, by decide⟩⟩).2 ⟨_, hd, by norm_num⟩
      exact ne_min_of_parse hmin rfl
  · rintro ⟨hs, hd⟩ a
    refine ⟨isNumber_of_parse hs, ?_⟩
    rintro ⟨q, hq, ha⟩
    refine parse_of_isNumber hq ha fun hmin => hd ?_
    have hval : q = -9223372036854775808 / 10 ^ 8 := by
      rw [hmin] at ha
      push_cast at ha
      linarith
    exact hval ▸ hq

/-- Two signs are read as one number. -/
theorem from_str_double_minus : ¬ ∀ s : String, ∀ a : Amount,
    parseAmountStr s = .ok a ↔ ∃ q, IsNumber s.toList q ∧ (a.wats.val : ℚ) = q * 10 ^ 8 := by
  intro h
  have haccepts : parseAmountStr "--5" = .ok ⟨⟨500000000, by decide, by decide⟩⟩ := by decide +kernel
  obtain ⟨q, hq, -⟩ := (h _ _).1 haccepts
  generalize hs : ("--5").toList = text at hq
  have hs : text = ['-', '-', '5'] := hs.symm.trans (by decide)
  cases hq with
  | plain hd => exact hd.unsigned (by rw [hs]; exact List.mem_cons_self) (Or.inr rfl)
  | negative hd =>
    obtain rfl := (List.cons.inj hs).2
    exact hd.unsigned List.mem_cons_self (Or.inr rfl)

end Webycash
