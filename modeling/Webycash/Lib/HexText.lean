import Webycash.Core.Asset
/-!
# Hexadecimal text and its case

`Hex.decode` reads digits of either case, `Hex.encode` writes lower case. A text that is read is the
one that is written back exactly when it holds no upper-case digit.
-/

namespace Hex

/-- No `A` to `F`. -/
def LowerCase (text : List UInt8) : Prop := ∀ b ∈ text, ¬ (65 ≤ b ∧ b ≤ 70)

instance (text : List UInt8) : Decidable (LowerCase text) := inferInstanceAs (Decidable (∀ b ∈ text, _))

/-- The byte of a lower-case digit. -/
def digitByte (n : Nat) : UInt8 := UInt8.ofNat (digit n).toNat

theorem digitByte_low : ∀ n < 10, digitByte n = UInt8.ofNat (n + 48) := by decide

theorem digitByte_high : ∀ n < 16, 10 ≤ n → digitByte n = UInt8.ofNat (n + 87) := by decide

theorem not_upper_digitByte : ∀ n < 16, ¬ (65 ≤ digitByte n ∧ digitByte n ≤ 70) := by decide

theorem utf8_digit : ∀ n < 16, String.utf8EncodeChar (digit n) = [digitByte n] := by decide

/-- A digit that is not upper case is the digit of its value. -/
theorem digitByte_of_value {c : UInt8} {n : Nat} (h : value c = some n) (hlow : ¬ (65 ≤ c ∧ c ≤ 70)) :
    n < 16 ∧ digitByte n = c := by
  unfold value at h
  split at h
  · rename_i hc
    have h₁ := UInt8.le_iff_toNat_le.1 hc.1
    have h₂ := UInt8.le_iff_toNat_le.1 hc.2
    simp only [UInt8.reduceToNat] at h₁ h₂
    cases h
    refine ⟨by omega, ?_⟩
    rw [digitByte_low _ (by omega), Nat.sub_add_cancel h₁, UInt8.ofNat_toNat]
  · split at h
    · rename_i hc
      have h₁ := UInt8.le_iff_toNat_le.1 hc.1
      have h₂ := UInt8.le_iff_toNat_le.1 hc.2
      simp only [UInt8.reduceToNat] at h₁ h₂
      cases h
      refine ⟨by omega, ?_⟩
      have hval : c.toNat - 87 + 87 = c.toNat := by omega
      rw [digitByte_high _ (by omega) (by omega), hval, UInt8.ofNat_toNat]
    · cases h

/-- The text of bytes, byte by byte. -/
theorem asBytes_encode (bytes : List UInt8) : Webycash.asBytes (encode bytes) =
    bytes.flatMap fun b => [digitByte (b.toNat / 16), digitByte (b.toNat % 16)] := by
  rw [encode, Webycash.asBytes_ofList, encodeChars, List.flatMap_assoc]
  refine List.flatMap_congr fun b _ => ?_
  have hb := b.toNat_lt
  rw [List.flatMap_cons, List.flatMap_singleton, utf8_digit _ (by omega), utf8_digit _ (by omega)]
  rfl

theorem lowerCase_encode (bytes : List UInt8) : LowerCase (Webycash.asBytes (encode bytes)) := by
  intro c hc
  rw [asBytes_encode] at hc
  obtain ⟨b, -, hc⟩ := List.mem_flatMap.1 hc
  have hb := b.toNat_lt
  rcases List.mem_pair.1 hc with rfl | rfl
  · exact not_upper_digitByte _ (by omega)
  · exact not_upper_digitByte _ (by omega)

theorem decodeFrom_encode : ∀ (i : Nat) (text bytes : List UInt8), text.length % 2 = 0 →
    decodeFrom i text = .ok bytes → LowerCase text →
    Webycash.asBytes (encode bytes) = text
  | _, [], bytes, _, h, _ => by
    cases h
    rfl
  | _, [_], _, hlen, _, _ => absurd hlen (by simp)
  | i, a :: b :: text, bytes, hlen, h, hlow => by
    unfold decodeFrom at h
    split at h
    · rename_i hi lo ha hb
      obtain ⟨rest, hrest, rfl⟩ : ∃ rest, decodeFrom (i + 2) text = .ok rest ∧
          UInt8.ofNat (hi * 16 + lo) :: rest = bytes := by
        cases hrest : decodeFrom (i + 2) text with
        | error e =>
          rw [hrest] at h
          cases h
        | ok rest =>
          rw [hrest] at h
          cases h
          exact ⟨rest, rfl, rfl⟩
      obtain ⟨hhi, hahi⟩ := digitByte_of_value ha (hlow a (by simp))
      obtain ⟨hlo, hblo⟩ := digitByte_of_value hb (hlow b (by simp))
      have ih := decodeFrom_encode (i + 2) text rest
        (by rw [List.length_cons, List.length_cons] at hlen; omega) hrest fun c hc => hlow c (by simp [hc])
      have hbyte : (UInt8.ofNat (hi * 16 + lo)).toNat = hi * 16 + lo := by
        rw [UInt8.toNat_ofNat']
        exact Nat.mod_eq_of_lt (by omega)
      have hdiv : (hi * 16 + lo) / 16 = hi := by omega
      have hmod : (hi * 16 + lo) % 16 = lo := by omega
      rw [asBytes_encode] at ih ⊢
      rw [List.flatMap_cons, hbyte, hdiv, hmod, hahi, hblo, ih]
      rfl
    · cases h
    · cases h

theorem digitByte_inj : ∀ n < 16, ∀ m < 16, digitByte n = digitByte m → n = m := by decide

/-- A text is the text of one byte string. -/
theorem encode_injective {bytes bytes' : List UInt8} (h : encode bytes = encode bytes') : bytes = bytes' := by
  have htext : bytes.flatMap (fun b => [digitByte (b.toNat / 16), digitByte (b.toNat % 16)]) =
      bytes'.flatMap fun b => [digitByte (b.toNat / 16), digitByte (b.toNat % 16)] := by
    rw [← asBytes_encode, ← asBytes_encode, h]
  clear h
  induction bytes generalizing bytes' with
  | nil =>
    cases bytes' with
    | nil => rfl
    | cons b' bytes' => simp at htext
  | cons b bytes ih =>
    cases bytes' with
    | nil => simp at htext
    | cons b' bytes' =>
      obtain ⟨hhigh, hrest⟩ := List.cons.inj htext
      obtain ⟨hlow, hrest⟩ := List.cons.inj hrest
      have hb := b.toNat_lt
      have hb' := b'.toNat_lt
      have hdiv := digitByte_inj _ (by omega) _ (by omega) hhigh
      have hmod := digitByte_inj _ (by omega) _ (by omega) hlow
      rw [ih hrest, UInt8.toNat_inj.1 (by omega : b.toNat = b'.toNat)]

/-- **Written back as it was read.** -/
theorem encode_eq_iff {text : String} {bytes : List UInt8} (h : decode (Webycash.asBytes text) = .ok bytes) :
    encode bytes = text ↔ LowerCase (Webycash.asBytes text) := by
  constructor
  · rintro rfl
    exact lowerCase_encode bytes
  · intro hlow
    unfold decode at h
    split at h
    · cases h
    · rename_i heven
      have hbytes := decodeFrom_encode 0 _ _ (not_not.1 heven) h hlow
      exact String.toByteArray_inj.1 (ByteArray.ext (Array.toList_inj.1 hbytes))

end Hex
