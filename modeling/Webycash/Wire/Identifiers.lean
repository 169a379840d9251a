import Webycash.Wire.Formats
/-!
# Typed constructors of the identifiers (`asset-core/src/lib.rs:51`)

`ContractId::parse` and `PgpFingerprint::parse` check the shape that the token parsers recognise with
`slug` and `fingerprint`; the comment on the first one says that it is the same shape. It is, up to a bound:
`slug` has none, so a token may carry a contract id of more than 64 characters, and that is the only
difference (`identifiers_agree_iff`).

| here | there |
| --- | --- |
| `PgpFingerprint.parse` | lib.rs:51 |
| `ContractId.parse`     | lib.rs:98 |
| `Lowercase`            | `str::to_lowercase` of the standard library |
-/

namespace Webycash

open Grammar Wire

/-- `'0'..='9' | 'a'..='f'`. -/
def isLowerHex (c : Char) : Bool := ('0' ≤ c && c ≤ '9') || ('a' ≤ c && c ≤ 'f')

def PgpFingerprint.parse (s : String) : Except AssetError PgpFingerprint :=
  if byteLen s.toList ≠ 40 then .error (.parse ("PgpFingerprint must be 40 hex chars, got " ++
    toString (byteLen s.toList)))
  else if !s.toList.all isLowerHex then .error (.parse "PgpFingerprint must be lowercase hex")
  else .ok ⟨s⟩

/-- The third check is the character class of `slug`. -/
def ContractId.parse (s : String) : Except AssetError ContractId :=
  if s.toList.isEmpty then .error (.parse "ContractId cannot be empty")
  else if byteLen s.toList > 64 then .error (.parse ("ContractId longer than 64 chars: " ++
    toString (byteLen s.toList)))
  else if !s.toList.all isSlug then .error (.parse "ContractId must be alphanumeric, '-', or '_'")
  else .ok ⟨s⟩

/-! ## Lower case -/

/-- What one letter may become. Outside ASCII, the only letters that lower to ASCII ones are the dotted
capital `I` and the Kelvin sign. -/
def Lowers (c : Char) (piece : List Char) : Prop :=
  if c.toNat < 128 then piece = [c.toLower] else piece ≠ [] ∧ ∀ d ∈ piece, d.toNat < 128 → d = 'i' ∨ d = 'k'

/-- `str::to_lowercase`: letter by letter, up to the sigma at the end of a word. The tables belong to the
standard library, so the function is a parameter. -/
structure Lowercase where
  lower : List Char → List Char
  letterwise : ∀ cs, ∃ pieces : List (List Char), List.Forall₂ Lowers cs pieces ∧ lower cs = pieces.flatten

/-- On ASCII, the only text the tokens hold. -/
def Lowercase.ascii : Lowercase where
  lower cs := cs.map fun c => if c.toNat < 128 then c.toLower else c
  letterwise cs := by
    refine ⟨cs.map fun c => [if c.toNat < 128 then c.toLower else c], ?_, ?_⟩
    · rw [List.forall₂_map_right_iff, List.forall₂_same]
      intro c _
      by_cases hc : c.toNat < 128
      · simp [Lowers, hc]
      · simp [Lowers, hc]
    · induction cs with
      | nil => rfl
      | cons c cs ih => simp [ih]

variable {L : Lowercase} {c f : String} {cs : List Char}

theorem ascii_hex : ∀ n < 128, isLowerHex (Char.ofNat n).toLower = Hex.isDigit (Char.ofNat n) := by decide

/-- Lowered, a letter is a lower-case digit when it was a digit in either case. -/
theorem isLowerHex_toLower {d : Char} (h : d.toNat < 128) : isLowerHex d.toLower = Hex.isDigit d := by
  have hd := ascii_hex d.toNat h
  rwa [Char.ofNat_toNat] at hd

theorem ascii_of_isLowerHex {d : Char} (h : isLowerHex d = true) : d.toNat < 128 := by
  simp only [isLowerHex, Bool.or_eq_true, Bool.and_eq_true, decide_eq_true_iff] at h
  rcases h with ⟨-, h⟩ | ⟨-, h⟩
  · exact Nat.lt_of_le_of_lt (UInt32.le_iff_toNat_le.1 h) (by decide)
  · exact Nat.lt_of_le_of_lt (UInt32.le_iff_toNat_le.1 h) (by decide)

/-- No letter outside ASCII lowers to digits. -/
theorem ascii_of_lowers {d : Char} {piece : List Char} (h : Lowers d piece)
    (hhex : ∀ x ∈ piece, isLowerHex x = true) :
    d.toNat < 128 := by
  by_contra hd
  rw [Lowers, if_neg hd] at h
  obtain ⟨x, hx⟩ := List.exists_mem_of_ne_nil piece h.1
  rcases h.2 x hx (ascii_of_isLowerHex (hhex x hx)) with rfl | rfl
  · exact absurd (hhex _ hx) (by decide)
  · exact absurd (hhex _ hx) (by decide)

theorem flatten_of_ascii {pieces : List (List Char)} (h : List.Forall₂ Lowers cs pieces)
    (hcs : ∀ d ∈ cs, d.toNat < 128) :
    pieces.flatten = cs.map Char.toLower := by
  induction h with
  | nil => rfl
  | cons hd _ ih =>
    rw [Lowers, if_pos (hcs _ List.mem_cons_self)] at hd
    rw [hd, List.flatten_cons, ih fun x hx => hcs x (List.mem_cons_of_mem _ hx)]
    rfl

theorem ascii_of_flatten {pieces : List (List Char)} (h : List.Forall₂ Lowers cs pieces)
    (hhex : ∀ x ∈ pieces.flatten, isLowerHex x = true) : ∀ d ∈ cs, d.toNat < 128 := by
  induction h with
  | nil => simp
  | cons hd _ ih =>
    rw [List.flatten_cons] at hhex
    intro x hx
    rcases List.mem_cons.1 hx with rfl | hx
    · exact ascii_of_lowers hd fun y hy => hhex y (List.mem_append_left _ hy)
    · exact ih (fun y hy => hhex y (List.mem_append_right _ hy)) x hx

theorem Lowercase.lower_ascii (L : Lowercase) (h : ∀ d ∈ cs, d.toNat < 128) : L.lower cs = cs.map Char.toLower := by
  obtain ⟨pieces, hpieces, hlower⟩ := L.letterwise cs
  rw [hlower, flatten_of_ascii hpieces h]

theorem ascii_of_isDigit {d : Char} (h : Hex.isDigit d = true) : d.toNat < 128 := by
  simp only [Hex.isDigit, Bool.or_eq_true, Bool.and_eq_true, decide_eq_true_iff] at h
  rcases h with (⟨-, h⟩ | ⟨-, h⟩) | ⟨-, h⟩
  · exact Nat.lt_of_le_of_lt (UInt32.le_iff_toNat_le.1 h) (by decide)
  · exact Nat.lt_of_le_of_lt (UInt32.le_iff_toNat_le.1 h) (by decide)
  · exact Nat.lt_of_le_of_lt (UInt32.le_iff_toNat_le.1 h) (by decide)

/-- A lowered text consists of digits when the text did. -/
theorem Lowercase.lower_hex_iff (L : Lowercase) :
    ((L.lower cs).length = 40 ∧ ∀ d ∈ L.lower cs, isLowerHex d = true) ↔ cs ∈ letters Hex.isDigit 40 := by
  have hmap : ∀ h : ∀ d ∈ cs, d.toNat < 128, ((∀ d ∈ cs.map Char.toLower, isLowerHex d = true) ↔
      ∀ d ∈ cs, Hex.isDigit d = true) := by
    intro h
    rw [List.forall_mem_map]
    exact forall₂_congr fun d hd => by rw [isLowerHex_toLower (h d hd)]
  constructor
  · rintro ⟨hlen, hhex⟩
    obtain ⟨pieces, hpieces, hlower⟩ := L.letterwise cs
    have hascii := ascii_of_flatten hpieces (hlower ▸ hhex)
    rw [L.lower_ascii hascii] at hlen hhex
    exact ⟨by rwa [List.length_map] at hlen, (hmap hascii).1 hhex⟩
  · rintro ⟨hlen, hhex⟩
    have hascii : ∀ d ∈ cs, d.toNat < 128 := fun d hd => ascii_of_isDigit (hhex d hd)
    rw [L.lower_ascii hascii, List.length_map]
    exact ⟨hlen, (hmap hascii).2 hhex⟩

/-! ## The two checks -/

theorem byteLen_ascii (h : ∀ d ∈ cs, d.toNat < 128) : byteLen cs = cs.length := by
  have hone : cs.map Char.utf8Size = cs.map fun _ => 1 := by
    refine List.map_congr_left fun d hd => ?_
    unfold Char.utf8Size
    rw [if_pos]
    exact UInt32.le_iff_toNat_le.2 (Nat.le_of_lt_succ (h d hd))
  rw [byteLen, hone]
  simp

theorem ascii_of_isSlug {d : Char} (h : isSlug d = true) : d.toNat < 128 := by
  delta isSlug Char.isAlphanum Char.isAlpha Char.isUpper Char.isLower Char.isDigit at h
  simp only [Bool.or_eq_true, Bool.and_eq_true, decide_eq_true_iff, beq_iff_eq] at h
  rcases h with ((((⟨-, h⟩ | ⟨-, h⟩) | ⟨-, h⟩) | rfl) | rfl)
  · exact Nat.lt_of_le_of_lt (UInt32.le_iff_toNat_le.1 h) (by decide)
  · exact Nat.lt_of_le_of_lt (UInt32.le_iff_toNat_le.1 h) (by decide)
  · exact Nat.lt_of_le_of_lt (UInt32.le_iff_toNat_le.1 h) (by decide)
  · decide
  · decide

theorem contractId_parse_isOk : (ContractId.parse c).isOk ↔ c.toList ∈ word isSlug ∧ c.toList.length ≤ 64 := by
  unfold ContractId.parse
  by_cases hslug : ∀ d ∈ c.toList, isSlug d = true
  · have hbytes := byteLen_ascii fun d hd => ascii_of_isSlug (hslug d hd)
    have hall : c.toList.all isSlug = true := List.all_eq_true.2 hslug
    rw [hbytes, hall]
    by_cases hnil : c.toList = []
    · rw [hnil]
      exact ⟨fun h => (by cases h), fun h => absurd rfl h.1.1⟩
    · have hne : c.toList.isEmpty = false := by simpa using hnil
      rw [hne]
      by_cases hlen : c.toList.length > 64
      · simp only [Bool.false_eq_true, if_false, if_pos hlen]
        exact ⟨fun h => (by cases h), fun h => absurd h.2 (Nat.not_le.2 hlen)⟩
      · simp only [Bool.false_eq_true, if_false, if_neg hlen, Bool.not_true]
        exact ⟨fun _ => ⟨⟨hnil, hslug⟩, Nat.not_lt.1 hlen⟩, fun _ => rfl⟩
  · have hall : c.toList.all isSlug = false := by simpa using hslug
    rw [hall]
    refine ⟨fun h => ?_, fun h => absurd h.1.2 hslug⟩
    split at h
    · cases h
    · split at h <;> cases h

theorem fingerprint_parse_isOk : (PgpFingerprint.parse f).isOk ↔
    f.toList.length = 40 ∧ ∀ d ∈ f.toList, isLowerHex d = true := by
  unfold PgpFingerprint.parse
  by_cases hhex : ∀ d ∈ f.toList, isLowerHex d = true
  · have hbytes := byteLen_ascii fun d hd => ascii_of_isLowerHex (hhex d hd)
    have hall : f.toList.all isLowerHex = true := List.all_eq_true.2 hhex
    rw [hbytes, hall]
    by_cases hlen : f.toList.length = 40
    · rw [if_neg (not_not.2 hlen)]
      exact ⟨fun _ => ⟨hlen, hhex⟩, fun _ => rfl⟩
    · rw [if_pos hlen]
      exact ⟨fun h => (by cases h), fun h => absurd h.1 hlen⟩
  · have hall : f.toList.all isLowerHex = false := by simpa using hhex
    rw [hall]
    refine ⟨fun h => ?_, fun h => absurd h.2 hhex⟩
    split at h <;> cases h

/-! ## Tokens with given segments -/

/-- `e{amt}:{kind}:{hex}:{contract}:{fp}`. -/
def issuedWire (amt hex : List Char) (c f kind : String) : String :=
  String.ofList ('e' :: (amt ++ ':' :: (kind.toList ++ ':' :: (hex ++ ':' :: (c.toList ++ ':' :: f.toList)))))

/-- `{kind}:{hex}:{contract}:{fp}`. -/
def collectibleWire (hex : List Char) (c f kind : String) : String :=
  String.ofList (kind.toList ++ ':' :: (hex ++ ':' :: (c.toList ++ ':' :: f.toList)))

/-- What follows the first colon. -/
theorem rest_unique {head head' rest rest' : List Char} (hh : ':' ∉ head) (hh' : ':' ∉ head')
    (h : head ++ ':' :: rest = head' ++ ':' :: rest') : rest = rest' := by
  have hcut := congrArg (List.splitOn ':') h
  rw [parts_cons hh, parts_cons hh'] at hcut
  have hrest := congrArg (List.intercalate [':']) (List.cons.inj hcut).2
  rwa [List.intercalate_splitOn, List.intercalate_splitOn] at hrest

/-- A slug and a fingerprint hold no colon, so they are the segments. -/
theorem segments_unique {contract issuer c f : List Char} (hcontract : contract ∈ word isSlug)
    (hissuer : issuer ∈ letters Hex.isDigit 40) (h : c ++ ':' :: f = contract ++ ':' :: issuer) :
    c = contract ∧ f = issuer := by
  have hseg := (List.append_cons_inj_of_notMem (notMem_of_word hcontract isSlug_colon)
    (colon_notMem_hex hissuer)).1 h.symm
  exact ⟨hseg.1.symm, hseg.2.2.symm⟩

variable {amt hex : List Char} {kind : String}

/-- Whether the token is accepted depends on the two segments alone. -/
theorem issuedWire_isSome (hamt : amt ∈ amounts) (hhex : hex ∈ letters Hex.isDigit 64)
    (hkind : ':' ∉ kind.toList) :
    (issuedToken kind (issuedWire amt hex c f kind)).isSome ↔ c.toList ∈ word isSlug ∧
      f.toList ∈ letters Hex.isDigit 40 := by
  constructor
  · intro h
    obtain ⟨⟨a, hash, env⟩, hp⟩ := Option.isSome_iff_exists.1 h
    obtain ⟨amt', hex', contract, issuer, hs, hhex', hcontract, hissuer, -, -, htext⟩ := issuedToken_eq_some.1 hp
    rw [issuedWire, String.toList_ofList] at htext
    have htext := (List.cons.inj htext).2
    have htext := rest_unique (by simpa using colon_notMem_head hamt) (colon_notMem_numeral hs.numeral) htext
    have htext := rest_unique hkind hkind htext
    have htext := rest_unique (colon_notMem_hex hhex) (colon_notMem_hex hhex') htext
    obtain ⟨hc, hf⟩ := segments_unique hcontract hissuer htext
    exact ⟨hc ▸ hcontract, hf ▸ hissuer⟩
  · rintro ⟨hc, hf⟩
    obtain ⟨a, hs⟩ := mem_amounts.1 hamt
    exact Option.isSome_iff_exists.2 ⟨(a, String.ofList hex, _), issuedToken_eq_some.2
      ⟨amt, hex, c.toList, f.toList, hs, hhex, hc, hf, rfl, rfl, String.toList_ofList⟩⟩

theorem collectibleWire_isSome (hhex : hex ∈ letters Hex.isDigit 64) (hkind : ':' ∉ kind.toList) :
    (collectibleToken kind (collectibleWire hex c f kind)).isSome ↔
      c.toList ∈ word isSlug ∧ f.toList ∈ letters Hex.isDigit 40 := by
  constructor
  · intro h
    obtain ⟨⟨hash, env⟩, hp⟩ := Option.isSome_iff_exists.1 h
    obtain ⟨hex', contract, issuer, hhex', hcontract, hissuer, -, -, htext⟩ := collectibleToken_eq_some.1 hp
    rw [collectibleWire, String.toList_ofList] at htext
    have htext := rest_unique hkind hkind htext
    have htext := rest_unique (colon_notMem_hex hhex) (colon_notMem_hex hhex') htext
    obtain ⟨hc, hf⟩ := segments_unique hcontract hissuer htext
    exact ⟨hc ▸ hcontract, hf ▸ hissuer⟩
  · rintro ⟨hc, hf⟩
    exact Option.isSome_iff_exists.2 ⟨(String.ofList hex, _), collectibleToken_eq_some.2
      ⟨hex, c.toList, f.toList, hhex, hc, hf, rfl, rfl, String.toList_ofList⟩⟩

/-! ## Agreement -/

/-- Both constructors take the identifiers, the second one its lowered text. -/
def Typed (L : Lowercase) (c f : String) : Prop :=
  (ContractId.parse c).isOk ∧ (PgpFingerprint.parse (String.ofList (L.lower f.toList))).isOk

theorem typed_iff : Typed L c f ↔
    (c.toList ∈ word isSlug ∧ c.toList.length ≤ 64) ∧ f.toList ∈ letters Hex.isDigit 40 := by
  rw [Typed, contractId_parse_isOk, fingerprint_parse_isOk, String.toList_ofList, L.lower_hex_iff]

/-- Both parsers of a format take such a token exactly when the constructors take its identifiers. -/
def TakesTyped {σ π : Type} (L : Lowercase) (c f : String) (format : WireFormat σ π)
    (token : String → String) : Prop :=
  ((format.parse (token "secret")).isSome ↔ Typed L c f) ∧
    ((format.parsePublic (token "public")).isSome ↔ Typed L c f)

/-- The parsers of the three flavours and the constructors agree on a contract and an issuer segment. -/
structure SegmentsAgree (L : Lowercase) (c f : String) : Prop where
  rgb20 : ∀ amt ∈ amounts, ∀ hex ∈ letters Hex.isDigit 64,
    TakesTyped L c f WireFormat.rgbFungible (issuedWire amt hex c f)
  rgb21 : ∀ hex ∈ letters Hex.isDigit 64, TakesTyped L c f WireFormat.rgbCollectible (collectibleWire hex c f)
  voucher : ∀ amt ∈ amounts, ∀ hex ∈ letters Hex.isDigit 64,
    TakesTyped L c f WireFormat.voucher (issuedWire amt hex c f)

/-- What the constructors refuse and the parsers take. -/
def LongSlug (c f : String) : Prop :=
  c.toList ∈ word isSlug ∧ 64 < c.toList.length ∧ f.toList ∈ letters Hex.isDigit 40

theorem typed_iff_segments (h : ¬ LongSlug c f) :
    Typed L c f ↔ c.toList ∈ word isSlug ∧ f.toList ∈ letters Hex.isDigit 40 := by
  rw [typed_iff]
  constructor
  · rintro ⟨⟨hc, -⟩, hf⟩
    exact ⟨hc, hf⟩
  · rintro ⟨hc, hf⟩
    exact ⟨⟨hc, Nat.not_lt.1 fun hlen => h ⟨hc, hlen, hf⟩⟩, hf⟩

theorem issuedWire_takes (h : ¬ LongSlug c f) (hamt : amt ∈ amounts) (hhex : hex ∈ letters Hex.isDigit 64) :
    TakesTyped L c f WireFormat.voucher (issuedWire amt hex c f) := by
  constructor
  · dsimp only [WireFormat.voucher]
    rw [SecretIssued.parse, Option.isSome_map, issuedWire_isSome hamt hhex WireFormat.colon_notMem_secret,
      typed_iff_segments h]
  · dsimp only [WireFormat.voucher]
    rw [PublicIssued.parse, Option.isSome_map, issuedWire_isSome hamt hhex WireFormat.colon_notMem_public,
      typed_iff_segments h]

theorem collectibleWire_takes (h : ¬ LongSlug c f) (hhex : hex ∈ letters Hex.isDigit 64) :
    TakesTyped L c f WireFormat.rgbCollectible (collectibleWire hex c f) := by
  constructor
  · dsimp only [WireFormat.rgbCollectible]
    rw [SecretCollectible.parse, Option.isSome_map, collectibleWire_isSome hhex WireFormat.colon_notMem_secret,
      typed_iff_segments h]
  · dsimp only [WireFormat.rgbCollectible]
    rw [PublicCollectible.parse, Option.isSome_map, collectibleWire_isSome hhex WireFormat.colon_notMem_public,
      typed_iff_segments h]

theorem zeros_hex : List.replicate 64 '0' ∈ letters Hex.isDigit 64 := by
  refine ⟨List.length_replicate, fun d hd => ?_⟩
  rw [List.eq_of_mem_replicate hd]
  rfl

/-- **Parsers and constructors agree** on every pair of segments, but for slugs of more than 64 characters. -/
theorem identifiers_agree_iff (L : Lowercase) (c f : String) : SegmentsAgree L c f ↔ ¬ LongSlug c f := by
  constructor
  · rintro hagree ⟨hc, hlen, hf⟩
    have htaken := (hagree.rgb21 _ zeros_hex).1
    dsimp only [WireFormat.rgbCollectible] at htaken
    rw [SecretCollectible.parse, Option.isSome_map,
      collectibleWire_isSome zeros_hex WireFormat.colon_notMem_secret] at htaken
    have htyped := typed_iff.1 (htaken.1 ⟨hc, hf⟩)
    omega
  · intro h
    exact {
      rgb20 := fun amt hamt hex hhex => issuedWire_takes h hamt hhex
      rgb21 := fun hex hhex => collectibleWire_takes h hhex
      voucher := fun amt hamt hex hhex => issuedWire_takes h hamt hhex }

/-- Sixty-five letters: a contract of a token, and no `ContractId`. -/
theorem long_slug_disagrees : ¬ ∀ (L : Lowercase) (c f : String), SegmentsAgree L c f := by
  intro h
  have hrgb := (h .ascii (String.ofList (List.replicate 65 'a')) (String.ofList (List.replicate 40 '0'))).rgb21
    _ zeros_hex
  have htaken : (WireFormat.rgbCollectible.parse (collectibleWire (List.replicate 64 '0')
      (String.ofList (List.replicate 65 'a')) (String.ofList (List.replicate 40 '0')) "secret")).isSome :=
        by decide +kernel
  have hrefused : (ContractId.parse (String.ofList (List.replicate 65 'a'))).isOk = false := by decide +kernel
  have htyped := (hrgb.1.1 htaken).1
  rw [hrefused] at htyped
  cases htyped

end Webycash
