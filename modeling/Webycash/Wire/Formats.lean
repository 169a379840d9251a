import Webycash.Wire.Grammar
/-!
# Printed tokens, and which text is which

A printed token is a sentence of its own grammar and is read back as the token (`webcash_readsBack`,
`issued_readsBack`, `collectible_readsBack`). Cut at the colons, a Webcash text has three parts, an
RGB21 text four and the other two five, and the kind stands in a fixed one of them. So no text is of two
types that differ in shape, or both secret and public (`separated`).

| here | there |
| --- | --- |
| `webcashText`     | `Display` of `SecretWebcash` and `PublicWebcash` (asset-webcash/src/token.rs:79) |
| `issuedText`      | `Display` (asset-rgb/src/token.rs:98, asset-voucher/src/token.rs:89) |
| `collectibleText` | `Display` of the RGB21 types (asset-rgb/src/token.rs:212) |
| `WireFormat`      | `FromStr`, `Display` and `to_public` of one asset |
-/

namespace Webycash

open Grammar Wire

/-! ## Display -/

def webcashText (kind : String) (amount : Amount) (hex : String) : String :=
  "e" ++ amount.display ++ ":" ++ kind ++ ":" ++ hex

def issuedText (kind : String) (amount : Amount) (hex : String) (contract : ContractId)
    (issuer : PgpFingerprint) : String :=
  "e" ++ amount.display ++ ":" ++ kind ++ ":" ++ hex ++ ":" ++ contract.id ++ ":" ++ issuer.hex

def collectibleText (kind hex : String) (contract : ContractId) (issuer : PgpFingerprint) : String :=
  kind ++ ":" ++ hex ++ ":" ++ contract.id ++ ":" ++ issuer.hex

def SecretWebcash.display (t : SecretWebcash) : String := webcashText "secret" t.amount t.secret

def PublicWebcash.display (t : PublicWebcash) : String := webcashText "public" t.amount t.hash

def SecretIssued.display (t : SecretIssued) : String := issuedText "secret" t.amount t.secret t.contractId t.issuerFp

def PublicIssued.display (t : PublicIssued) : String := issuedText "public" t.amount t.hash t.contractId t.issuerFp

def SecretCollectible.display (t : SecretCollectible) : String :=
  collectibleText "secret" t.secret t.contractId t.issuerFp

def PublicCollectible.display (t : PublicCollectible) : String :=
  collectibleText "public" t.hash t.contractId t.issuerFp

/-! ## Reading back -/

/-- An envelope as the parsers return it: a slug, and a fingerprint in lower case. -/
structure PlainEnvelope (env : ContractId × PgpFingerprint) : Prop where
  slug : env.1.id.toList ∈ word isSlug
  digits : env.2.hex.toList ∈ letters Hex.isDigit 40
  lower : env.2.hex.toList.map Char.toLower = env.2.hex.toList

theorem lower_digit : ∀ n < 128, Hex.isDigit (Char.ofNat n) = true →
    Hex.isDigit (Char.ofNat n).toLower = true ∧ (Char.ofNat n).toLower.toLower = (Char.ofNat n).toLower := by
  decide

/-- A hexadecimal digit stays one in lower case, and is lowered once. -/
theorem toLower_digit {c : Char} (h : Hex.isDigit c = true) :
    Hex.isDigit c.toLower = true ∧ c.toLower.toLower = c.toLower := by
  have hle : ∀ {d : Char}, c ≤ d → d.toNat < 128 →
      c.toNat < 128 := fun hc hd => Nat.lt_of_le_of_lt (UInt32.le_iff_toNat_le.1 hc) hd
  have hlt : c.toNat < 128 := by
    simp only [Hex.isDigit, Bool.or_eq_true, Bool.and_eq_true, decide_eq_true_iff] at h
    rcases h with (⟨-, hc⟩ | ⟨-, hc⟩) | ⟨-, hc⟩
    · exact hle hc (by decide)
    · exact hle hc (by decide)
    · exact hle hc (by decide)
  have hc := lower_digit c.toNat hlt
  rw [Char.ofNat_toNat] at hc
  exact hc h

theorem plainEnvelope_of_parsed {contract issuer : List Char} (hcontract : contract ∈ word isSlug)
    (hissuer : issuer ∈ letters Hex.isDigit 40) :
    PlainEnvelope (⟨String.ofList contract⟩, ⟨String.ofList (issuer.map Char.toLower)⟩) where
  slug := by simpa using hcontract
  digits := by
    refine mem_letters.2 ⟨by simp [hissuer.1], fun c hc => ?_⟩
    rw [String.toList_ofList] at hc
    obtain ⟨d, hd, rfl⟩ := List.mem_map.1 hc
    exact (toLower_digit (hissuer.2 d hd)).1
  lower := by
    rw [String.toList_ofList, List.map_map]
    exact List.map_congr_left fun c hc => (toLower_digit (hissuer.2 c hc)).2

theorem digits_sha256HexOfAscii (s : String) : (sha256HexOfAscii s).toList ∈ letters Hex.isDigit 64 := by
  rw [sha256HexOfAscii, Hex.encode, String.toList_ofList]
  refine ⟨?_, fun c hc => Hex.isDigit_of_mem_encodeChars hc⟩
  rw [Hex.length_encodeChars, Sha256.length_digest]

variable {kind s h : String} {a : Amount} {env : ContractId × PgpFingerprint} {c : ContractId} {i : PgpFingerprint}

theorem webcash_parsed (hp : webcashToken kind s = some (a, h)) :
    0 ≤ a.wats.val ∧ h.toList ∈ letters Hex.isDigit 64 := by
  obtain ⟨amt, hex, hs, hhex, rfl, -⟩ := webcashToken_eq_some.1 hp
  exact ⟨hs.nonneg, by rwa [String.toList_ofList]⟩

theorem issued_parsed (hp : issuedToken kind s = some (a, h, env)) :
    0 ≤ a.wats.val ∧ h.toList ∈ letters Hex.isDigit 64 ∧ PlainEnvelope env := by
  obtain ⟨amt, hex, contract, issuer, hs, hhex, hcontract, hissuer, rfl, rfl, -⟩ := issuedToken_eq_some.1 hp
  exact ⟨hs.nonneg, by rwa [String.toList_ofList], plainEnvelope_of_parsed hcontract hissuer⟩

theorem collectible_parsed (hp : collectibleToken kind s = some (h, env)) :
    h.toList ∈ letters Hex.isDigit 64 ∧ PlainEnvelope env := by
  obtain ⟨hex, contract, issuer, hhex, hcontract, hissuer, rfl, rfl, -⟩ := collectibleToken_eq_some.1 hp
  exact ⟨by rwa [String.toList_ofList], plainEnvelope_of_parsed hcontract hissuer⟩

theorem toList_colon : ":".toList = [':'] := rfl

theorem toList_e : "e".toList = ['e'] := rfl

theorem webcash_readsBack (ha : 0 ≤ a.wats.val) (hh : h.toList ∈ letters Hex.isDigit 64) :
    webcashToken kind (webcashText kind a h) = some (a, h) := by
  refine webcashToken_eq_some.2 ⟨_, h.toList, spells_display ha, hh, String.ofList_toList.symm, ?_⟩
  simp only [webcashText, String.toList_append, toList_colon, toList_e, List.append_assoc, List.cons_append,
    List.nil_append]

theorem issued_readsBack (ha : 0 ≤ a.wats.val) (hh : h.toList ∈ letters Hex.isDigit 64)
    (henv : PlainEnvelope (c, i)) :
    issuedToken kind (issuedText kind a h c i) = some (a, h, c, i) := by
  refine issuedToken_eq_some.2 ⟨_, h.toList, c.id.toList, i.hex.toList, spells_display ha, hh, henv.slug,
    henv.digits, String.ofList_toList.symm, ?_, ?_⟩
  · have hlower : i.hex.toList.map Char.toLower = i.hex.toList := henv.lower
    rw [hlower, String.ofList_toList, String.ofList_toList]
  · simp only [issuedText, String.toList_append, toList_colon, toList_e, List.append_assoc, List.cons_append,
      List.nil_append]

theorem collectible_readsBack (hh : h.toList ∈ letters Hex.isDigit 64) (henv : PlainEnvelope (c, i)) :
    collectibleToken kind (collectibleText kind h c i) = some (h, c, i) := by
  refine collectibleToken_eq_some.2 ⟨h.toList, c.id.toList, i.hex.toList, hh, henv.slug,
    henv.digits, String.ofList_toList.symm, ?_, ?_⟩
  · have hlower : i.hex.toList.map Char.toLower = i.hex.toList := henv.lower
    rw [hlower, String.ofList_toList, String.ofList_toList]
  · simp only [collectibleText, String.toList_append, toList_colon, List.append_assoc, List.cons_append,
      List.nil_append]

/-! The six types: what is parsed is what the parser of the shape read. -/

theorem SecretWebcash.parse_eq_some {t : SecretWebcash} :
    SecretWebcash.parse s = some t ↔ webcashToken "secret" s = some (t.amount, t.secret) := by
  rw [SecretWebcash.parse, Option.map_eq_some_iff]
  constructor
  · rintro ⟨_, htoken, rfl⟩
    exact htoken
  · intro htoken
    exact ⟨_, htoken, rfl⟩

theorem PublicWebcash.parse_eq_some {t : PublicWebcash} :
    PublicWebcash.parse s = some t ↔ webcashToken "public" s = some (t.amount, t.hash) := by
  rw [PublicWebcash.parse, Option.map_eq_some_iff]
  constructor
  · rintro ⟨_, htoken, rfl⟩
    exact htoken
  · intro htoken
    exact ⟨_, htoken, rfl⟩

theorem SecretIssued.parse_eq_some {t : SecretIssued} :
    SecretIssued.parse s = some t ↔ issuedToken "secret" s = some (t.amount, t.secret, t.contractId, t.issuerFp) := by
  rw [SecretIssued.parse, Option.map_eq_some_iff]
  constructor
  · rintro ⟨_, htoken, rfl⟩
    exact htoken
  · intro htoken
    exact ⟨_, htoken, rfl⟩

theorem PublicIssued.parse_eq_some {t : PublicIssued} :
    PublicIssued.parse s = some t ↔ issuedToken "public" s = some (t.amount, t.hash, t.contractId, t.issuerFp) := by
  rw [PublicIssued.parse, Option.map_eq_some_iff]
  constructor
  · rintro ⟨_, htoken, rfl⟩
    exact htoken
  · intro htoken
    exact ⟨_, htoken, rfl⟩

theorem SecretCollectible.parse_eq_some {t : SecretCollectible} :
    SecretCollectible.parse s = some t ↔ collectibleToken "secret" s = some (t.secret, t.contractId, t.issuerFp) := by
  rw [SecretCollectible.parse, Option.map_eq_some_iff]
  constructor
  · rintro ⟨_, htoken, rfl⟩
    exact htoken
  · intro htoken
    exact ⟨_, htoken, rfl⟩

theorem PublicCollectible.parse_eq_some {t : PublicCollectible} :
    PublicCollectible.parse s = some t ↔ collectibleToken "public" s = some (t.hash, t.contractId, t.issuerFp) := by
  rw [PublicCollectible.parse, Option.map_eq_some_iff]
  constructor
  · rintro ⟨_, htoken, rfl⟩
    exact htoken
  · intro htoken
    exact ⟨_, htoken, rfl⟩

/-! ## The formats -/

/-- The wire format of one asset: `FromStr` and `Display` of both forms, and `to_public`. -/
structure WireFormat (σ π : Type) where
  parse : String → Option σ
  parsePublic : String → Option π
  display : σ → String
  displayPublic : π → String
  toPublic : σ → π

namespace WireFormat

def webcash : WireFormat SecretWebcash PublicWebcash :=
  ⟨SecretWebcash.parse, PublicWebcash.parse, SecretWebcash.display, PublicWebcash.display, SecretWebcash.toPublic⟩

def voucher : WireFormat SecretIssued PublicIssued :=
  ⟨SecretIssued.parse, PublicIssued.parse, SecretIssued.display, PublicIssued.display, SecretIssued.toPublic⟩

/-- RGB20. -/
def rgbFungible : WireFormat SecretIssued PublicIssued :=
  ⟨SecretIssued.parse, PublicIssued.parse, SecretIssued.display, PublicIssued.display, SecretIssued.toPublic⟩

/-- RGB21. -/
def rgbCollectible : WireFormat SecretCollectible PublicCollectible :=
  ⟨SecretCollectible.parse, PublicCollectible.parse, SecretCollectible.display, PublicCollectible.display,
    SecretCollectible.toPublic⟩

/-- A format is the grammar it is documented with: exactly its sentences are accepted, and what a parsed
token or its public form is printed as is read back. -/
structure Documented {σ π : Type} (f : WireFormat σ π) (tokens : String → Language Char) : Prop where
  accepts : ∀ s, (f.parse s).isSome ↔ s.toList ∈ tokens "secret"
  accepts_public : ∀ s, (f.parsePublic s).isSome ↔ s.toList ∈ tokens "public"
  readsBack : ∀ s t, f.parse s = some t → f.parse (f.display t) = some t
  readsBack_public : ∀ s t, f.parsePublic s = some t → f.parsePublic (f.displayPublic t) = some t
  toPublic_readsBack : ∀ s t, f.parse s = some t → f.parsePublic (f.displayPublic (f.toPublic t)) =
    some (f.toPublic t)

/-- The text is accepted, in one form or the other. -/
def Takes {σ π : Type} (f : WireFormat σ π) (s : String) : Prop := (f.parse s).isSome ∨ (f.parsePublic s).isSome

theorem webcash_documented : webcash.Documented webcashTokens where
  accepts s := by
    dsimp only [webcash]
    rw [SecretWebcash.parse, Option.isSome_map, webcashToken_isSome]
  accepts_public s := by
    dsimp only [webcash]
    rw [PublicWebcash.parse, Option.isSome_map, webcashToken_isSome]
  readsBack s t hp := by
    dsimp only [webcash] at hp ⊢
    obtain ⟨ha, hh⟩ := webcash_parsed (SecretWebcash.parse_eq_some.1 hp)
    rw [SecretWebcash.parse_eq_some]
    exact webcash_readsBack ha hh
  readsBack_public s t hp := by
    dsimp only [webcash] at hp ⊢
    obtain ⟨ha, hh⟩ := webcash_parsed (PublicWebcash.parse_eq_some.1 hp)
    rw [PublicWebcash.parse_eq_some]
    exact webcash_readsBack ha hh
  toPublic_readsBack s t hp := by
    dsimp only [webcash] at hp ⊢
    obtain ⟨ha, -⟩ := webcash_parsed (SecretWebcash.parse_eq_some.1 hp)
    rw [PublicWebcash.parse_eq_some]
    exact webcash_readsBack ha (digits_sha256HexOfAscii t.secret)

/-- Voucher and RGB20 share one format. -/
theorem issued_documented : voucher.Documented issuedTokens where
  accepts s := by
    dsimp only [voucher]
    rw [SecretIssued.parse, Option.isSome_map, issuedToken_isSome]
  accepts_public s := by
    dsimp only [voucher]
    rw [PublicIssued.parse, Option.isSome_map, issuedToken_isSome]
  readsBack s t hp := by
    dsimp only [voucher] at hp ⊢
    obtain ⟨ha, hh, henv⟩ := issued_parsed (SecretIssued.parse_eq_some.1 hp)
    rw [SecretIssued.parse_eq_some]
    exact issued_readsBack ha hh henv
  readsBack_public s t hp := by
    dsimp only [voucher] at hp ⊢
    obtain ⟨ha, hh, henv⟩ := issued_parsed (PublicIssued.parse_eq_some.1 hp)
    rw [PublicIssued.parse_eq_some]
    exact issued_readsBack ha hh henv
  toPublic_readsBack s t hp := by
    dsimp only [voucher] at hp ⊢
    obtain ⟨ha, -, henv⟩ := issued_parsed (SecretIssued.parse_eq_some.1 hp)
    rw [PublicIssued.parse_eq_some]
    exact issued_readsBack ha (digits_sha256HexOfAscii t.secret) henv

theorem collectible_documented : rgbCollectible.Documented collectibleTokens where
  accepts s := by
    dsimp only [rgbCollectible]
    rw [SecretCollectible.parse, Option.isSome_map, collectibleToken_isSome]
  accepts_public s := by
    dsimp only [rgbCollectible]
    rw [PublicCollectible.parse, Option.isSome_map, collectibleToken_isSome]
  readsBack s t hp := by
    dsimp only [rgbCollectible] at hp ⊢
    obtain ⟨hh, henv⟩ := collectible_parsed (SecretCollectible.parse_eq_some.1 hp)
    rw [SecretCollectible.parse_eq_some]
    exact collectible_readsBack hh henv
  readsBack_public s t hp := by
    dsimp only [rgbCollectible] at hp ⊢
    obtain ⟨hh, henv⟩ := collectible_parsed (PublicCollectible.parse_eq_some.1 hp)
    rw [PublicCollectible.parse_eq_some]
    exact collectible_readsBack hh henv
  toPublic_readsBack s t hp := by
    dsimp only [rgbCollectible] at hp ⊢
    obtain ⟨-, henv⟩ := collectible_parsed (SecretCollectible.parse_eq_some.1 hp)
    rw [PublicCollectible.parse_eq_some]
    exact collectible_readsBack (digits_sha256HexOfAscii t.secret) henv

end WireFormat

/-! ## Which text is which -/

/-- The parts of a text between its colons. -/
def parts (s : String) : List (List Char) := s.toList.splitOn ':'

theorem parts_cons {head : List Char} (hhead : ':' ∉ head) (rest : List Char) :
    (head ++ ':' :: rest).splitOn ':' = head :: rest.splitOn ':' := List.splitOn_append_cons_self_of_not_mem hhead rest

theorem colon_notMem_hex {n : Nat} {hex : List Char} (h : hex ∈ letters Hex.isDigit n) : ':' ∉ hex :=
  notMem_of_letters h (by decide)

theorem colon_notMem_head {amt : List Char} (h : amt ∈ amounts) : ':' ∉ 'e' :: amt := by
  obtain ⟨wats, hs, -⟩ := h
  have hamt := colon_notMem_numeral hs.numeral
  simpa using hamt

theorem parts_webcash (hkind : ':' ∉ kind.toList) (h : s.toList ∈ webcashTokens kind) :
    ∃ head hex, parts s = [head, kind.toList, hex] := by
  obtain ⟨amt, hamt, hex, hhex, htext⟩ := mem_webcashTokens.1 h
  refine ⟨'e' :: amt, hex, ?_⟩
  rw [parts, htext, ← List.cons_append, parts_cons (colon_notMem_head hamt), parts_cons hkind,
    List.splitOn_eq_singleton (colon_notMem_hex hhex)]

theorem parts_envelope {w : List Char} (h : w ∈ envelopes) :
    ∃ contract issuer, ∀ {hex : List Char}, ':' ∉ hex →
    (hex ++ w).splitOn ':' = [hex, contract, issuer] := by
  obtain ⟨contract, hcontract, issuer, hissuer, rfl⟩ := mem_envelopes.1 h
  refine ⟨contract, issuer, fun hhex => ?_⟩
  rw [parts_cons hhex, parts_cons (notMem_of_word hcontract isSlug_colon),
    List.splitOn_eq_singleton (colon_notMem_hex hissuer)]

theorem parts_issued (hkind : ':' ∉ kind.toList) (h : s.toList ∈ issuedTokens kind) :
    ∃ head hex contract issuer, parts s = [head, kind.toList, hex, contract, issuer] := by
  obtain ⟨w, hw, env, henv, htext⟩ := Language.mem_mul.1 h
  obtain ⟨amt, hamt, hex, hhex, rfl⟩ := mem_webcashTokens.1 hw
  obtain ⟨contract, issuer, hparts⟩ := parts_envelope henv
  refine ⟨'e' :: amt, hex, contract, issuer, ?_⟩
  rw [parts, ← htext]
  simp only [List.cons_append, List.append_assoc]
  rw [← List.cons_append, parts_cons (colon_notMem_head hamt), parts_cons hkind, hparts (colon_notMem_hex hhex)]

theorem parts_collectible (hkind : ':' ∉ kind.toList) (h : s.toList ∈ collectibleTokens kind) :
    ∃ hex contract issuer, parts s = [kind.toList, hex, contract, issuer] := by
  obtain ⟨w, hw, env, henv, htext⟩ := Language.mem_mul.1 h
  obtain ⟨_, rfl, hex, hhex, rfl⟩ := Language.mem_mul.1 hw
  obtain ⟨contract, issuer, hparts⟩ := parts_envelope henv
  refine ⟨hex, contract, issuer, ?_⟩
  rw [parts, ← htext, toList_before]
  simp only [List.append_assoc, List.cons_append, List.nil_append]
  rw [parts_cons hkind, hparts (colon_notMem_hex hhex)]

/-- Where the kind of a token stands. -/
def kindOf (s : String) : Option (List Char) := if (parts s).length = 4 then (parts s)[0]? else (parts s)[1]?

namespace WireFormat

theorem colon_notMem_secret : ':' ∉ "secret".toList := by decide

theorem colon_notMem_public : ':' ∉ "public".toList := by decide

theorem length_webcash (h : webcash.Takes s) : (parts s).length = 3 := by
  rcases h with h | h
  · obtain ⟨_, _, hp⟩ := parts_webcash colon_notMem_secret ((webcash_documented.accepts s).1 h)
    rw [hp]
    rfl
  · obtain ⟨_, _, hp⟩ := parts_webcash colon_notMem_public ((webcash_documented.accepts_public s).1 h)
    rw [hp]
    rfl

theorem length_issued (h : voucher.Takes s) : (parts s).length = 5 := by
  rcases h with h | h
  · obtain ⟨_, _, _, _, hp⟩ := parts_issued colon_notMem_secret ((issued_documented.accepts s).1 h)
    rw [hp]
    rfl
  · obtain ⟨_, _, _, _, hp⟩ := parts_issued colon_notMem_public ((issued_documented.accepts_public s).1 h)
    rw [hp]
    rfl

theorem length_collectible (h : rgbCollectible.Takes s) : (parts s).length = 4 := by
  rcases h with h | h
  · obtain ⟨_, _, _, hp⟩ := parts_collectible colon_notMem_secret ((collectible_documented.accepts s).1 h)
    rw [hp]
    rfl
  · obtain ⟨_, _, _, hp⟩ := parts_collectible colon_notMem_public ((collectible_documented.accepts_public s).1 h)
    rw [hp]
    rfl

/-- Some asset takes the text as a secret token. -/
def AsSecret (s : String) : Prop :=
  (webcash.parse s).isSome ∨ (voucher.parse s).isSome ∨ (rgbFungible.parse s).isSome ∨
    (rgbCollectible.parse s).isSome

/-- Some asset takes the text as a public token. -/
def AsPublic (s : String) : Prop :=
  (webcash.parsePublic s).isSome ∨ (voucher.parsePublic s).isSome ∨ (rgbFungible.parsePublic s).isSome ∨
    (rgbCollectible.parsePublic s).isSome

theorem kindOf_of_mem (hkind : ':' ∉ kind.toList)
    (h : s.toList ∈ webcashTokens kind ∨ s.toList ∈ issuedTokens kind ∨ s.toList ∈ collectibleTokens kind) :
    kindOf s = some kind.toList := by
  rcases h with h | h | h
  · obtain ⟨_, _, hp⟩ := parts_webcash hkind h
    rw [kindOf, hp]
    rfl
  · obtain ⟨_, _, _, _, hp⟩ := parts_issued hkind h
    rw [kindOf, hp]
    rfl
  · obtain ⟨_, _, _, hp⟩ := parts_collectible hkind h
    rw [kindOf, hp]
    rfl

theorem kindOf_secret (h : AsSecret s) : kindOf s = some "secret".toList := by
  refine kindOf_of_mem colon_notMem_secret ?_
  rcases h with h | h | h | h
  · exact Or.inl ((webcash_documented.accepts s).1 h)
  · exact Or.inr (Or.inl ((issued_documented.accepts s).1 h))
  · exact Or.inr (Or.inl ((issued_documented.accepts s).1 h))
  · exact Or.inr (Or.inr ((collectible_documented.accepts s).1 h))

theorem kindOf_public (h : AsPublic s) : kindOf s = some "public".toList := by
  refine kindOf_of_mem colon_notMem_public ?_
  rcases h with h | h | h | h
  · exact Or.inl ((webcash_documented.accepts_public s).1 h)
  · exact Or.inr (Or.inl ((issued_documented.accepts_public s).1 h))
  · exact Or.inr (Or.inl ((issued_documented.accepts_public s).1 h))
  · exact Or.inr (Or.inr ((collectible_documented.accepts_public s).1 h))

/-- No text is a token of two kinds. -/
structure Separated : Prop where
  webcash_or_namespaced : ∀ s, ¬ (webcash.Takes s ∧
    (voucher.Takes s ∨ rgbFungible.Takes s ∨ rgbCollectible.Takes s))
  collectible_or_amount : ∀ s, ¬ (rgbCollectible.Takes s ∧
    (webcash.Takes s ∨ voucher.Takes s ∨ rgbFungible.Takes s))
  secret_or_public : ∀ s, ¬ (AsSecret s ∧ AsPublic s)

theorem separated : Separated where
  webcash_or_namespaced s := by
    rintro ⟨hw, h | h | h⟩
    · have h₁ := length_webcash hw
      have h₂ := length_issued h
      omega
    · have h₁ := length_webcash hw
      have h₂ := length_issued h
      omega
    · have h₁ := length_webcash hw
      have h₂ := length_collectible h
      omega
  collectible_or_amount s := by
    rintro ⟨hc, h | h | h⟩
    · have h₁ := length_collectible hc
      have h₂ := length_webcash h
      omega
    · have h₁ := length_collectible hc
      have h₂ := length_issued h
      omega
    · have h₁ := length_collectible hc
      have h₂ := length_issued h
      omega
  secret_or_public s := by
    rintro ⟨hs, hp⟩
    have h := (kindOf_secret hs).symm.trans (kindOf_public hp)
    exact absurd h (by decide)

/-- **The wire formats are their grammars.** Every type accepts the sentences of its documented grammar and
nothing else, what is printed for a parsed token or its public form is read back as that, and no text is
accepted as tokens of two kinds. -/
theorem wire_formats : webcash.Documented webcashTokens ∧ voucher.Documented issuedTokens ∧
    rgbFungible.Documented issuedTokens ∧ rgbCollectible.Documented collectibleTokens ∧ Separated :=
  ⟨webcash_documented, issued_documented, issued_documented, collectible_documented, separated⟩

end WireFormat

end Webycash
