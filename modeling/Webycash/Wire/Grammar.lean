import Webycash.Core.AmountText
import Webycash.Wire.Token
/-!
# The grammar of the wire formats

The token types as languages over the whole text, put together as the module comments write them
(asset-webcash/src/token.rs:3, asset-rgb/src/token.rs:5, asset-voucher/src/token.rs:3). Each building
block recognises its part and stops where the next one begins; `webcashToken_eq_some`,
`issuedToken_eq_some` and `collectibleToken_eq_some` say which texts the parsers read, and as what.
-/

namespace Webycash

open Grammar

namespace Wire

/-! ## The documented grammar -/

/-- A literal text. -/
def text (s : String) : Language Char := {s.toList}

/-- `{amount}`: eight decimals at most, and the wats fit `i64`. -/
def amounts : Language Char := {w | ∃ wats, IsWats w wats ∧ wats < 2 ^ 63}

/-- `:{contract_id}:{issuer_pgp_fp}`. -/
def envelopes : Language Char := text ":" * word isSlug * text ":" * letters Hex.isDigit 40

/-- `e{amount}:{kind}:{hex64}`. -/
def webcashTokens (kind : String) : Language Char :=
  text "e" * amounts * text (":" ++ kind ++ ":") * letters Hex.isDigit 64

/-- `e{amount}:{kind}:{hex64}:{contract_id}:{issuer_pgp_fp}`. -/
def issuedTokens (kind : String) : Language Char := webcashTokens kind * envelopes

/-- `{kind}:{hex64}:{contract_id}:{issuer_pgp_fp}`. -/
def collectibleTokens (kind : String) : Language Char := text (kind ++ ":") * letters Hex.isDigit 64 * envelopes

/-! ## What the building blocks recognise -/

theorem tag_eq_some : ∀ {t cs rest : List Char}, tag t cs = some rest ↔ cs = t ++ rest
  | [], cs, rest => by simp [tag]
  | _ :: _, [], rest => by simp [tag]
  | t :: ts, c :: cs, rest => by
    unfold tag
    by_cases h : t = c
    · rw [if_pos h, tag_eq_some, h]
      simp
    · rw [if_neg h]
      simp [Ne.symm h]

theorem takeExactly_eq_some {p : Char → Bool} : ∀ {n : Nat} {cs m rest : List Char},
    takeExactly p n cs = some (m, rest) ↔ m ∈ letters p n ∧ cs = m ++ rest
  | 0, cs, m, rest => by
    simp only [takeExactly, Option.some.injEq, Prod.mk.injEq, mem_letters]
    constructor
    · rintro ⟨rfl, rfl⟩
      simp
    · rintro ⟨⟨hlen, -⟩, rfl⟩
      simp [List.eq_nil_of_length_eq_zero hlen]
  | n + 1, [], m, rest => by
    simp only [takeExactly, mem_letters]
    refine ⟨fun h => (by cases h), ?_⟩
    rintro ⟨⟨hlen, -⟩, h⟩
    have h := congrArg List.length h
    rw [List.length_nil, List.length_append, hlen] at h
    omega
  | n + 1, c :: cs, m, rest => by
    unfold takeExactly
    by_cases hc : p c = true
    · rw [if_pos hc, Option.map_eq_some_iff]
      constructor
      · rintro ⟨⟨m', rest'⟩, h, heq⟩
        cases heq
        obtain ⟨⟨hlen, hall⟩, rfl⟩ := takeExactly_eq_some.1 h
        exact ⟨⟨by simp [hlen], by simpa [hc] using hall⟩, rfl⟩
      · rintro ⟨⟨hlen, hall⟩, h⟩
        cases m with
        | nil => cases hlen
        | cons d m =>
          cases h
          refine ⟨(m, rest), takeExactly_eq_some.2
            ⟨⟨by simpa using hlen, fun a ha => hall a (by simp [ha])⟩, rfl⟩, rfl⟩
    · rw [if_neg hc]
      refine ⟨fun h => (by cases h), ?_⟩
      rintro ⟨⟨hlen, hall⟩, h⟩
      cases m with
      | nil => cases hlen
      | cons d m =>
        cases h
        exact absurd (hall c (by simp)) hc

theorem of_takeWhile1 {p : Char → Bool} {cs m rest : List Char} (h : takeWhile1 p cs = some (m, rest)) :
    m ∈ word p ∧ cs = m ++ rest := by
  have hall := takeWhile1_all h
  unfold takeWhile1 at h
  split at h
  · cases h
  · rename_i a as heq
    cases h
    refine ⟨⟨by simp, hall⟩, ?_⟩
    rw [← heq, List.takeWhile_append_dropWhile]

/-- A word is taken whole when what follows it is of another kind. -/
theorem takeWhile1_append {p : Char → Bool} {m rest : List Char} {c : Char} (hm : m ∈ word p) (hc : p c = false) :
    takeWhile1 p (m ++ c :: rest) = some (m, c :: rest) := by
  have htake : (m ++ c :: rest).takeWhile p = m := by
    rw [List.takeWhile_append_of_pos hm.2, List.takeWhile_cons_of_neg (by simp [hc]), List.append_nil]
  have hdrop : (m ++ c :: rest).dropWhile p = c :: rest := by
    rw [List.dropWhile_append_of_pos hm.2, List.dropWhile_cons_of_neg (by simp [hc])]
  cases m with
  | nil => exact absurd rfl hm.1
  | cons a m =>
    unfold takeWhile1
    rw [htake, hdrop]

theorem of_amountParser {cs m rest : List Char} (h : amountParser cs = some (m, rest)) :
    m ∈ numerals ∧ cs = m ++ rest := by
  obtain ⟨⟨whole, after⟩, hw, hafter⟩ := Option.bind_eq_some_iff.1 h
  obtain ⟨hd, rfl⟩ := of_takeWhile1 hw
  dsimp only at hafter
  split at hafter
  · rename_i frac rest' hf
    cases hafter
    obtain ⟨after', hdot, hf⟩ := Option.bind_eq_some_iff.1 hf
    obtain ⟨hfd, rfl⟩ := of_takeWhile1 hf
    rw [tag_eq_some.1 hdot]
    exact ⟨mem_numerals.2 (Or.inr ⟨whole, hd, frac, hfd, rfl⟩), by simp⟩
  · cases hafter
    exact ⟨mem_numerals.2 (Or.inl hd), rfl⟩

/-- A numeral before a colon is taken whole. -/
theorem amountParser_append {m : List Char} (hm : m ∈ numerals) (rest : List Char) :
    amountParser (m ++ ':' :: rest) = some (m, ':' :: rest) := by
  rcases mem_numerals.1 hm with hd | ⟨ds, hd, fs, hf, rfl⟩
  · unfold amountParser
    rw [takeWhile1_append hd rfl]
    rfl
  · unfold amountParser
    have hdot : tag ['.'] ('.' :: (fs ++ ':' :: rest)) = some (fs ++ ':' :: rest) := tag_eq_some.2 rfl
    rw [List.append_assoc, List.cons_append, takeWhile1_append hd rfl]
    simp only [bind, Option.bind_some, hdot, takeWhile1_append (c := ':') hf rfl, pure]

end Wire

open Wire

variable {kind : String}

theorem toList_between (kind : String) : (":" ++ kind ++ ":").toList = ':' :: (kind.toList ++ [':']) := by
  have hcolon : ":".toList = [':'] := rfl
  rw [String.toList_append, String.toList_append, hcolon]
  rfl

theorem toList_before (kind : String) : (kind ++ ":").toList = kind.toList ++ [':'] := by
  rw [String.toList_append]
  rfl

theorem amountAndHex_eq_some {cs amt hex rest : List Char} : amountAndHex kind cs = some (amt, hex, rest) ↔
    amt ∈ numerals ∧ hex ∈ letters Hex.isDigit 64 ∧
      cs = 'e' :: (amt ++ ':' :: (kind.toList ++ ':' :: (hex ++ rest))) := by
  constructor
  · intro h
    obtain ⟨r₁, h₁, h⟩ := Option.bind_eq_some_iff.1 h
    obtain ⟨⟨amt', r₂⟩, h₂, h⟩ := Option.bind_eq_some_iff.1 h
    obtain ⟨r₃, h₃, h⟩ := Option.bind_eq_some_iff.1 h
    obtain ⟨⟨hex', r₄⟩, h₄, h⟩ := Option.bind_eq_some_iff.1 h
    cases h
    obtain ⟨hamt, rfl⟩ := of_amountParser h₂
    obtain ⟨hhex, rfl⟩ := takeExactly_eq_some.1 h₄
    refine ⟨hamt, hhex, ?_⟩
    rw [tag_eq_some.1 h₁, tag_eq_some.1 h₃, toList_between]
    simp
  · rintro ⟨hamt, hhex, rfl⟩
    have h₁ : tag ['e'] ('e' :: (amt ++ ':' :: (kind.toList ++ ':' :: (hex ++ rest)))) =
      some (amt ++ ':' :: (kind.toList ++ ':' :: (hex ++ rest))) := tag_eq_some.2 rfl
    have h₃ : tag (":" ++ kind ++ ":").toList (':' :: (kind.toList ++ ':' :: (hex ++ rest))) = some (hex ++ rest) :=
      tag_eq_some.2 (by rw [toList_between]; simp)
    have h₄ : hex64 (hex ++ rest) = some (hex, rest) := takeExactly_eq_some.2 ⟨hhex, rfl⟩
    simp only [amountAndHex, bind, h₁, amountParser_append hamt, h₃, h₄, Option.bind_some, pure]

theorem envelope_eq_some {cs rest : List Char} {env : ContractId × PgpFingerprint} : envelope cs = some (env, rest) ↔
    ∃ contract ∈ word isSlug, ∃ issuer ∈ letters Hex.isDigit 40,
      cs = ':' :: (contract ++ ':' :: (issuer ++ rest)) ∧
      env = (⟨String.ofList contract⟩, ⟨String.ofList (issuer.map Char.toLower)⟩) := by
  constructor
  · intro h
    obtain ⟨r₁, h₁, h⟩ := Option.bind_eq_some_iff.1 h
    obtain ⟨⟨contract, r₂⟩, h₂, h⟩ := Option.bind_eq_some_iff.1 h
    obtain ⟨r₃, h₃, h⟩ := Option.bind_eq_some_iff.1 h
    obtain ⟨⟨issuer, r₄⟩, h₄, h⟩ := Option.bind_eq_some_iff.1 h
    cases h
    obtain ⟨hcontract, rfl⟩ := of_takeWhile1 h₂
    obtain ⟨hissuer, rfl⟩ := takeExactly_eq_some.1 h₄
    refine ⟨contract, hcontract, issuer, hissuer, ?_, rfl⟩
    rw [tag_eq_some.1 h₁, tag_eq_some.1 h₃]
    rfl
  · rintro ⟨contract, hcontract, issuer, hissuer, rfl, rfl⟩
    have h₁ : tag [':'] (':' :: (contract ++ ':' :: (issuer ++ rest))) =
        some (contract ++ ':' :: (issuer ++ rest)) := tag_eq_some.2 rfl
    have h₂ : slug (contract ++ ':' :: (issuer ++ rest)) = some (contract, ':' :: (issuer ++ rest)) :=
      takeWhile1_append hcontract isSlug_colon
    have h₃ : tag [':'] (':' :: (issuer ++ rest)) = some (issuer ++ rest) := tag_eq_some.2 rfl
    have h₄ : fingerprint (issuer ++ rest) = some (issuer, rest) := takeExactly_eq_some.2 ⟨hissuer, rfl⟩
    simp only [envelope, bind, h₁, h₂, h₃, h₄, Option.bind_some, pure]

/-! ## What the parsers read -/

variable {s : String} {a : Amount} {h : String} {env : ContractId × PgpFingerprint}

theorem amountOf_eq_some {amt : List Char} (hamt : amt ∈ numerals) : amountOf amt = some a ↔ Spells amt a :=
  parse_numeral_iff hamt

theorem webcashToken_eq_some : webcashToken kind s = some (a, h) ↔ ∃ amt hex, Spells amt a ∧
    hex ∈ letters Hex.isDigit 64 ∧
    h = String.ofList hex ∧ s.toList = 'e' :: (amt ++ ':' :: (kind.toList ++ ':' :: hex)) := by
  constructor
  · intro hp
    obtain ⟨⟨amt, hex⟩, hc, hp⟩ := Option.bind_eq_some_iff.1 hp
    obtain ⟨a', ha, hp⟩ := Option.bind_eq_some_iff.1 hp
    cases hp
    obtain ⟨⟨amt', hex', rest⟩, hh, heq⟩ := Option.map_eq_some_iff.1 (complete_eq_some.1 hc)
    cases heq
    obtain ⟨hamt, hhex, htext⟩ := amountAndHex_eq_some.1 hh
    rw [chars_eq_toList, List.append_nil] at htext
    exact ⟨amt, hex, (amountOf_eq_some hamt).1 ha, hhex, rfl, htext⟩
  · rintro ⟨amt, hex, hs, hhex, rfl, htext⟩
    have hh : amountAndHex kind (chars s) = some (amt, hex, []) :=
      amountAndHex_eq_some.2 ⟨hs.numeral, hhex, by rw [chars_eq_toList, htext, List.append_nil]⟩
    have ha : amountOf amt = some a := (amountOf_eq_some hs.numeral).2 hs
    simp only [webcashToken, bind, hh, Option.map_some, complete, Option.bind_some, ha, pure]

theorem issuedToken_eq_some : issuedToken kind s = some (a, h, env) ↔
    ∃ amt hex contract issuer, Spells amt a ∧ hex ∈ letters Hex.isDigit 64 ∧ contract ∈ word isSlug ∧
      issuer ∈ letters Hex.isDigit 40 ∧ h = String.ofList hex ∧
      env = (⟨String.ofList contract⟩, ⟨String.ofList (issuer.map Char.toLower)⟩) ∧
      s.toList = 'e' :: (amt ++ ':' :: (kind.toList ++ ':' :: (hex ++ ':' :: (contract ++ ':' :: issuer)))) := by
  constructor
  · intro hp
    obtain ⟨⟨amt, hex, rest⟩, hh, hp⟩ := Option.bind_eq_some_iff.1 hp
    obtain ⟨env', hc, hp⟩ := Option.bind_eq_some_iff.1 hp
    obtain ⟨a', ha, hp⟩ := Option.bind_eq_some_iff.1 hp
    cases hp
    obtain ⟨hamt, hhex, htext⟩ := amountAndHex_eq_some.1 hh
    obtain ⟨contract, hcontract, issuer, hissuer, rfl, rfl⟩ := envelope_eq_some.1 (complete_eq_some.1 hc)
    rw [chars_eq_toList, List.append_nil] at htext
    exact ⟨amt, hex, contract, issuer, (amountOf_eq_some hamt).1 ha, hhex, hcontract, hissuer, rfl, rfl, htext⟩
  · rintro ⟨amt, hex, contract, issuer, hs, hhex, hcontract, hissuer, rfl, rfl, htext⟩
    have hh : amountAndHex kind (chars s) = some (amt, hex, ':' :: (contract ++ ':' :: issuer)) :=
      amountAndHex_eq_some.2 ⟨hs.numeral, hhex, by rw [chars_eq_toList, htext]⟩
    have he : envelope (':' :: (contract ++ ':' :: issuer)) = some _ :=
      envelope_eq_some.2 ⟨contract, hcontract, issuer, hissuer, by rw [List.append_nil], rfl⟩
    have ha : amountOf amt = some a := (amountOf_eq_some hs.numeral).2 hs
    simp only [issuedToken, bind, hh, he, complete, Option.bind_some, ha, pure]

theorem collectibleToken_eq_some : collectibleToken kind s = some (h, env) ↔
    ∃ hex contract issuer, hex ∈ letters Hex.isDigit 64 ∧ contract ∈ word isSlug ∧
      issuer ∈ letters Hex.isDigit 40 ∧ h = String.ofList hex ∧
      env = (⟨String.ofList contract⟩, ⟨String.ofList (issuer.map Char.toLower)⟩) ∧
      s.toList = kind.toList ++ ':' :: (hex ++ ':' :: (contract ++ ':' :: issuer)) := by
  constructor
  · intro hp
    obtain ⟨r₁, h₁, hp⟩ := Option.bind_eq_some_iff.1 hp
    obtain ⟨⟨hex, rest⟩, h₂, hp⟩ := Option.bind_eq_some_iff.1 hp
    obtain ⟨env', hc, hp⟩ := Option.bind_eq_some_iff.1 hp
    cases hp
    obtain ⟨hhex, rfl⟩ := takeExactly_eq_some.1 h₂
    obtain ⟨contract, hcontract, issuer, hissuer, rfl, rfl⟩ := envelope_eq_some.1 (complete_eq_some.1 hc)
    have htext := tag_eq_some.1 h₁
    rw [chars_eq_toList, toList_before, List.append_nil, List.append_assoc, List.singleton_append] at htext
    exact ⟨hex, contract, issuer, hhex, hcontract, hissuer, rfl, rfl, htext⟩
  · rintro ⟨hex, contract, issuer, hhex, hcontract, hissuer, rfl, rfl, htext⟩
    have h₁ : tag (kind ++ ":").toList (chars s) = some (hex ++ ':' :: (contract ++ ':' :: issuer)) :=
      tag_eq_some.2 (by rw [chars_eq_toList, htext, toList_before, List.append_assoc, List.singleton_append])
    have h₂ : hex64 (hex ++ ':' :: (contract ++ ':' :: issuer)) = some (hex, ':' :: (contract ++ ':' :: issuer)) :=
      takeExactly_eq_some.2 ⟨hhex, rfl⟩
    have he : envelope (':' :: (contract ++ ':' :: issuer)) = some _ :=
      envelope_eq_some.2 ⟨contract, hcontract, issuer, hissuer, by rw [List.append_nil], rfl⟩
    simp only [collectibleToken, bind, h₁, h₂, he, complete, Option.bind_some, pure]

/-! ## Sentences -/

theorem mem_amounts {amt : List Char} : amt ∈ amounts ↔ ∃ a, Spells amt a := exists_spells_iff.symm

theorem mem_webcashTokens {w : List Char} : w ∈ webcashTokens kind ↔
    ∃ amt ∈ amounts, ∃ hex ∈ letters Hex.isDigit 64,
    w = 'e' :: (amt ++ ':' :: (kind.toList ++ ':' :: hex)) := by
  simp only [webcashTokens, text, Language.mem_mul, toList_between]
  constructor
  · rintro ⟨_, ⟨_, ⟨_, rfl, amt, hamt, rfl⟩, _, rfl, rfl⟩, hex, hhex, rfl⟩
    exact ⟨amt, hamt, hex, hhex, by simp⟩
  · rintro ⟨amt, hamt, hex, hhex, rfl⟩
    exact ⟨_, ⟨_, ⟨_, rfl, amt, hamt, rfl⟩, _, rfl, rfl⟩, hex, hhex, by simp⟩

theorem mem_envelopes {w : List Char} : w ∈ envelopes ↔
    ∃ contract ∈ word isSlug, ∃ issuer ∈ letters Hex.isDigit 40,
    w = ':' :: (contract ++ ':' :: issuer) := by
  simp only [envelopes, text, Language.mem_mul]
  constructor
  · rintro ⟨_, ⟨_, ⟨_, rfl, contract, hcontract, rfl⟩, _, rfl, rfl⟩, issuer, hissuer, rfl⟩
    exact ⟨contract, hcontract, issuer, hissuer, by simp⟩
  · rintro ⟨contract, hcontract, issuer, hissuer, rfl⟩
    exact ⟨_, ⟨_, ⟨_, rfl, contract, hcontract, rfl⟩, _, rfl, rfl⟩, issuer, hissuer, by simp⟩

/-- **Accepted Webcash texts.** -/
theorem webcashToken_isSome : (webcashToken kind s).isSome ↔ s.toList ∈ webcashTokens kind := by
  rw [mem_webcashTokens, Option.isSome_iff_exists]
  constructor
  · rintro ⟨⟨a, h⟩, hp⟩
    obtain ⟨amt, hex, hs, hhex, -, htext⟩ := webcashToken_eq_some.1 hp
    exact ⟨amt, mem_amounts.2 ⟨a, hs⟩, hex, hhex, htext⟩
  · rintro ⟨amt, hamt, hex, hhex, htext⟩
    obtain ⟨a, hs⟩ := mem_amounts.1 hamt
    exact ⟨(a, String.ofList hex), webcashToken_eq_some.2 ⟨amt, hex, hs, hhex, rfl, htext⟩⟩

/-- **Accepted Voucher and RGB20 texts.** -/
theorem issuedToken_isSome : (issuedToken kind s).isSome ↔ s.toList ∈ issuedTokens kind := by
  simp only [issuedTokens, Language.mem_mul, mem_webcashTokens, mem_envelopes, Option.isSome_iff_exists]
  constructor
  · rintro ⟨⟨a, h, env⟩, hp⟩
    obtain ⟨amt, hex, contract, issuer, hs, hhex, hcontract, hissuer, -, -, htext⟩ := issuedToken_eq_some.1 hp
    exact ⟨_, ⟨amt, mem_amounts.2 ⟨a, hs⟩, hex, hhex, rfl⟩, _,
      ⟨contract, hcontract, issuer, hissuer, rfl⟩, by simp [htext]⟩
  · rintro ⟨_, ⟨amt, hamt, hex, hhex, rfl⟩, _, ⟨contract, hcontract, issuer, hissuer, rfl⟩, htext⟩
    obtain ⟨a, hs⟩ := mem_amounts.1 hamt
    exact ⟨(a, String.ofList hex, _), issuedToken_eq_some.2
      ⟨amt, hex, contract, issuer, hs, hhex, hcontract, hissuer, rfl, rfl, by simp [← htext]⟩⟩

/-- **Accepted RGB21 texts.** -/
theorem collectibleToken_isSome : (collectibleToken kind s).isSome ↔ s.toList ∈ collectibleTokens kind := by
  simp only [collectibleTokens, text, Language.mem_mul, mem_envelopes, toList_before, Option.isSome_iff_exists]
  constructor
  · rintro ⟨⟨h, env⟩, hp⟩
    obtain ⟨hex, contract, issuer, hhex, hcontract, hissuer, -, -, htext⟩ := collectibleToken_eq_some.1 hp
    exact ⟨_, ⟨_, rfl, hex, hhex, rfl⟩, _, ⟨contract, hcontract, issuer, hissuer, rfl⟩, by simp [htext]⟩
  · rintro ⟨_, ⟨_, rfl, hex, hhex, rfl⟩, _, ⟨contract, hcontract, issuer, hissuer, rfl⟩, htext⟩
    exact ⟨(String.ofList hex, _), collectibleToken_eq_some.2
      ⟨hex, contract, issuer, hhex, hcontract, hissuer, rfl, rfl, by simp [← htext]⟩⟩

end Webycash
