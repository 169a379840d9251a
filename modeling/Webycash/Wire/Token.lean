import Mathlib.Data.List.TakeWhile
import Webycash.Core.Asset
/-!
# Token wire formats

The `nom` building blocks of `proto/src/parsers.rs` and the token parsers of the three asset
crates. A parser takes the remaining characters and returns what it recognised with the rest;
`none` is any `nom` error. `from_str` of each type also requires the rest to be empty.

| here | there |
| --- | --- |
| `amountParser`, `hex64` | parsers.rs:11, parsers.rs:20 |
| `slug`, `fingerprint`   | asset-rgb/src/token.rs:259, asset-voucher/src/token.rs:144 |
| `SecretWebcash.parse`   | asset-webcash/src/token.rs:127 |
| `SecretIssued.parse`    | `parse_secret` of asset-rgb/src/token.rs:267 and asset-voucher/src/token.rs:153 |
| `SecretCollectible.parse` | asset-rgb/src/token.rs:321 |
-/

namespace Webycash

namespace Wire

/-- `tag(t)`. -/
def tag : List Char → List Char → Option (List Char)
  | [], cs => some cs
  | _ :: _, [] => none
  | t :: ts, c :: cs => if t = c then tag ts cs else none

/-- `take_while1(p)`. -/
def takeWhile1 (p : Char → Bool) (cs : List Char) : Option (List Char × List Char) :=
  match cs.takeWhile p with
  | [] => none
  | m :: ms => some (m :: ms, cs.dropWhile p)

/-- `take_while_m_n(n, n, p)`: the first `n` characters, all in `p`. -/
def takeExactly (p : Char → Bool) : Nat → List Char → Option (List Char × List Char)
  | 0, cs => some ([], cs)
  | _ + 1, [] => none
  | n + 1, c :: cs => if p c then (takeExactly p n cs).map fun (m, rest) => (c :: m, rest) else none

/-- `amount_parser`: `digits[.digits]`, recognised as text. -/
def amountParser (cs : List Char) : Option (List Char × List Char) := do
  let (whole, rest) ← takeWhile1 Char.isDigit cs
  match (tag ['.'] rest).bind (takeWhile1 Char.isDigit) with
  | some (frac, rest') => return (whole ++ '.' :: frac, rest')
  | none => return (whole, rest)

/-- `hex64`. -/
def hex64 : List Char → Option (List Char × List Char) := takeExactly Hex.isDigit 64

/-- `slug`: one or more of `[A-Za-z0-9_-]`. -/
def isSlug (c : Char) : Bool := c.isAlphanum || c == '-' || c == '_'

def slug : List Char → Option (List Char × List Char) := takeWhile1 isSlug

/-- `fingerprint`: 40 hex digits. -/
def fingerprint : List Char → Option (List Char × List Char) := takeExactly Hex.isDigit 40

theorem takeWhile1_all {p : Char → Bool} {cs m rest : List Char} (h : takeWhile1 p cs = some (m, rest)) :
    ∀ c ∈ m, p c = true := by
  unfold takeWhile1 at h
  split at h
  · cases h
  · rename_i a as heq
    cases h
    intro c hc
    exact List.mem_takeWhile_imp (heq ▸ hc)

theorem takeExactly_all {p : Char → Bool} : ∀ {n : Nat} {cs m rest : List Char},
    takeExactly p n cs = some (m, rest) → ∀ c ∈ m, p c = true
  | 0, _, _, _, h => by cases h; simp
  | _ + 1, [], _, _, h => by cases h
  | n + 1, a :: cs, m, rest, h => by
    unfold takeExactly at h
    split at h
    · rename_i ha
      obtain ⟨⟨m', rest'⟩, h', heq⟩ := Option.map_eq_some_iff.1 h
      cases heq
      intro c hc
      rcases List.mem_cons.1 hc with rfl | hc
      · exact ha
      · exact takeExactly_all h' c hc
    · cases h

end Wire

open Wire

/-- `e{amount}:secret:{hex64}` (asset-webcash/src/token.rs:22). -/
structure SecretWebcash where
  amount : Amount
  secret : String
  deriving DecidableEq

structure PublicWebcash where
  amount : Amount
  hash : String
  deriving DecidableEq

/-- `e{amount}:secret:{hex64}:{contract}:{fp}`: `SecretFungible` and `SecretVoucher`. -/
structure SecretIssued where
  amount : Amount
  secret : String
  contractId : ContractId
  issuerFp : PgpFingerprint
  deriving DecidableEq

structure PublicIssued where
  amount : Amount
  hash : String
  contractId : ContractId
  issuerFp : PgpFingerprint
  deriving DecidableEq

/-- `secret:{hex64}:{contract}:{fp}` (asset-rgb/src/token.rs:154). -/
structure SecretCollectible where
  secret : String
  contractId : ContractId
  issuerFp : PgpFingerprint
  deriving DecidableEq

structure PublicCollectible where
  hash : String
  contractId : ContractId
  issuerFp : PgpFingerprint
  deriving DecidableEq

/-- The amount of an `e{amount}` head, converted with `Amount::from_str`. -/
def amountOf (text : List Char) : Option Amount := (parseAmountChars text).toOption

/-- `e{amount}:{kind}:{hex64}`, the head the amount-carrying formats share. -/
def amountAndHex (kind : String) (cs : List Char) : Option (List Char × List Char × List Char) := do
  let rest ← tag ['e'] cs
  let (amt, rest) ← amountParser rest
  let rest ← tag (":" ++ kind ++ ":").toList rest
  let (hex, rest) ← hex64 rest
  return (amt, hex, rest)

/-- `:{contract}:{fp}`, with the fingerprint lowered. -/
def envelope (cs : List Char) : Option ((ContractId × PgpFingerprint) × List Char) := do
  let rest ← tag [':'] cs
  let (contract, rest) ← slug rest
  let rest ← tag [':'] rest
  let (issuer, rest) ← fingerprint rest
  return ((⟨String.ofList contract⟩, ⟨String.ofList (issuer.map Char.toLower)⟩), rest)

/-- `from_str`: nothing may be left over. -/
def complete {α : Type} : Option (α × List Char) → Option α
  | some (a, []) => some a
  | _ => none

/-- `parse_secret_webcash` / `parse_public_webcash`, up to the word in the middle. -/
def webcashToken (kind : String) (s : String) : Option (Amount × String) := do
  let (amt, hex) ← complete ((amountAndHex kind (chars s)).map fun (amt, hex, rest) => ((amt, hex), rest))
  let amount ← amountOf amt
  return (amount, String.ofList hex)

def SecretWebcash.parse (s : String) : Option SecretWebcash :=
  (webcashToken "secret" s).map fun (a, h) => ⟨a, h⟩

def PublicWebcash.parse (s : String) : Option PublicWebcash :=
  (webcashToken "public" s).map fun (a, h) => ⟨a, h⟩

/-- `parse_secret_fungible`, `parse_secret_voucher` and their public twins. -/
def issuedToken (kind : String) (s : String) : Option (Amount × String × ContractId × PgpFingerprint) := do
  let (amt, hex, rest) ← amountAndHex kind (chars s)
  let env ← complete (envelope rest)
  let amount ← amountOf amt
  return (amount, String.ofList hex, env.1, env.2)

def SecretIssued.parse (s : String) : Option SecretIssued :=
  (issuedToken "secret" s).map fun (a, h, c, i) => ⟨a, h, c, i⟩

def PublicIssued.parse (s : String) : Option PublicIssued :=
  (issuedToken "public" s).map fun (a, h, c, i) => ⟨a, h, c, i⟩

/-- `parse_secret_collectible` / `parse_public_collectible`. -/
def collectibleToken (kind : String) (s : String) : Option (String × ContractId × PgpFingerprint) := do
  let rest ← tag (kind ++ ":").toList (chars s)
  let (hex, rest) ← hex64 rest
  let env ← complete (envelope rest)
  return (String.ofList hex, env.1, env.2)

def SecretCollectible.parse (s : String) : Option SecretCollectible :=
  (collectibleToken "secret" s).map fun (h, c, i) => ⟨h, c, i⟩

def PublicCollectible.parse (s : String) : Option PublicCollectible :=
  (collectibleToken "public" s).map fun (h, c, i) => ⟨h, c, i⟩

/-- `to_public` hashes the secret text only; amount and namespace ride along. -/
def SecretWebcash.toPublic (s : SecretWebcash) : PublicWebcash := ⟨s.amount, sha256HexOfAscii s.secret⟩

def SecretIssued.toPublic (s : SecretIssued) : PublicIssued :=
  ⟨s.amount, sha256HexOfAscii s.secret, s.contractId, s.issuerFp⟩

def SecretCollectible.toPublic (s : SecretCollectible) : PublicCollectible :=
  ⟨sha256HexOfAscii s.secret, s.contractId, s.issuerFp⟩

/-! ## What a parsed envelope cannot contain -/

/-- Neither part of an envelope contains the key separator. -/
def ColonFree (c : ContractId) (i : PgpFingerprint) : Prop := ':' ∉ c.id.toList ∧ ':' ∉ i.hex.toList

theorem isSlug_colon : isSlug ':' = false := by decide

/-- Only the separator itself lowers to the separator. -/
theorem eq_colon_of_toLower {c : Char} (h : c.toLower = ':') : c = ':' := by
  unfold Char.toLower at h
  split at h
  · have hv := congrArg Char.val h
    grind
  · exact h

theorem envelope_colonFree {cs rest : List Char} {env : ContractId × PgpFingerprint}
    (h : envelope cs = some (env, rest)) : ColonFree env.1 env.2 := by
  simp only [envelope, bind, Option.bind_eq_some_iff, pure, Option.some.injEq, Prod.mk.injEq, Prod.exists] at h
  obtain ⟨_, -, contract, _, hslug, _, -, issuer, _, hfp, rfl, -⟩ := h
  constructor
  · intro hc
    rw [String.toList_ofList] at hc
    have := takeWhile1_all hslug _ hc
    rw [isSlug_colon] at this
    cases this
  · intro hc
    rw [String.toList_ofList] at hc
    obtain ⟨c, hm, hl⟩ := List.mem_map.1 hc
    have hd := takeExactly_all hfp c hm
    rw [eq_colon_of_toLower hl] at hd
    exact absurd hd (by decide)

theorem complete_eq_some {α : Type} {o : Option (α × List Char)} {a : α} : complete o = some a ↔
    o = some (a, []) := by
  unfold complete
  split <;> simp_all

theorem SecretIssued.parse_colonFree {t : String} {s : SecretIssued} (h : SecretIssued.parse t = some s) :
    ColonFree s.contractId s.issuerFp := by
  simp only [SecretIssued.parse, issuedToken, bind, pure, Option.map_eq_some_iff, Option.bind_eq_some_iff,
    Option.some.injEq, Prod.exists, Prod.mk.injEq, complete_eq_some] at h
  obtain ⟨_, _, _, _, ⟨_, _, rest, -, c, i, henv, _, -, rfl, rfl, rfl, rfl⟩, rfl⟩ := h
  exact envelope_colonFree henv

theorem SecretCollectible.parse_colonFree {t : String} {s : SecretCollectible}
    (h : SecretCollectible.parse t = some s) : ColonFree s.contractId s.issuerFp := by
  simp only [SecretCollectible.parse, collectibleToken, bind, pure, Option.map_eq_some_iff,
    Option.bind_eq_some_iff, Option.some.injEq, Prod.exists, Prod.mk.injEq, complete_eq_some] at h
  obtain ⟨_, _, _, ⟨_, -, _, rest, -, c, i, henv, rfl, rfl, rfl⟩, rfl⟩ := h
  exact envelope_colonFree henv

end Webycash
