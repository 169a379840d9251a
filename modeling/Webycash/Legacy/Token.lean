import Webycash.Legacy.Miner
import Webycash.Wire.Identifiers
/-!
# The two copies of the Webcash format (`server/src/protocol/token.rs`)

`e{amount}:secret:{hex64}` and its public form are parsed by the same combinators in both copies. The newer
`from_str` then asks for the end of the text, to catch a namespaced token that parses as plain webcash
(asset-webcash/src/token.rs:58); the legacy one drops the rest. So the two read the same texts the same way,
but for a token followed by more text (`copies_agree_iff`).

| here | there |
| --- | --- |
| `fromStr`       | `SecretWebcash::from_str` (protocol/token.rs:57) |
| `fromStrPublic` | `PublicWebcash::from_str` (protocol/token.rs:67) |
-/

namespace Webycash.Legacy

open Grammar Wire

/-- `parse_secret_webcash` and `parse_public_webcash`, the rest thrown away. -/
def token (kind : String) (s : String) : Option (Amount × String) := do
  let (amt, hex, _) ← amountAndHex kind (chars s)
  let amount ← amountOf amt
  return (amount, String.ofList hex)

def fromStrPublic (s : String) : Option PublicWebcash := (token "public" s).map fun (amount, hash) => ⟨amount, hash⟩

theorem fromStr_eq (s : String) : fromStr s = (token "secret" s).map fun (amount, secret) => ⟨amount, secret⟩ := by
  unfold fromStr token
  cases amountAndHex "secret" (chars s) with
  | none => rfl
  | some parsed =>
    obtain ⟨amt, hex, rest⟩ := parsed
    simp only [bind, Option.bind_some]
    cases amountOf amt with
    | none => rfl
    | some amount => rfl

variable {kind s h : String} {a : Amount}

theorem token_eq_some : token kind s = some (a, h) ↔ ∃ amt hex rest, Spells amt a ∧
    hex ∈ letters Hex.isDigit 64 ∧
    h = String.ofList hex ∧ s.toList = 'e' :: (amt ++ ':' :: (kind.toList ++ ':' :: (hex ++ rest))) := by
  constructor
  · intro hp
    obtain ⟨⟨amt, hex, rest⟩, hh, hp⟩ := Option.bind_eq_some_iff.1 hp
    obtain ⟨a', ha, hp⟩ := Option.bind_eq_some_iff.1 hp
    cases hp
    obtain ⟨hamt, hhex, htext⟩ := amountAndHex_eq_some.1 hh
    rw [chars_eq_toList] at htext
    exact ⟨amt, hex, rest, (amountOf_eq_some hamt).1 ha, hhex, rfl, htext⟩
  · rintro ⟨amt, hex, rest, hs, hhex, rfl, htext⟩
    have hh : amountAndHex kind (chars s) = some (amt, hex, rest) :=
      amountAndHex_eq_some.2 ⟨hs.numeral, hhex, by rw [chars_eq_toList, htext]⟩
    have ha : amountOf amt = some a := (amountOf_eq_some hs.numeral).2 hs
    simp only [token, bind, hh, Option.bind_some, ha, pure]

/-- A token of the kind, and something behind it. -/
def Trailed (kind s : String) : Prop := ∃ t ∈ webcashTokens kind, ∃ rest, rest ≠ [] ∧ s.toList = t ++ rest

/-- The newer copy takes no such text. -/
theorem not_whole_of_trailed (hkind : ':' ∉ kind.toList) (ht : Trailed kind s) : webcashToken kind s = none := by
  obtain ⟨t, ht, rest, hrest, htext⟩ := ht
  obtain ⟨amt, hamt, hex, hhex, rfl⟩ := mem_webcashTokens.1 ht
  refine Option.eq_none_iff_forall_not_mem.2 fun p hp => ?_
  obtain ⟨amt', hex', hs, hhex', -, htext'⟩ := webcashToken_eq_some.1 hp
  rw [htext', List.cons_append, List.append_assoc, List.cons_append, List.append_assoc, List.cons_append] at htext
  have htext := (List.cons.inj htext).2
  have htext := rest_unique (colon_notMem_numeral hs.numeral) (by simpa using colon_notMem_head hamt) htext
  have htext := rest_unique hkind hkind htext
  have hlen := congrArg List.length htext
  rw [List.length_append, hhex'.1, hhex.1] at hlen
  exact hrest (List.length_eq_zero_iff.1 (by omega))

theorem token_of_trailed (ht : Trailed kind s) : (token kind s).isSome := by
  obtain ⟨t, ht, rest, -, htext⟩ := ht
  obtain ⟨amt, hamt, hex, hhex, rfl⟩ := mem_webcashTokens.1 ht
  obtain ⟨a, hs⟩ := mem_amounts.1 hamt
  exact Option.isSome_iff_exists.2 ⟨(a, String.ofList hex),
    token_eq_some.2 ⟨amt, hex, rest, hs, hhex, rfl, by simp [htext]⟩⟩

theorem token_eq_iff (hkind : ':' ∉ kind.toList) : token kind s = webcashToken kind s ↔ ¬ Trailed kind s := by
  constructor
  · intro heq ht
    have hsome := token_of_trailed ht
    rw [heq, not_whole_of_trailed hkind ht] at hsome
    cases hsome
  · intro hwhole
    refine Option.ext fun p => ?_
    obtain ⟨a, h⟩ := p
    rw [token_eq_some, webcashToken_eq_some]
    constructor
    · rintro ⟨amt, hex, rest, hs, hhex, hh, htext⟩
      have hnil : rest = [] := by
        by_contra hne
        refine hwhole ⟨_, mem_webcashTokens.2 ⟨amt, mem_amounts.2 ⟨_, hs⟩, hex, hhex, rfl⟩, rest, hne, ?_⟩
        rw [htext]
        simp
      rw [hnil, List.append_nil] at htext
      exact ⟨amt, hex, hs, hhex, hh, htext⟩
    · rintro ⟨amt, hex, hs, hhex, hh, htext⟩
      exact ⟨amt, hex, [], hs, hhex, hh, by rw [htext, List.append_nil]⟩

/-- **The copies agree** on every text but a token with something behind it. -/
theorem copies_agree_iff (s : String) : (fromStr s = SecretWebcash.parse s ∧
    fromStrPublic s = PublicWebcash.parse s) ↔
    ¬ Trailed "secret" s ∧ ¬ Trailed "public" s := by
  have hsecret : fromStr s = SecretWebcash.parse s ↔ token "secret" s = webcashToken "secret" s := by
    rw [fromStr_eq, SecretWebcash.parse]
    refine (Option.map_injective fun p q heq => ?_).eq_iff
    injection heq with h₁ h₂
    exact Prod.ext h₁ h₂
  have hpublic : fromStrPublic s = PublicWebcash.parse s ↔ token "public" s = webcashToken "public" s := by
    rw [fromStrPublic, PublicWebcash.parse]
    refine (Option.map_injective fun p q heq => ?_).eq_iff
    injection heq with h₁ h₂
    exact Prod.ext h₁ h₂
  rw [hsecret, hpublic, token_eq_iff WireFormat.colon_notMem_secret, token_eq_iff WireFormat.colon_notMem_public]

/-- A namespaced token is plain webcash to the legacy copy. -/
theorem namespaced_read_as_webcash : ¬ ∀ s : String,
    fromStr s = SecretWebcash.parse s ∧ fromStrPublic s = PublicWebcash.parse s := by
  intro h
  have hs := (h "e1:secret:0000000000000000000000000000000000000000000000000000000000000000:contract:fp").1
  revert hs
  decide +kernel

end Webycash.Legacy
