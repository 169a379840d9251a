import Webycash.Wire.Token
/-!
# Storage keys (`storage/src/lib.rs`, `KeyStrategy`)

A token key is a prefix fixed by the flavour and the namespace followed by the public hash.
`tokenKey_inj` says that one namespace never folds two hashes, `tokenPrefix_eq_of_owns` that
a key written for one namespace belongs to no namespace with another prefix, and
`tokenKey_ne_replacementKey` that tokens and audit rows of one call live under different keys,
which is why the stores below keep them in separate maps.

| here | there |
| --- | --- |
| `KeyStrategy.webcashLegacyKeys` | `WebcashLegacyKeys` (lib.rs:320) |
| `KeyStrategy.namespacedKeys`    | `NamespacedKeys` (lib.rs:345) |
-/

namespace Webycash

inductive KeyStrategy
  | webcashLegacyKeys
  | namespacedKeys
  deriving DecidableEq

namespace Namespace

/-- `ns.contract_id … unwrap_or("_")`. -/
def contractText (ns : Namespace) : String := (ns.contractId.map ContractId.id).getD "_"
def issuerText (ns : Namespace) : String := (ns.issuerFp.map PgpFingerprint.hex).getD "_"

end Namespace

namespace KeyStrategy

/-- What comes before `token:`, `audit:replace:` and `audit:burn:`. -/
def scopePrefix : KeyStrategy → String → Namespace → String
  | webcashLegacyKeys, _, _ => ""
  | namespacedKeys, assetName, ns => assetName ++ ":" ++ ns.contractText ++ ":" ++ ns.issuerText ++ ":"

def tokenPrefix (k : KeyStrategy) (assetName : String) (ns : Namespace) : String :=
  k.scopePrefix assetName ns ++ "token:"

def tokenKey (k : KeyStrategy) (assetName : String) (ns : Namespace) (publicHash : String) : String :=
  k.tokenPrefix assetName ns ++ publicHash

def replacementKey (k : KeyStrategy) (assetName : String) (ns : Namespace) (opId : String) : String :=
  k.scopePrefix assetName ns ++ "audit:replace:" ++ opId

def burnKey (k : KeyStrategy) (assetName : String) (ns : Namespace) (opId : String) : String :=
  k.scopePrefix assetName ns ++ "audit:burn:" ++ opId

def miningStateKey : KeyStrategy → String → String
  | webcashLegacyKeys, _ => "mining:state"
  | namespacedKeys, assetName => assetName ++ ":mining:state"

example : webcashLegacyKeys.tokenKey "webcash" .unscoped "abc" = "token:abc" := by decide
example : namespacedKeys.tokenKey "voucher" .unscoped "h1" = "voucher:_:_:token:h1" := by decide

variable {k : KeyStrategy} {n : String} {ns ns' : Namespace} {h h' : String}

theorem tokenKey_inj (e : k.tokenKey n ns h = k.tokenKey n ns h') : h = h' := by
  have e' := congrArg String.toList e
  simp only [tokenKey, String.toList_append] at e'
  exact String.ext (List.append_cancel_left e')

theorem tokenKey_ne_replacementKey (opId : String) : k.tokenKey n ns h ≠ k.replacementKey n ns opId := by
  intro e
  have e' := congrArg String.toList e
  simp only [tokenKey, tokenPrefix, replacementKey, String.toList_append, List.append_assoc] at e'
  have := List.append_cancel_left e'
  revert this
  simp

/-! ## Which namespace a key belongs to -/

/-- The key is some hash's token key in `ns`. -/
def Owns (k : KeyStrategy) (n : String) (ns : Namespace) (key : String) : Prop :=
  (k.tokenPrefix n ns).toList <+: key.toList

instance decidableOwns : Decidable (k.Owns n ns h) := inferInstanceAs (Decidable (_ <+: _))

theorem owns_tokenKey : k.Owns n ns (k.tokenKey n ns h) := by
  simp only [Owns, tokenKey, String.toList_append]
  exact List.prefix_append _ _

theorem owns_iff {key : String} : k.Owns n ns key ↔ ∃ h, key = k.tokenKey n ns h := by
  constructor
  · rintro ⟨t, ht⟩
    refine ⟨String.ofList t, String.ext ?_⟩
    simp [tokenKey, ← ht]
  · rintro ⟨h, rfl⟩
    exact owns_tokenKey

/-- Text up to the first separator is determined. -/
theorem append_sep_inj : ∀ {a a' b b' : List Char}, ':' ∉ a → ':' ∉ a' →
    a ++ ':' :: b = a' ++ ':' :: b' → a = a' ∧ b = b'
  | [], [], _, _, _, _, e => ⟨rfl, by simpa using e⟩
  | [], c :: a', _, _, _, ha', e => by simp at e; exact absurd e.1 fun h => ha' (by simp [← h])
  | c :: a, [], _, _, ha, _, e => by simp at e; exact absurd e.1.symm fun h => ha (by simp [← h])
  | c :: a, c' :: a', _, _, ha, ha', e => by
    simp only [List.cons_append, List.cons.injEq] at e
    have := append_sep_inj (fun h => ha (List.mem_cons_of_mem _ h)) (fun h => ha' (List.mem_cons_of_mem _ h)) e.2
    exact ⟨by rw [e.1, this.1], this.2⟩

/-- A namespace whose two texts hold no separator. -/
def PlainNamespace (ns : Namespace) : Prop := ':' ∉ ns.contractText.toList ∧ ':' ∉ ns.issuerText.toList

/-- A key of a plain namespace and a hash without separators spells its namespace. -/
theorem texts_eq_of_owns (hns : PlainNamespace ns) (hh : ':' ∉ h.toList)
    (ho : namespacedKeys.Owns n ns' (namespacedKeys.tokenKey n ns h)) :
    ns'.contractText = ns.contractText ∧ ns'.issuerText = ns.issuerText := by
  obtain ⟨t, ht⟩ := ho
  have hsep : ":".toList = [':'] := rfl
  have htok : "token:".toList = "token".toList ++ [':'] := rfl
  simp only [tokenKey, tokenPrefix, scopePrefix, String.toList_append, List.append_assoc, hsep, htok,
    List.cons_append, List.nil_append] at ht
  have e := (List.append_cancel_left ht)
  rw [List.cons.injEq] at e
  -- the right-hand side holds three separators, so the texts on the left hold none
  have hc := congrArg (List.count ':') e.2
  simp only [List.count_append, List.count_cons_self, List.count_eq_zero.2 hns.1, List.count_eq_zero.2 hns.2,
    List.count_eq_zero.2 hh] at hc
  have hc' : ':' ∉ ns'.contractText.toList := List.count_eq_zero.1 (by omega)
  have hi' : ':' ∉ ns'.issuerText.toList := List.count_eq_zero.1 (by omega)
  obtain ⟨h₁, e₂⟩ := append_sep_inj hc' hns.1 e.2
  obtain ⟨h₂, -⟩ := append_sep_inj hi' hns.2 e₂
  exact ⟨String.ext h₁, String.ext h₂⟩

/-- **Keys of one namespace stay in it.** A token key of a plain namespace and a hash without
separators is owned only by namespaces with the same prefix. -/
theorem tokenPrefix_eq_of_owns (hns : PlainNamespace ns) (hh : ':' ∉ h.toList)
    (ho : k.Owns n ns' (k.tokenKey n ns h)) : k.tokenPrefix n ns' = k.tokenPrefix n ns := by
  cases k with
  | webcashLegacyKeys => rfl
  | namespacedKeys =>
    obtain ⟨hcontract, hissuer⟩ := texts_eq_of_owns hns hh ho
    simp only [tokenPrefix, scopePrefix, hcontract, hissuer]

end KeyStrategy

/-- Namespaces read off parsed tokens are plain. -/
theorem plainNamespace_scopedTo {c : ContractId} {i : PgpFingerprint} (h : ColonFree c i) :
    KeyStrategy.PlainNamespace (.scopedTo c i) := h

theorem plainNamespace_unscoped : KeyStrategy.PlainNamespace .unscoped := by
  constructor <;> decide

end Webycash
