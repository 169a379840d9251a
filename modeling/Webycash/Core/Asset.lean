import Webycash.Core.Amount
import Webycash.Lib.Sha256
/-!
# Identifiers, origins and errors of the asset layer (`asset-core/src/lib.rs`)

| here | there |
| --- | --- |
| `ContractId`, `PgpFingerprint` | the two newtypes (lib.rs:33, lib.rs:80) |
| `AssetError`                   | `AssetError` with its `thiserror` texts (lib.rs:128) |
| `RecordOrigin`                 | `RecordOrigin` (lib.rs:296) |
| `Namespace`                    | `storage::Namespace` (storage/src/lib.rs:252) |
| `DateTime`, `Codec`            | `chrono::DateTime<Utc>` and the text formats the records use |
-/

namespace Webycash

structure ContractId where
  id : String
  deriving DecidableEq

structure PgpFingerprint where
  hex : String
  deriving DecidableEq

inductive AssetError
  | parse (msg : String)
  | invariant (msg : String)
  | amount (e : AmountError)
  | unimplemented (msg : String)
  deriving DecidableEq

def AssetError.display : AssetError → String
  | parse m => "parse error: " ++ m
  | invariant m => "invariant violated: " ++ m
  | amount e => "amount error: " ++ e.display
  | unimplemented m => "unimplemented: " ++ m

inductive RecordOrigin
  | mined
  | replaced
  deriving DecidableEq

/-- Storage partition. Webcash is `unscoped`, the issued flavours are `scopedTo` their issuer. -/
structure Namespace where
  contractId : Option ContractId
  issuerFp : Option PgpFingerprint
  deriving DecidableEq

namespace Namespace

def unscoped : Namespace := ⟨none, none⟩
def scopedTo (c : ContractId) (i : PgpFingerprint) : Namespace := ⟨some c, some i⟩

/-- The handlers' `match A::namespace_envelope(s)` (server-core/src/lib.rs:654). -/
def ofEnvelope : Option (String × String) → Namespace
  | some (c, i) => scopedTo ⟨c⟩ ⟨i⟩
  | none => unscoped

end Namespace

/-! ## Time -/

/-- An instant, as nanoseconds since the epoch. -/
structure DateTime where
  nanos : Int
  deriving DecidableEq

/-- The text forms of an instant: `DateTime::to_rfc3339`, `DateTime::parse_from_rfc3339`, and
the pair serde uses inside JSON. They belong to `chrono`, so the development takes them as a
parameter. -/
structure Codec where
  toRfc3339 : DateTime → String
  parseFromRfc3339 : String → Option DateTime
  serialize : DateTime → String
  deserialize : String → Option DateTime

/-- The formats at the epoch itself, for running the model on fixed inputs. -/
def Codec.atEpoch : Codec where
  toRfc3339 _ := "1970-01-01T00:00:00+00:00"
  parseFromRfc3339 s := if s = "1970-01-01T00:00:00+00:00" then some ⟨0⟩ else none
  serialize _ := "1970-01-01T00:00:00Z"
  deserialize s := if s = "1970-01-01T00:00:00Z" ∨ s = "1970-01-01T00:00:00+00:00" then some ⟨0⟩ else none

/-! ## Text -/

/-- `str::as_bytes`. -/
def asBytes (s : String) : List UInt8 := s.toByteArray.data.toList

/-- `str::chars`. An ASCII text is read byte by byte, which the kernel evaluates directly. -/
def chars (s : String) : List Char :=
  if (asBytes s).all (· < 128) then (asBytes s).map fun b => Char.ofNat b.toNat else s.toList

theorem asBytes_ofList (cs : List Char) : asBytes (String.ofList cs) = cs.flatMap String.utf8EncodeChar := by
  simp [asBytes, String.ofList, List.utf8Encode]

theorem not_continuation_lt (n : Nat) : ¬ UInt8.ofNat (n % 64 + 128) < 128 := by
  intro h
  have h' := UInt8.lt_iff_toNat_lt.1 h
  simp only [UInt8.toNat_ofNat', UInt8.reduceToNat] at h'
  omega

/-- A character whose encoding stays below 128 is one byte. -/
theorem utf8EncodeChar_ascii {c : Char} (h : ∀ b ∈ String.utf8EncodeChar c, b < 128) :
    String.utf8EncodeChar c = [UInt8.ofNat c.val.toNat] ∧ c.val.toNat < 128 := by
  unfold String.utf8EncodeChar at h ⊢
  simp only at h ⊢
  split
  · exact ⟨rfl, by omega⟩
  · rename_i hv
    simp only [hv, if_false] at h
    -- the last byte of a longer encoding has its high bit set
    refine absurd (h _ ?_) (not_continuation_lt c.val.toNat)
    split
    · simp
    · split <;> simp

theorem map_ascii_bytes : ∀ {cs : List Char}, (∀ b ∈ cs.flatMap String.utf8EncodeChar, b < 128) →
    (cs.flatMap String.utf8EncodeChar).map (fun b => Char.ofNat b.toNat) = cs
  | [], _ => rfl
  | c :: cs, h => by
    simp only [List.flatMap_cons, List.mem_append] at h
    obtain ⟨he, hv⟩ := utf8EncodeChar_ascii fun b hb => h b (Or.inl hb)
    have hc : (UInt8.ofNat c.val.toNat).toNat = c.toNat := by
      rw [UInt8.toNat_ofNat']
      exact Nat.mod_eq_of_lt (by omega)
    rw [List.flatMap_cons, List.map_append, map_ascii_bytes fun b hb => h b (Or.inr hb), he, List.map_singleton, hc,
      Char.ofNat_toNat, List.singleton_append]

theorem chars_eq_toList (s : String) : chars s = s.toList := by
  unfold chars
  split
  · rename_i h
    obtain ⟨cs, rfl⟩ : ∃ cs, s = String.ofList cs := ⟨s.toList, by simp⟩
    rw [asBytes_ofList] at h ⊢
    rw [String.toList_ofList, map_ascii_bytes fun b hb => by simpa using List.all_eq_true.1 h b hb]
  · rfl

/-! ## Hashing -/

/-- `hex::encode(Sha256::digest(s.as_bytes()))`: every public hash and every HTLC commitment
is this function of some text (htlc/state.rs:144, `to_public` of each flavour). -/
def sha256HexOfAscii (s : String) : String := Hex.encode (Sha256.digest (asBytes s))

theorem colon_notMem_sha256HexOfAscii (s : String) : ':' ∉ (sha256HexOfAscii s).toList :=
  Hex.colon_notMem_encode _

/-- `u64::saturating_add`. -/
def saturatingAddU64 (a b : Nat) : Nat := min (a + b) 18446744073709551615

end Webycash
