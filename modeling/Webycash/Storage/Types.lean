import Mathlib.Data.List.Sort
import Webycash.Lib.Json
import Webycash.Storage.Keys
/-!
# Records, operations and the store interface (`storage/src/lib.rs`)

| here | there |
| --- | --- |
| `ReplacementRecord`, `BurnRecord`, `MiningState` | lib.rs:42, lib.rs:59, lib.rs:96 |
| `ReplaceOp`, `ReplaceResult` | lib.rs:121, lib.rs:133 |
| `HashRecord`                 | the trait (lib.rs:150) with serde's derived JSON beside it |
| `LedgerStore`                | the trait (lib.rs:182), state passed explicitly |
-/

namespace Webycash

structure ReplacementRecord where
  id : String
  inputHashes : List String
  outputHashes : List String
  totalAmountWats : I64
  createdAt : DateTime
  deriving DecidableEq

structure BurnRecord where
  id : String
  publicHash : String
  amountWats : I64
  burnedAt : DateTime
  deriving DecidableEq

/-- A row of the audit keyspace: the JSON text is the record. -/
inductive AuditRow
  | replacement (r : ReplacementRecord)
  | burn (r : BurnRecord)
  deriving DecidableEq

structure MiningState where
  totalCirculationWats : I64
  miningReportsCount : Nat
  difficultyTargetBits : Nat
  epoch : Nat
  miningAmountWats : I64
  subsidyAmountWats : I64
  epochStartedAt : DateTime
  aggregateWork : Nat
  deriving DecidableEq

/-- `MiningState::default()`. -/
def MiningState.default : MiningState := ⟨0, 0, 0, 0, 0, 0, ⟨0⟩, 0⟩

structure ReplaceOp (ρ : Type) where
  inputs : List String
  outputs : List ρ
  record : ReplacementRecord
  deriving DecidableEq

inductive ReplaceResult
  | ok
  | failed (msg : String)
  deriving DecidableEq

/-- How the backends with one transaction per op report it. -/
def ReplaceResult.ofExcept : Except String Unit → ReplaceResult
  | .ok () => ok
  | .error e => failed e

theorem ReplaceResult.ofExcept_eq_ok {e : Except String Unit} : [ofExcept e] = [ok] ↔ e = .ok () := by
  cases e <;> simp [ofExcept]

/-! ## Records -/

/-- A HASH value: field name to text. -/
abbrev Fields := FMap String String

/-- The `HashRecord` codec of a record type, with serde's derived JSON form. `toFields` lists
the `fields.insert` calls; the laws say what every implementation writes: each name once, the
amount and the spent flag among them. -/
structure HashRecord (ρ : Type) where
  publicHash : ρ → String
  amountWats : ρ → I64
  namespaceOf : ρ → Namespace
  spent : ρ → Bool
  toFields : ρ → List (String × String)
  fromFields : DateTime → String → Fields → Option ρ
  toJson : ρ → Doc
  fromJson : Doc → Option ρ
  names_nodup : ∀ r, ((toFields r).map Prod.fst).Nodup
  amount_mem : ∀ r, ("amount_wats", (amountWats r).toText) ∈ toFields r
  spent_mem : ∀ r, ("spent", if spent r then "1" else "0") ∈ toFields r
  json_spent : ∀ r, (toJson r).lookup "spent" = some (.bool (spent r))

namespace HashRecord

variable {ρ : Type} (H : HashRecord ρ)

/-- The map `to_fields` leaves in an empty `HashMap`. -/
def fieldMap (r : ρ) : Fields := FMap.ofPairs (H.toFields r)

theorem toFields_ne_nil (r : ρ) : H.toFields r ≠ [] := List.ne_nil_of_mem (H.amount_mem r)

theorem lookup_fieldMap {r : ρ} {name value : String} (h : (name, value) ∈ H.toFields r) :
    (H.fieldMap r).lookup name = some value := by
  rw [fieldMap, FMap.lookup_ofPairs, FMap.lastPut_of_mem (H.names_nodup r) h]

theorem lookup_amount (r : ρ) : (H.fieldMap r).lookup "amount_wats" = some (H.amountWats r).toText :=
  H.lookup_fieldMap (H.amount_mem r)

theorem lookup_spent (r : ρ) : (H.fieldMap r).lookup "spent" = some (if H.spent r then "1" else "0") :=
  H.lookup_fieldMap (H.spent_mem r)

/-- The entries of one output in `batch_replace`: the field map sorted by name
(redis_backend.rs:279). -/
def entries (r : ρ) : List (String × String) := (H.toFields r).insertionSort fun a b => a.1 ≤ b.1

theorem entries_perm (r : ρ) : (H.entries r).Perm (H.toFields r) := List.perm_insertionSort _ _

theorem ofPairs_entries (r : ρ) : FMap.ofPairs (H.entries r) = H.fieldMap r :=
  FMap.ofPairs_perm (H.entries_perm r) ((H.entries_perm r).map Prod.fst |>.nodup_iff.2 (H.names_nodup r))

theorem length_entries (r : ρ) : (H.entries r).length = (H.toFields r).length := (H.entries_perm r).length_eq

theorem entries_ne_nil (r : ρ) : H.entries r ≠ [] := by
  rw [← List.length_pos_iff, length_entries, List.length_pos_iff]
  exact H.toFields_ne_nil r

end HashRecord

theorem fieldMap_ne_empty {ρ : Type} (H : HashRecord ρ) (r : ρ) : H.fieldMap r ≠ ∅ := by
  intro h
  have hspent := H.lookup_spent r
  rw [h, Finmap.lookup_empty] at hspent
  cases hspent

/-! ## The store interface -/

/-- The type parameters and fixed values of a store: `A::NAME`, the key strategy, the record
codec, the clock's text formats, and the text the client library gives for a refused call. -/
structure StoreConfig (ρ : Type) where
  name : String
  keys : KeyStrategy
  codec : HashRecord ρ
  chrono : Codec
  serviceError : String

namespace StoreConfig

variable {ρ : Type} (cfg : StoreConfig ρ)

def tokenKey (ns : Namespace) (hash : String) : String := cfg.keys.tokenKey cfg.name ns hash

/-- The key `insert_tokens` uses: the record's own namespace. -/
def recordKey (r : ρ) : String := cfg.tokenKey (cfg.codec.namespaceOf r) (cfg.codec.publicHash r)

end StoreConfig

/-- The keys a replace consumes. -/
def inputKeys {ρ : Type} (cfg : StoreConfig ρ) (ns : Namespace) (op : ReplaceOp ρ) : List String :=
  op.inputs.map (cfg.tokenKey ns)

/-- The keys of its outputs under the namespace of the call. -/
def outputKeys {ρ : Type} (cfg : StoreConfig ρ) (ns : Namespace) (op : ReplaceOp ρ) : List String :=
  op.outputs.map fun o => cfg.tokenKey ns (cfg.codec.publicHash o)

/-- `LedgerStore<A>`: every method takes the store's state and returns it. -/
structure LedgerStore (σ ρ : Type) where
  insertTokens : List ρ → σ → Except String Unit × σ
  getTokens : Namespace → List String → σ → Except String (List (Option ρ))
  checkTokens : Namespace → List String → σ → Except String (List (String × Option Bool))
  batchReplace : Namespace → List (ReplaceOp ρ) → σ → List ReplaceResult × σ
  batchBurn : Namespace → List (String × BurnRecord) → σ → Except String Unit × σ
  getMiningState : σ → Except String (Option MiningState)
  updateMiningState : MiningState → σ → Except String Unit × σ

end Webycash
