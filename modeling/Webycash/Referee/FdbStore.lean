import Mathlib.Data.List.Dedup
import Mathlib.Data.List.Infix
import Webycash.Referee.Keyspace
import Webycash.Referee.State
/-!
# The FoundationDB swap store (`referee/src/store/fdb.rs`)

`upsert` writes the row of a swap and one key in each of two indexes, `prefix fp / time / id`.
`list_by_party` reads the keys that begin with `prefix fp /`, takes the id behind the last slash and
looks up the row. The fingerprint is not escaped: the range of `fp` also holds the keys of every
fingerprint that goes on with a slash after `fp`, and of the one that `fp` is with a slash and a time
after it (`Overlaps`). Such a swap of others is listed, with Alice's role.

The JSON of a row is kept as the row that is read back; a listing reads one state of the store.

| here | there |
| --- | --- |
| `PartyRole`, `TransactionSummary` | referee/src/transaction.rs:84, :199 |
| `indexKey`, `indexSubspace`       | store/fdb.rs:38, :48 |
| `upsert`, `get`, `listByParty`    | store/fdb.rs:79, :115, :133 |
-/

namespace Webycash.Referee

inductive PartyRole
  | bob
  | alice
  | both
  deriving DecidableEq

structure TransactionSummary where
  swapId : SwapId
  status : TransactionStatus
  phase : Phase
  terminal : Bool
  bobPgpFp : PgpFingerprint
  alicePgpFp : PgpFingerprint
  role : PartyRole
  createdAtUnix : Nat
  updatedAtUnix : Nat
  deriving DecidableEq

def Transaction.summary (tx : Transaction) (role : PartyRole) : TransactionSummary :=
  ⟨tx.swapId, tx.status, tx.phase, tx.terminal, tx.bobPgpFp, tx.alicePgpFp, role, tx.createdAtUnix,
    tx.updatedAtUnix⟩

namespace FdbStore

open KeyRange

/-! ## The store -/

inductive Value
  | row (tx : Transaction)
  | empty

abbrev Kv := List (Key × Value)

def SWAP_PREFIX : Key := keyOf "referee/swap/"

def BY_BOB_PREFIX : Key := keyOf "referee/by-bob/"

def BY_ALICE_PREFIX : Key := keyOf "referee/by-alice/"

def swapKey (id : SwapId) : Key := SWAP_PREFIX ++ keyOf id.id

def tsPadded (ts : Nat) : Key := padded ts

def indexKey (pre : Key) (fp : PgpFingerprint) (ts : Nat) (id : SwapId) : Key :=
  pre ++ keyOf fp.hex ++ [slash] ++ tsPadded ts ++ [slash] ++ keyOf id.id

def indexSubspace (pre : Key) (fp : PgpFingerprint) : Key × Key :=
  let start := pre ++ keyOf fp.hex ++ [slash]
  (start, start ++ [255])

def upsert (tx : Transaction) (kv : Kv) : Kv :=
  let rowKey := swapKey tx.swapId
  let bobKey := indexKey BY_BOB_PREFIX tx.bobPgpFp tx.createdAtUnix tx.swapId
  let aliceKey := indexKey BY_ALICE_PREFIX tx.alicePgpFp tx.createdAtUnix tx.swapId
  SortedMap.put aliceKey .empty (SortedMap.put bobKey .empty (SortedMap.put rowKey (.row tx) kv))

def get (id : SwapId) (kv : Kv) : Except RefereeError (Option Transaction) :=
  match (kv.find? fun p => p.1 = swapKey id).map Prod.snd with
  | none => .ok none
  | some (.row tx) => .ok (some tx)
  | some .empty => .error (.store "decode: EOF while parsing a value at line 1 column 0")

/-- `std::str::from_utf8`. -/
def fromUtf8 (bytes : Key) : Option String := String.fromUTF8? ⟨(bytes.map UInt8.ofNat).toArray⟩

/-- The bytes behind the last slash. -/
def idOf (key : Key) : Option String :=
  if slash ∈ key then fromUtf8 (key.reverse.takeWhile (· ≠ slash)).reverse else none

/-- One of the two range reads. -/
def readIndex (pre : Key) (fp : PgpFingerprint) (kv : Kv) : Kv :=
  let (start, stop) := indexSubspace pre fp
  getRange { RangeOption.of start stop with limit := some 1000, reverse := true } 1 false kv

def scan (fp : PgpFingerprint) (kv : Kv) : List String :=
  (readIndex BY_BOB_PREFIX fp kv ++ readIndex BY_ALICE_PREFIX fp kv).filterMap fun p => idOf p.1

def roleOf (fp : PgpFingerprint) (tx : Transaction) : PartyRole :=
  if tx.bobPgpFp = fp ∧ tx.alicePgpFp = fp then .both else if tx.bobPgpFp = fp then .bob else .alice

/-- The loop of `list_by_party` over the ids. -/
def summaries (fp : PgpFingerprint) (kv : Kv) : List String → List String →
    Except RefereeError (List TransactionSummary)
  | _, [] => .ok []
  | seen, id :: ids =>
    if id ∈ seen then summaries fp kv seen ids
    else do
      let found ← get ⟨id⟩ kv
      let rest ← summaries fp kv (id :: seen) ids
      return match found with
        | some tx => tx.summary (roleOf fp tx) :: rest
        | none => rest

def listByParty (fp : PgpFingerprint) (kv : Kv) : Except RefereeError (List TransactionSummary) := do
  let found ← summaries fp kv [] (scan fp kv)
  return (found.mergeSort fun a b => decide (b.createdAtUnix ≤ a.createdAtUnix)).take 1000

/-- The store after these upserts. -/
def upsertAll (txs : List Transaction) : Kv := txs.foldl (fun kv tx => upsert tx kv) []

/-! ## What a listing is for -/

/-- The last row that was written of a swap. -/
def current (txs : List Transaction) (id : SwapId) : Option Transaction := txs.reverse.find? (·.swapId = id)

def IsParty (fp : PgpFingerprint) (tx : Transaction) : Prop := tx.bobPgpFp = fp ∨ tx.alicePgpFp = fp

instance (fp : PgpFingerprint) : DecidablePred (IsParty fp) := fun _ => inferInstanceAs (Decidable (_ ∨ _))

def PartyRole.Of (fp : PgpFingerprint) (tx : Transaction) : PartyRole → Prop
  | .bob => tx.bobPgpFp = fp ∧ tx.alicePgpFp ≠ fp
  | .alice => tx.alicePgpFp = fp ∧ tx.bobPgpFp ≠ fp
  | .both => tx.bobPgpFp = fp ∧ tx.alicePgpFp = fp

/-- The ids of the swaps with this property. -/
def swaps (P : Transaction → Prop) [DecidablePred P] (txs : List Transaction) : List SwapId :=
  ((txs.filter P).map Transaction.swapId).dedup

/-- The swaps of the party and no others, each once, as last written, with the role of the party, the
newest first; and all of them when they are a thousand or fewer. -/
structure Right (txs : List Transaction) (fp : PgpFingerprint) (l : List TransactionSummary) : Prop where
  own : ∀ s ∈ l, ∃ tx, current txs s.swapId = some tx ∧ s = tx.summary s.role ∧ PartyRole.Of fp tx s.role
  once : (l.map TransactionSummary.swapId).Nodup
  newestFirst : l.Pairwise fun a b => b.createdAtUnix ≤ a.createdAtUnix
  all : (swaps (IsParty fp) txs).length ≤ 1000 → ∀ id tx, current txs id = some tx → IsParty fp tx →
    ∃ s ∈ l, s.swapId = id

def ListsOwn (txs : List Transaction) (fp : PgpFingerprint) : Prop :=
  ∃ l, listByParty fp (upsertAll txs) = .ok l ∧ Right txs fp l

/-- What the rows of a store have in common: an id is a UUID, and a swap keeps its parties and its
time of creation. -/
structure Written (txs : List Transaction) : Prop where
  plain : ∀ tx ∈ txs, '/' ∉ tx.swapId.id.toList
  same : ∀ tx ∈ txs, ∀ tx' ∈ txs, tx.swapId = tx'.swapId →
    tx.bobPgpFp = tx'.bobPgpFp ∧ tx.alicePgpFp = tx'.alicePgpFp ∧ tx.createdAtUnix = tx'.createdAtUnix

/-- The range of `fp` holds the keys of `f` at this time, though they are not the same: `f` goes on
after `fp` with a slash, or `fp` after `f` with a slash and the time. -/
def Overlaps (fp f : PgpFingerprint) (ts : Nat) : Prop :=
  keyOf fp.hex ++ [slash] <+: keyOf f.hex ∨ keyOf fp.hex = keyOf f.hex ++ slash :: tsPadded ts

instance (fp f : PgpFingerprint) (ts : Nat) : Decidable (Overlaps fp f ts) := inferInstanceAs (Decidable (_ ∨ _))

/-- No swap of others is in the range. -/
def Separate (txs : List Transaction) (fp : PgpFingerprint) : Prop := ∀ tx ∈ txs,
  Overlaps fp tx.bobPgpFp tx.createdAtUnix ∨ Overlaps fp tx.alicePgpFp tx.createdAtUnix → IsParty fp tx

/-! ## Keys -/

/-- The two indexes. -/
inductive Side
  | bob
  | alice

def Side.pre : Side → Key
  | bob => BY_BOB_PREFIX
  | alice => BY_ALICE_PREFIX

def Side.fp (tx : Transaction) : Side → PgpFingerprint
  | bob => tx.bobPgpFp
  | alice => tx.alicePgpFp

/-- The key of a swap in an index. -/
def Side.key (tx : Transaction) (side : Side) : Key := indexKey side.pre (side.fp tx) tx.createdAtUnix tx.swapId

variable {txs : List Transaction} {tx tx' : Transaction} {fp f : PgpFingerprint} {pre : Key} {ts : Nat}
  {id : SwapId} {side side' : Side} {kv : Kv} {p : Key × Value}

theorem indexKey_eq : indexKey pre f ts id = pre ++
    (keyOf f.hex ++ slash :: (tsPadded ts ++ slash :: keyOf id.id)) := by
  simp [indexKey]

theorem lt_of_mem_path {b : Nat} (h : b ∈ keyOf f.hex ++ slash :: (tsPadded ts ++ slash :: keyOf id.id)) :
    b < 255 := by
  simp only [List.mem_append, List.mem_cons] at h
  rcases h with h | rfl | h | rfl | h
  · exact lt_of_mem_keyOf h
  · decide
  · have := (digit_of_mem_padded h).2
    omega
  · decide
  · exact lt_of_mem_keyOf h

/-- **The range of a fingerprint** holds its own keys, and those it overlaps with. -/
theorem indexKey_mem_range (hid : '/' ∉ id.id.toList) :
    (indexSubspace pre fp).1 ≤ indexKey pre f ts id ∧ indexKey pre f ts id < (indexSubspace pre fp).2 ↔
      f = fp ∨ Overlaps fp f ts := by
  have hplain : slash ∉ keyOf id.id := fun h => hid (slash_mem_keyOf.1 h)
  have hcut : ∀ rest, indexKey pre f ts id = pre ++ keyOf fp.hex ++ [slash] ++ rest ↔
      keyOf f.hex ++ slash :: (tsPadded ts ++ slash :: keyOf id.id) = keyOf fp.hex ++ slash :: rest := by
    intro rest
    rw [indexKey_eq, List.append_assoc, List.append_assoc, List.append_right_inj]
    rfl
  rw [indexSubspace, mem_subspace_iff]
  constructor
  · rintro ⟨rest, hrest, -⟩
    rcases cut_cases ((hcut rest).1 hrest) with ⟨hf, -⟩ | ⟨c, hfp, htail⟩ | ⟨c, hf, -⟩
    · cases f
      cases fp
      exact .inl (congrArg PgpFingerprint.mk (keyOf_inj hf))
    · -- `fp` ends in the time; it cannot reach into the id.
      rcases cut_cases htail with ⟨rfl, -⟩ | ⟨d, -, hd⟩ | ⟨d, hd, -⟩
      · exact .inr (.inr hfp)
      · exact absurd (hd ▸ List.mem_append_right d List.mem_cons_self) hplain
      · have hslash : slash ∈ tsPadded ts := hd ▸ List.mem_append_right c List.mem_cons_self
        exact absurd hslash (slash_notMem_padded ts)
    · exact .inr (.inl ⟨c, by rw [hf]; simp⟩)
  · intro h
    have hrest : ∃ rest, keyOf f.hex ++ slash :: (tsPadded ts ++ slash :: keyOf id.id) = keyOf fp.hex ++
        slash :: rest := by
      rcases h with rfl | ⟨c, hc⟩ | hfp
      · exact ⟨_, rfl⟩
      · exact ⟨c ++ slash :: (tsPadded ts ++ slash :: keyOf id.id), by rw [← hc]; simp⟩
      · exact ⟨keyOf id.id, by rw [hfp]; simp⟩
    obtain ⟨rest, hrest⟩ := hrest
    refine ⟨rest, (hcut rest).2 hrest, fun b hb => ?_⟩
    have hpath : b ∈ keyOf f.hex ++ slash :: (tsPadded ts ++ slash :: keyOf id.id) := by
      rw [hrest]
      exact List.mem_append_right _ (List.mem_cons_of_mem _ (List.mem_of_mem_head? hb))
    exact lt_of_mem_path hpath

/-- The eleventh byte tells the three kinds of keys apart. -/
theorem byte_swap (k : Key) : (SWAP_PREFIX ++ k)[11]? = some 112 := by
  rw [List.getElem?_append_left (by decide)]
  decide

theorem byte_side (k : Key) : (side.pre ++ k)[11]? = some (match side with | .bob => 98 | .alice => 97) := by
  cases side
  · show (BY_BOB_PREFIX ++ k)[11]? = _
    rw [List.getElem?_append_left (by decide)]
    decide
  · show (BY_ALICE_PREFIX ++ k)[11]? = _
    rw [List.getElem?_append_left (by decide)]
    decide

theorem side_ne_swap {k k' : Key} : side.pre ++ k ≠ SWAP_PREFIX ++ k' := by
  intro h
  have hbyte : (_ : Key)[11]? = (_ : Key)[11]? := congrArg (fun k => k[11]?) h
  rw [byte_side, byte_swap] at hbyte
  cases side <;> cases hbyte

theorem side_inj {k k' : Key} (h : side.pre ++ k = side'.pre ++ k') : side = side' := by
  have hbyte : (_ : Key)[11]? = (_ : Key)[11]? := congrArg (fun k => k[11]?) h
  rw [byte_side, byte_side] at hbyte
  cases side <;> cases side' <;> first | rfl | cases hbyte

theorem swapKey_inj {id id' : SwapId} (h : swapKey id = swapKey id') : id = id' := by
  cases id
  cases id'
  exact congrArg SwapId.mk (keyOf_inj (List.append_cancel_left h))

theorem key_ne_swapKey : Side.key tx side ≠ swapKey id := by
  rw [Side.key, indexKey_eq]
  exact side_ne_swap

theorem fromUtf8_keyOf (s : String) : fromUtf8 (keyOf s) = some s := by
  have hbytes : (⟨((keyOf s).map UInt8.ofNat).toArray⟩ : ByteArray) = s.toByteArray := by
    refine ByteArray.ext (Array.toList_inj.1 ?_)
    simp [keyOf, asBytes, Function.comp_def]
  rw [fromUtf8, hbytes, String.fromUTF8?, dif_pos s.isValidUTF8]
  rfl

theorem idOf_key (hid : '/' ∉ tx.swapId.id.toList) : idOf (Side.key tx side) = some tx.swapId.id := by
  have hplain : slash ∉ keyOf tx.swapId.id := fun h => hid (slash_mem_keyOf.1 h)
  have hrev : ((keyOf tx.swapId.id).reverse ++
    slash :: (side.pre ++ keyOf (side.fp tx).hex ++ [slash] ++ tsPadded tx.createdAtUnix).reverse) =
      (Side.key tx side).reverse := by
    simp [Side.key, indexKey]
  have htail : (Side.key tx side).reverse.takeWhile (· ≠ slash) = (keyOf tx.swapId.id).reverse := by
    rw [← hrev, List.takeWhile_append_of_pos fun b hb =>
      decide_eq_true (ne_of_mem_of_not_mem (List.mem_reverse.1 hb) hplain)]
    simp
  rw [idOf, if_pos (by simp [Side.key, indexKey]), htail, List.reverse_reverse, fromUtf8_keyOf]

/-! ## What is in the store -/

theorem upsertAll_concat : upsertAll (txs ++ [tx]) = upsert tx (upsertAll txs) := by
  rw [upsertAll, List.foldl_append]
  rfl

theorem current_concat : current (txs ++ [tx]) id = if tx.swapId = id then some tx else current txs id := by
  rw [current, List.reverse_append, List.reverse_singleton, List.singleton_append, List.find?_cons]
  by_cases h : tx.swapId = id <;> simp [h, current]

theorem current_mem (h : current txs id = some tx) : tx ∈ txs ∧ tx.swapId = id := by
  have hid : decide (tx.swapId = id) = true := List.find?_some (p := fun tx : Transaction => decide (tx.swapId = id)) h
  exact ⟨List.mem_reverse.1 (List.mem_of_find?_eq_some h), of_decide_eq_true hid⟩

theorem exists_current (h : tx ∈ txs) : ∃ tx', current txs tx.swapId = some tx' := by
  refine Option.isSome_iff_exists.1 (List.find?_isSome.2 ⟨tx, List.mem_reverse.2 h, ?_⟩)
  simp

theorem upsert_sorted (h : SortedMap.Sorted kv) : SortedMap.Sorted (upsert tx kv) := ((h.put _ _).put _ _).put _ _

theorem upsertAll_sorted (txs : List Transaction) : SortedMap.Sorted (upsertAll txs) := by
  induction txs using List.reverseRecOn with
  | nil => exact .nil
  | append_singleton txs tx ih =>
    rw [upsertAll_concat]
    exact upsert_sorted ih

/-- **What an upsert leaves**: its row and its two keys, and all that has another key. -/
theorem mem_upsert : p ∈ upsert tx kv ↔ p = (swapKey tx.swapId, .row tx) ∨
    (∃ side, p = (Side.key tx side, .empty)) ∨
    (p ∈ kv ∧ p.1 ≠ swapKey tx.swapId ∧ ∀ side, p.1 ≠ Side.key tx side) := by
  have hba : Side.key tx .bob ≠ Side.key tx .alice := by
    intro h
    rw [Side.key, Side.key, indexKey_eq, indexKey_eq] at h
    cases side_inj h
  show p ∈ SortedMap.put (Side.key tx .alice) .empty
    (SortedMap.put (Side.key tx .bob) .empty (SortedMap.put _ _ kv)) ↔ _
  rw [SortedMap.mem_put, SortedMap.mem_put, SortedMap.mem_put]
  constructor
  · rintro (rfl | ⟨rfl | ⟨rfl | ⟨hp, hrow⟩, hbob⟩, halice⟩)
    · exact .inr (.inl ⟨.alice, rfl⟩)
    · exact .inr (.inl ⟨.bob, rfl⟩)
    · exact .inl rfl
    · exact .inr (.inr ⟨hp, hrow, fun side => side.casesOn hbob halice⟩)
  · rintro (rfl | ⟨side, rfl⟩ | ⟨hp, hrow, hside⟩)
    · exact .inr ⟨.inr ⟨.inl rfl, key_ne_swapKey.symm⟩, key_ne_swapKey.symm⟩
    · cases side with
      | bob => exact .inr ⟨.inl rfl, hba⟩
      | alice => exact .inl rfl
    · exact .inr ⟨.inr ⟨.inr ⟨hp, hrow⟩, hside .bob⟩, hside .alice⟩

/-- **What the store holds**: of every swap the last row, and of every row its keys. -/
theorem mem_upsertAll : p ∈ upsertAll txs ↔
    (∃ tx, current txs tx.swapId = some tx ∧ p = (swapKey tx.swapId, .row tx)) ∨
    ∃ tx ∈ txs, ∃ side, p = (Side.key tx side, .empty) := by
  induction txs using List.reverseRecOn with
  | nil => simp [upsertAll, current]
  | append_singleton txs tx ih =>
    rw [upsertAll_concat, mem_upsert, ih]
    constructor
    · rintro (rfl | ⟨side, rfl⟩ | ⟨⟨tx', hcur, rfl⟩ | ⟨tx', htx, side, rfl⟩, hrow, -⟩)
      · exact .inl ⟨tx, by rw [current_concat, if_pos rfl], rfl⟩
      · exact .inr ⟨tx, by simp, side, rfl⟩
      · refine .inl ⟨tx', ?_, rfl⟩
        rw [current_concat, if_neg fun h => hrow (by rw [h])]
        exact hcur
      · exact .inr ⟨tx', by simp [htx], side, rfl⟩
    · rintro (⟨tx', hcur, rfl⟩ | ⟨tx', htx, side, rfl⟩)
      · rw [current_concat] at hcur
        split at hcur
        · cases hcur
          exact .inl rfl
        · rename_i hne
          exact .inr (.inr ⟨.inl ⟨tx', hcur, rfl⟩, fun h => hne (swapKey_inj h).symm,
            fun side => key_ne_swapKey.symm⟩)
      · by_cases hkey : ∃ s, Side.key tx' side = Side.key tx s
        · obtain ⟨s, hs⟩ := hkey
          exact .inr (.inl ⟨s, by rw [hs]⟩)
        · rcases List.mem_append.1 htx with htx | htx
          · exact .inr (.inr ⟨.inr ⟨tx', htx, side, rfl⟩, key_ne_swapKey, fun s h => hkey ⟨s, h⟩⟩)
          · obtain rfl := List.mem_singleton.1 htx
            exact absurd ⟨side, rfl⟩ hkey

/-- **A row is read back** as it was last written. -/
theorem get_upsertAll (txs : List Transaction) (id : SwapId) : get id (upsertAll txs) = .ok (current txs id) := by
  unfold get
  cases hcur : current txs id with
  | some tx =>
    obtain ⟨-, rfl⟩ := current_mem hcur
    have hmem : (swapKey tx.swapId, Value.row tx) ∈ upsertAll txs := mem_upsertAll.2 (.inl ⟨tx, hcur, rfl⟩)
    rw [(upsertAll_sorted txs).find?_eq hmem]
    rfl
  | none =>
    have hnone : (upsertAll txs).find? (fun p => p.1 = swapKey id) = none := by
      refine List.find?_eq_none.2 fun p hp => ?_
      rw [decide_eq_true_eq]
      rcases mem_upsertAll.1 hp with ⟨tx, htx, rfl⟩ | ⟨tx, -, side, rfl⟩
      · intro h
        rw [swapKey_inj h, hcur] at htx
        cases htx
      · exact key_ne_swapKey
    rw [hnone]
    rfl

/-! ## What is read -/

/-- The key of the swap in this index is in the range of `fp`. -/
def Caught (fp : PgpFingerprint) (tx : Transaction) (side : Side) : Prop :=
  side.fp tx = fp ∨ Overlaps fp (side.fp tx) tx.createdAtUnix

def Found (fp : PgpFingerprint) (tx : Transaction) : Prop := Caught fp tx .bob ∨ Caught fp tx .alice

instance (fp : PgpFingerprint) (tx : Transaction) (side : Side) : Decidable (Caught fp tx side) :=
  inferInstanceAs (Decidable (_ ∨ _))

instance (fp : PgpFingerprint) : DecidablePred (Found fp) := fun _ => inferInstanceAs (Decidable (_ ∨ _))

theorem Caught.found (h : Caught fp tx side) : Found fp tx := by
  cases side
  · exact .inl h
  · exact .inr h

/-- What the index holds in the range of `fp`. -/
def inRange (side : Side) (fp : PgpFingerprint) (kv : Kv) : Kv :=
  range (indexSubspace side.pre fp).1 (indexSubspace side.pre fp).2 kv

theorem readIndex_eq (side : Side) (fp : PgpFingerprint) (kv : Kv) :
    readIndex side.pre fp kv = (inRange side fp kv).reverse.take 1000 := rfl

theorem mem_inRange (hw : Written txs) : p ∈ inRange side fp (upsertAll txs) ↔
    ∃ tx ∈ txs, p = (Side.key tx side, .empty) ∧ Caught fp tx side := by
  rw [inRange, range, List.mem_filter, decide_eq_true_eq, mem_upsertAll]
  have hpre : ∀ k, (indexSubspace side.pre fp).1 ≤ k ∧ k < (indexSubspace side.pre fp).2 →
      ∃ rest, k = side.pre ++ rest := by
    intro k hk
    obtain ⟨rest, rfl, -⟩ := mem_subspace_iff.1 hk
    exact ⟨keyOf fp.hex ++ [slash] ++ rest, by simp [indexSubspace]⟩
  constructor
  · rintro ⟨⟨tx, -, rfl⟩ | ⟨tx, htx, side', rfl⟩, hk⟩
    · obtain ⟨rest, hrest⟩ := hpre _ hk
      exact absurd hrest.symm side_ne_swap
    · obtain ⟨rest, hrest⟩ := hpre _ hk
      rw [Side.key, indexKey_eq] at hrest
      obtain rfl := side_inj hrest
      exact ⟨tx, htx, rfl, (indexKey_mem_range (hw.plain tx htx)).1 hk⟩
  · rintro ⟨tx, htx, rfl, hc⟩
    exact ⟨.inr ⟨tx, htx, side, rfl⟩, (indexKey_mem_range (hw.plain tx htx)).2 hc⟩

theorem mem_swaps {P : Transaction → Prop} [DecidablePred P] : id ∈ swaps P txs ↔ ∃ tx ∈ txs, P tx ∧
    tx.swapId = id := by
  simp [swaps, and_assoc]

/-- A list without repetitions of ids of such swaps is no longer than their number. -/
theorem length_le_swaps {P : Transaction → Prop} [DecidablePred P] {l : List SwapId} (hl : l.Nodup)
    (h : ∀ id ∈ l, id ∈ swaps P txs) :
    l.length ≤ (swaps P txs).length := (List.subperm_of_subset hl h).length_le

theorem length_swaps_singleton {P : Transaction → Prop} [DecidablePred P] : (swaps P [tx]).length ≤ 1 :=
  (List.dedup_sublist _).length_le.trans ((List.length_map _).le.trans (List.length_filter_le _ _))

/-- An index has one key of every swap. -/
theorem length_inRange (hw : Written txs) : (inRange side fp (upsertAll txs)).length ≤
    (swaps (Found fp) txs).length := by
  have hids : ((inRange side fp (upsertAll txs)).map fun p => SwapId.mk ((idOf p.1).getD "")).Nodup := by
    refine List.Nodup.map_on (fun p hp q hq hpq => ?_) ((upsertAll_sorted txs).imp (fun h => ?_) |>.filter _)
    · obtain ⟨tx, htx, rfl, -⟩ := (mem_inRange hw).1 hp
      obtain ⟨tx', htx', rfl, -⟩ := (mem_inRange hw).1 hq
      rw [idOf_key (hw.plain tx htx), idOf_key (hw.plain tx' htx')] at hpq
      have hid : tx.swapId = tx'.swapId := hpq
      obtain ⟨hbob, halice, hts⟩ := hw.same tx htx tx' htx' hid
      cases side <;> simp only [Side.key, Side.fp, hbob, halice, hts, hid]
    · rintro rfl
      exact lt_irrefl _ h
  refine le_of_eq_of_le (List.length_map _).symm (length_le_swaps hids fun id hid => ?_)
  obtain ⟨p, hp, rfl⟩ := List.mem_map.1 hid
  obtain ⟨tx, htx, rfl, hc⟩ := (mem_inRange hw).1 hp
  exact mem_swaps.2 ⟨tx, htx, hc.found, by rw [idOf_key (hw.plain tx htx)]; rfl⟩

theorem mem_scan {i : String} : i ∈ scan fp kv ↔ ∃ side, ∃ p ∈ readIndex (Side.pre side) fp kv,
    idOf p.1 = some i := by
  rw [scan, List.mem_filterMap]
  constructor
  · rintro ⟨p, hp, hi⟩
    rcases List.mem_append.1 hp with hp | hp
    · exact ⟨.bob, p, hp, hi⟩
    · exact ⟨.alice, p, hp, hi⟩
  · rintro ⟨side, p, hp, hi⟩
    refine ⟨p, List.mem_append.2 ?_, hi⟩
    cases side
    · exact .inl hp
    · exact .inr hp

/-- **What is read** is found in the range. -/
theorem found_of_scan (hw : Written txs) {i : String} (hi : i ∈ scan fp (upsertAll txs)) :
    ⟨i⟩ ∈ swaps (Found fp) txs := by
  obtain ⟨side, p, hp, hid⟩ := mem_scan.1 hi
  rw [readIndex_eq] at hp
  obtain ⟨tx, htx, rfl, hc⟩ := (mem_inRange hw).1 (List.mem_reverse.1 (List.mem_of_mem_take hp))
  rw [idOf_key (hw.plain tx htx), Option.some.injEq] at hid
  exact mem_swaps.2 ⟨tx, htx, hc.found, by rw [← hid]⟩

/-- **All of the range is read** when it holds a thousand swaps or fewer. -/
theorem scan_of_found (hw : Written txs) (hfew : (swaps (Found fp) txs).length ≤ 1000) {i : String}
    (hi : ⟨i⟩ ∈ swaps (Found fp) txs) :
    i ∈ scan fp (upsertAll txs) := by
  obtain ⟨tx, htx, hfound, hid⟩ := mem_swaps.1 hi
  obtain ⟨side, hc⟩ : ∃ side, Caught fp tx side := hfound.elim (fun h => ⟨.bob, h⟩) fun h => ⟨.alice, h⟩
  refine mem_scan.2 ⟨side, (Side.key tx side, .empty), ?_, ?_⟩
  · rw [readIndex_eq, List.take_of_length_le (by rw [List.length_reverse]; exact (length_inRange hw).trans hfew),
      List.mem_reverse]
    exact (mem_inRange hw).2 ⟨tx, htx, rfl, hc⟩
  · rw [idOf_key (hw.plain tx htx), hid]

/-! ## What is listed -/

theorem summaries_eq (ids : List String) : ∀ seen, summaries fp (upsertAll txs) seen ids =
    .ok ((SortedMap.firsts (fun i => i) seen ids).filterMap fun i => (current txs ⟨i⟩).map fun tx =>
      tx.summary (roleOf fp tx)) := by
  induction ids with
  | nil => intro seen; rfl
  | cons i ids ih =>
    intro seen
    by_cases hi : i ∈ seen
    · rw [summaries, if_pos hi, ih, SortedMap.firsts, if_pos hi]
    · rw [summaries, if_neg hi, get_upsertAll, ih, SortedMap.firsts, if_neg hi]
      cases hcur : current txs ⟨i⟩ <;> simp [hcur, Bind.bind, Except.bind, Pure.pure, Except.pure]

/-- What was looked up, in the order of the ids. -/
def looked (txs : List Transaction) (fp : PgpFingerprint) : List TransactionSummary :=
  (SortedMap.firsts (fun i => i) [] (scan fp (upsertAll txs))).filterMap fun i =>
    (current txs ⟨i⟩).map fun tx => tx.summary (roleOf fp tx)

def newerFirst (a b : TransactionSummary) : Bool := b.createdAtUnix ≤ a.createdAtUnix

theorem listByParty_eq (txs : List Transaction) (fp : PgpFingerprint) :
    listByParty fp (upsertAll txs) = .ok (((looked txs fp).mergeSort newerFirst).take 1000) := by
  rw [listByParty, summaries_eq]
  rfl

theorem mem_looked {s : TransactionSummary} : s ∈ looked txs fp ↔
    ∃ i ∈ scan fp (upsertAll txs), ∃ tx, current txs ⟨i⟩ = some tx ∧ s = tx.summary (roleOf fp tx) := by
  rw [looked, List.mem_filterMap]
  refine exists_congr fun i => and_congr ?_ ?_
  · rw [SortedMap.mem_firsts_self]
    exact and_iff_left List.not_mem_nil
  · rw [Option.map_eq_some_iff]
    exact exists_congr fun tx => and_congr_right fun _ => eq_comm

theorem looked_once (txs : List Transaction) (fp : PgpFingerprint) :
    ((looked txs fp).map TransactionSummary.swapId).Nodup := by
  obtain ⟨-, hnodup⟩ := SortedMap.firsts_fresh (fun i => i) (scan fp (upsertAll txs)) []
  rw [List.map_id''] at hnodup
  · refine List.pairwise_map.2 (List.Pairwise.filterMap _ (fun i i' hne s hs s' hs' => ?_) hnodup)
    obtain ⟨tx, hcur, rfl⟩ := Option.map_eq_some_iff.1 hs
    obtain ⟨tx', hcur', rfl⟩ := Option.map_eq_some_iff.1 hs'
    intro hid
    have h : SwapId.mk i = SwapId.mk i' := (current_mem hcur).2.symm.trans (hid.trans (current_mem hcur').2)
    exact hne (congrArg SwapId.id h)
  · exact fun _ => rfl

/-- Nothing is cut off from a thousand swaps or fewer. -/
theorem mem_listed (hw : Written txs) (hfew : (swaps (Found fp) txs).length ≤ 1000) {s : TransactionSummary} :
    s ∈ ((looked txs fp).mergeSort newerFirst).take 1000 ↔ s ∈ looked txs fp := by
  have hlen : (looked txs fp).length ≤ 1000 := by
    refine le_trans (le_of_eq_of_le (List.length_map _).symm
      (length_le_swaps (looked_once txs fp) fun id hid => ?_)) hfew
    obtain ⟨s, hs, rfl⟩ := List.mem_map.1 hid
    obtain ⟨i, hi, tx, hcur, rfl⟩ := mem_looked.1 hs
    have hmem := found_of_scan hw hi
    rw [← (current_mem hcur).2] at hmem
    exact hmem
  rw [List.take_of_length_le (by rw [List.length_mergeSort]; exact hlen), List.mem_mergeSort]

/-- A swap keeps its parties. -/
theorem Written.isParty (hw : Written txs) (htx : tx ∈ txs) (htx' : tx' ∈ txs) (hid : tx.swapId = tx'.swapId)
    (h : IsParty fp tx) :
    IsParty fp tx' := by
  obtain ⟨hbob, halice, -⟩ := hw.same tx htx tx' htx' hid
  rw [IsParty, ← hbob, ← halice]
  exact h

theorem roleOf_of (h : IsParty fp tx) : PartyRole.Of fp tx (roleOf fp tx) := by
  unfold roleOf
  split
  · assumption
  · rename_i hboth
    split
    · rename_i hbob
      exact ⟨hbob, fun halice => hboth ⟨hbob, halice⟩⟩
    · rename_i hbob
      exact ⟨h.resolve_left hbob, hbob⟩

theorem PartyRole.Of.isParty {role : PartyRole} (h : PartyRole.Of fp tx role) : IsParty fp tx := by
  cases role
  · exact .inl h.1
  · exact .inr h.1
  · exact .inl h.1

/-- Where the range holds no swaps of others, it holds the swaps of the party. -/
theorem Separate.found_iff (h : Separate txs fp) (htx : tx ∈ txs) : Found fp tx ↔ IsParty fp tx := by
  constructor
  · rintro ((hfp | hover) | (hfp | hover))
    · exact .inl hfp
    · exact h tx htx (.inl hover)
    · exact .inr hfp
    · exact h tx htx (.inr hover)
  · exact fun h => h.imp .inl .inl

theorem Separate.swaps_eq (h : Separate txs fp) : swaps (Found fp) txs = swaps (IsParty fp) txs := by
  rw [swaps, swaps, List.filter_congr fun tx htx => decide_eq_decide.2 (h.found_iff htx)]

theorem Separate.listsOwn (hw : Written txs) (h : Separate txs fp) : ListsOwn txs fp := by
  have hsub : (((looked txs fp).mergeSort newerFirst).take 1000).Sublist ((looked txs fp).mergeSort newerFirst) :=
    List.take_sublist _ _
  refine ⟨_, listByParty_eq txs fp, ⟨fun s hs => ?_, ?_, ?_, fun hfew id tx hcur hparty => ?_⟩⟩
  · obtain ⟨i, hi, tx, hcur, rfl⟩ := mem_looked.1 (List.mem_mergeSort.1 (hsub.subset hs))
    obtain ⟨tx', htx', hfound, hid⟩ := mem_swaps.1 (found_of_scan hw hi)
    obtain ⟨htx, hid'⟩ := current_mem hcur
    have hparty := hw.isParty htx' htx (hid.trans hid'.symm) ((h.found_iff htx').1 hfound)
    exact ⟨tx, by rw [← hcur, ← hid']; rfl, rfl, roleOf_of hparty⟩
  · refine List.Nodup.sublist (hsub.map _) (((List.mergeSort_perm _ _).map _).nodup_iff.2 (looked_once txs fp))
  · refine List.Pairwise.sublist hsub ((List.pairwise_mergeSort ?_ ?_ _).imp of_decide_eq_true)
    · intro a b c hab hbc
      exact decide_eq_true (le_trans (of_decide_eq_true hbc) (of_decide_eq_true hab))
    · intro a b
      exact Bool.or_eq_true_iff.2 ((le_total b.createdAtUnix a.createdAtUnix).imp decide_eq_true decide_eq_true)
  · rw [← h.swaps_eq] at hfew
    obtain ⟨htx, rfl⟩ := current_mem hcur
    have hscan := scan_of_found hw hfew (mem_swaps.2 ⟨tx, htx, (h.found_iff htx).2 hparty, rfl⟩)
    exact ⟨_, (mem_listed hw hfew).2 (mem_looked.2 ⟨_, hscan, tx, hcur, rfl⟩), rfl⟩

/-- A swap of others in the range is listed, unless it is cut off. -/
theorem ListsOwn.separate (hw : Written txs) (hfew : (swaps (Found fp) txs).length ≤ 1000) (h : ListsOwn txs fp) :
    Separate txs fp := by
  obtain ⟨l, hl, hright⟩ := h
  rw [listByParty_eq, Except.ok.injEq] at hl
  subst hl
  intro tx htx hover
  have hfound : Found fp tx := hover.imp .inr .inr
  obtain ⟨tx', hcur⟩ := exists_current htx
  have hscan := scan_of_found hw hfew (mem_swaps.2 ⟨tx, htx, hfound, rfl⟩)
  obtain ⟨tx'', hcur'', -, hrole⟩ :=
    hright.own _ ((mem_listed hw hfew).2 (mem_looked.2 ⟨_, hscan, tx', hcur, rfl⟩))
  obtain ⟨htx'', hid⟩ := current_mem hcur''
  exact hw.isParty htx'' htx (hid.trans (current_mem hcur).2) hrole.isParty

theorem Written.sublist {l : List Transaction} (h : l.Sublist txs) (hw : Written txs) : Written l where
  plain tx htx := hw.plain tx (h.subset htx)
  same tx htx tx' htx' := hw.same tx (h.subset htx) tx' (h.subset htx')

/-- **The history of a party is right for exactly the swaps no key of others is in its range**: it is
wrong for some of them otherwise, and for all of them when there are a thousand or fewer. -/
theorem list_by_party_iff (txs : List Transaction) (fp : PgpFingerprint) (hw : Written txs) :
    ((∀ some, some.Sublist txs → ListsOwn some fp) ↔ Separate txs fp) ∧
    ((swaps (fun _ => True) txs).length ≤ 1000 → (ListsOwn txs fp ↔ Separate txs fp)) := by
  refine ⟨⟨fun h tx htx => ?_, fun h l hl => ?_⟩,
    fun hfew => ⟨fun h => h.separate hw ?_, fun h => h.listsOwn hw⟩⟩
  · have hone : [tx].Sublist txs := List.singleton_sublist.2 htx
    exact (h _ hone).separate (hw.sublist hone) (length_swaps_singleton.trans (by decide)) tx (List.mem_singleton.2 rfl)
  · exact Separate.listsOwn (hw.sublist hl) fun tx htx => h tx (hl.subset htx)
  · refine (length_le_swaps (List.nodup_dedup _) fun id hid => ?_).trans hfew
    obtain ⟨tx, htx, -, rfl⟩ := mem_swaps.1 hid
    exact mem_swaps.2 ⟨tx, htx, trivial, rfl⟩

/-! ## The history of another party -/

namespace Sample

/-- A swap between `a/b` and `c`. -/
def swap : Transaction where
  swapId := ⟨"5f3a"⟩
  status := .pending
  phase := .insertPushed
  terminal := false
  bobPgpFp := ⟨"a/b"⟩
  alicePgpFp := ⟨"c"⟩
  webcashPublicHash := ⟨"9c1f"⟩
  vtxoOutpointHash := ⟨"27d0"⟩
  txSettleHash := "e5a1"
  txRefundHash := "b0b4"
  createdAtUnix := 1714003200
  updatedAtUnix := 1714003205
  insertPushAttempts := 1
  cancelReason := none
  canceledByPgpFp := none
  htlcRefundContractId := none
  stateBlob := {
    phase := .insertPushed
    inner := {
      id := ⟨"5f3a"⟩
      parties := ⟨⟨"a/b"⟩, "", ⟨"c"⟩, "", ⟨"02c6"⟩, "", ""⟩
      bob := ⟨⟨"9c1f"⟩, ⟨[]⟩, ⟨[], []⟩⟩
      alice := ⟨⟨"27d0"⟩, "e5a1", "b0b4", ⟨[]⟩, ⟨[], []⟩⟩
      aliceNonces := ⟨"0211", "0322"⟩
      refereeSessions := ⟨"0233", "0344", ⟨"5f3a"⟩⟩
      phaseEnteredAt := 1714003200
      insertPushAttempts := 1
      auditTipHex := "6e34" } }

/-- The swap as it is written last. -/
def settledSwap : Transaction :=
  { swap with
    status := .settled
    phase := .settled
    terminal := true
    updatedAtUnix := 1714003290
    stateBlob := { swap.stateBlob with phase := .settled } }

/-- A swap of other parties, or created at another time. -/
def swapOf (id bob alice : String) (createdAtUnix : Nat) : Transaction :=
  { swap with
    swapId := ⟨id⟩
    bobPgpFp := ⟨bob⟩
    alicePgpFp := ⟨alice⟩
    createdAtUnix := createdAtUnix
    updatedAtUnix := createdAtUnix + 5
    stateBlob := { swap.stateBlob with
      inner := { swap.stateBlob.inner with
        id := ⟨id⟩
        parties := ⟨⟨bob⟩, "", ⟨alice⟩, "", ⟨"02c6"⟩, "", ""⟩
        phaseEnteredAt := createdAtUnix } } }

/-- Five swaps, one of them written twice: `c` is Alice in the first, Bob in the next, which began in the same
second, both in the last, and has no part in the other two. -/
def rows : List Transaction :=
  [swap, swapOf "61b0" "c" "d" 1714003200, swapOf "77aa" "d" "a/b" 1714003260, settledSwap,
    swapOf "7b1e" "d" "e" 1714003200,
    swapOf "80c2" "c" "c" 1714003300]

theorem written : Written [swap] where
  plain tx htx := by
    rw [List.mem_singleton.1 htx]
    decide
  same tx htx tx' htx' _ := by
    rw [List.mem_singleton.1 htx, List.mem_singleton.1 htx']
    exact ⟨rfl, rfl, rfl⟩

theorem rows_written : Written rows where
  plain := by decide
  same := by decide

end Sample

/-- **The swap of `a/b` and `c` is listed for `a`.** -/
theorem lists_swap_of_others : Written [Sample.swap] ∧ ¬ ListsOwn [Sample.swap] ⟨"a"⟩ := by
  refine ⟨Sample.written, fun h => ?_⟩
  have hparty := h.separate Sample.written (length_swaps_singleton.trans (by decide)) Sample.swap List.mem_cons_self
    (.inl (by decide))
  exact absurd hparty (by decide)

/-- The history of `c`. -/
theorem list_by_party_iff_rows : Written Sample.rows ∧ ListsOwn Sample.rows ⟨"c"⟩ := by
  have hfew : (swaps (fun _ => True) Sample.rows).length ≤ 1000 := by decide
  have hseparate : Separate Sample.rows ⟨"c"⟩ := by
    unfold Separate
    decide
  exact ⟨Sample.rows_written, ((list_by_party_iff Sample.rows ⟨"c"⟩ Sample.rows_written).2 hfew).2 hseparate⟩

end FdbStore

end Webycash.Referee
