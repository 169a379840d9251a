import Mathlib.Data.Prod.Lex
import Mathlib.Data.String.Basic
import Webycash.Lib.FMap
import Webycash.Lib.Newest
import Webycash.Referee.FdbStore
/-!
# The in-memory swap store (`referee/src/store/mod.rs:86`)

The first row of a swap enters it into an index of each party, a map ordered by the negated time of creation;
later rows replace the row alone. `list_by_party` reads the first 1000 keys of both indexes of the
fingerprint, drops a swap of the party with itself on Alice's side, sorts what is left, newest first, and cuts
it at 1000. As long as a swap keeps its parties and its time of creation, that is the history of the party:
no cut loses a swap newer than one that is listed (`history_listing_exact`).

| here | there |
| --- | --- |
| `InMemState`         | store/mod.rs:93 |
| `upsert`             | store/mod.rs:104 |
| `listByParty`        | store/mod.rs:121 |
-/

namespace Webycash.Referee.InMemoryStore

open FdbStore (Side IsParty roleOf current swaps)

/-- `(-(created_at_unix as i128), swap_id)`, in the order of the pairs. -/
abbrev IndexKey := Int ×ₗ String

/-- A `BTreeMap<(i128, String), ()>`. -/
abbrev Index := List (IndexKey × Unit)

structure InMemState where
  rows : FMap SwapId Transaction
  byBob : FMap PgpFingerprint Index
  byAlice : FMap PgpFingerprint Index

def indexKey (tx : Transaction) : IndexKey := toLex (-(tx.createdAtUnix : Int), tx.swapId.id)

/-- `entry(fp).or_default()`, then `insert`. -/
def enter (fp : PgpFingerprint) (tx : Transaction) (indexes : FMap PgpFingerprint Index) : FMap PgpFingerprint Index :=
  indexes.insert fp (SortedMap.put (indexKey tx) () ((indexes.lookup fp).getD []))

def upsert (tx : Transaction) (w : InMemState) : InMemState :=
  let rows := w.rows.insert tx.swapId tx
  match w.rows.lookup tx.swapId with
  | some _ => { w with rows := rows }
  | none => ⟨rows, enter tx.bobPgpFp tx w.byBob, enter tx.alicePgpFp tx w.byAlice⟩

/-- The row of a key of an index. -/
def rowOf (r : InMemState) (k : IndexKey × Unit) : Option Transaction := r.rows.lookup ⟨(ofLex k.1).2⟩

def bobHits (fp : PgpFingerprint) (r : InMemState) : List TransactionSummary :=
  (((r.byBob.lookup fp).getD []).take 1000).filterMap fun k =>
    (rowOf r k).map fun tx => tx.summary (if tx.alicePgpFp = fp then .both else .bob)

/-- Those of the party with itself are in Bob's hits. -/
def aliceHits (fp : PgpFingerprint) (r : InMemState) : List TransactionSummary :=
  (((r.byAlice.lookup fp).getD []).take 1000).filterMap fun k =>
    (rowOf r k).bind fun tx => if tx.bobPgpFp = fp then none else some (tx.summary .alice)

def listByParty (fp : PgpFingerprint) (r : InMemState) : List TransactionSummary :=
  ((bobHits fp r ++ aliceHits fp r).mergeSort fun a b => decide (b.createdAtUnix ≤ a.createdAtUnix)).take 1000

/-- The store after these upserts. -/
def upsertAll (txs : List Transaction) : InMemState := txs.foldl (fun w tx => upsert tx w) ⟨∅, ∅, ∅⟩

/-! ## What a listing is for -/

/-- Creation time and parties of a swap never change after its first row. -/
def Stable (txs : List Transaction) : Prop := ∀ tx ∈ txs, ∀ tx' ∈ txs, tx.swapId = tx'.swapId →
  tx.bobPgpFp = tx'.bobPgpFp ∧ tx.alicePgpFp = tx'.alicePgpFp ∧ tx.createdAtUnix = tx'.createdAtUnix

/-- The swaps of a party, as last written, the newest first, up to a thousand. -/
structure Exact (txs : List Transaction) (fp : PgpFingerprint) (l : List TransactionSummary) : Prop where
  length : l.length = min 1000 (swaps (IsParty fp) txs).length
  once : (l.map TransactionSummary.swapId).Nodup
  role : ∀ s ∈ l, ∃ tx, current txs s.swapId = some tx ∧ s = tx.summary s.role ∧
    FdbStore.PartyRole.Of fp tx s.role
  newestFirst : l.Pairwise fun a b => b.createdAtUnix ≤ a.createdAtUnix
  newest : ∀ tx ∈ txs, IsParty fp tx → ∀ s ∈ l, s.createdAtUnix < tx.createdAtUnix →
    ∃ s' ∈ l, s'.swapId = tx.swapId

variable {txs : List Transaction} {tx tx' : Transaction} {fp : PgpFingerprint} {id : SwapId} {side : Side}
  {w : InMemState} {k : IndexKey × Unit} {s : TransactionSummary}

theorem Stable.earlier (h : Stable (txs ++ [tx])) : Stable txs :=
  fun t ht t' ht' => h t (List.mem_append_left _ ht) t' (List.mem_append_left _ ht')

/-- The last row has the identity of every other one. -/
theorem Stable.current (hs : Stable txs) (htx : tx ∈ txs) (hcur : FdbStore.current txs tx.swapId = some tx') :
    tx'.bobPgpFp = tx.bobPgpFp ∧ tx'.alicePgpFp = tx.alicePgpFp ∧ tx'.createdAtUnix = tx.createdAtUnix := by
  obtain ⟨htx', hid⟩ := FdbStore.current_mem hcur
  exact hs tx' htx' tx htx hid

/-! ## What is in the store -/

theorem upsertAll_concat : upsertAll (txs ++ [tx]) = upsert tx (upsertAll txs) := by
  rw [upsertAll, List.foldl_append]
  rfl

/-- The index of a side. -/
def indexOf (side : Side) (fp : PgpFingerprint) (r : InMemState) : Index :=
  ((match side with | .bob => r.byBob | .alice => r.byAlice).lookup fp |>.getD [])

theorem rows_upsert : (upsert tx w).rows = w.rows.insert tx.swapId tx := by
  unfold upsert
  dsimp only
  split <;> rfl

theorem lookup_rows (txs : List Transaction) (id : SwapId) : (upsertAll txs).rows.lookup id = current txs id := by
  induction txs using List.reverseRecOn with
  | nil => rfl
  | append_singleton txs tx ih =>
    rw [upsertAll_concat, rows_upsert, FMap.lookup_insert_ite, ih, FdbStore.current_concat]
    simp only [eq_comm]

theorem lookup_enter (indexes : FMap PgpFingerprint Index) (f : PgpFingerprint) :
    ((enter f tx indexes).lookup fp).getD [] =
      if f = fp then SortedMap.put (indexKey tx) () ((indexes.lookup fp).getD []) else (indexes.lookup fp).getD [] := by
  rw [enter, FMap.lookup_insert_ite]
  by_cases h : f = fp
  · rw [if_pos h.symm, if_pos h, h]
    rfl
  · rw [if_neg (Ne.symm h), if_neg h]

/-- A swap is entered with its first row. -/
theorem indexOf_upsert : indexOf side fp (upsert tx w) =
    if w.rows.lookup tx.swapId = none ∧ side.fp tx = fp then SortedMap.put (indexKey tx) () (indexOf side fp w)
    else indexOf side fp w := by
  unfold upsert
  dsimp only
  cases hrow : w.rows.lookup tx.swapId with
  | some row =>
    rw [if_neg fun h => by cases h.1]
    cases side <;> rfl
  | none =>
    simp only [true_and]
    cases side
    · exact lookup_enter w.byBob tx.bobPgpFp
    · exact lookup_enter w.byAlice tx.alicePgpFp

theorem indexOf_sorted (txs : List Transaction) : SortedMap.Sorted (indexOf side fp (upsertAll txs)) := by
  induction txs using List.reverseRecOn with
  | nil => cases side <;> exact .nil
  | append_singleton txs tx ih =>
    rw [upsertAll_concat, indexOf_upsert]
    split
    · exact ih.put _ _
    · exact ih

/-- **An index** holds the swaps of its party. -/
theorem mem_indexOf (hs : Stable txs) : k ∈ indexOf side fp (upsertAll txs) ↔
    ∃ tx ∈ txs, side.fp tx = fp ∧ k = (indexKey tx, ()) := by
  induction txs using List.reverseRecOn with
  | nil => cases side <;> simp [indexOf, upsertAll]
  | append_singleton txs tx ih =>
    have ih := ih hs.earlier
    have hside : ∀ t ∈ txs, t.swapId = tx.swapId → side.fp t = side.fp tx ∧ indexKey t = indexKey tx := by
      intro t ht hid
      obtain ⟨hbob, halice, hcreated⟩ := hs t (List.mem_append_left _ ht) tx (by simp) hid
      refine ⟨by cases side <;> assumption, ?_⟩
      rw [indexKey, indexKey, hcreated, hid]
    rw [upsertAll_concat, indexOf_upsert, lookup_rows]
    split
    · rename_i hnew
      rw [SortedMap.mem_put, ih]
      constructor
      · rintro (rfl | ⟨⟨t, ht, hfp, rfl⟩, -⟩)
        · exact ⟨tx, by simp, hnew.2, rfl⟩
        · exact ⟨t, List.mem_append_left _ ht, hfp, rfl⟩
      · rintro ⟨t, ht, hfp, rfl⟩
        by_cases hkey : indexKey t = indexKey tx
        · exact .inl (by rw [hkey])
        · refine .inr ⟨⟨t, ?_, hfp, rfl⟩, hkey⟩
          rcases List.mem_append.1 ht with ht | ht
          · exact ht
          · exact absurd (by rw [List.mem_singleton.1 ht]) hkey
    · rename_i hold
      rw [ih]
      constructor
      · rintro ⟨t, ht, h⟩
        exact ⟨t, List.mem_append_left _ ht, h⟩
      · rintro ⟨t, ht, hfp, rfl⟩
        rcases List.mem_append.1 ht with ht | ht
        · exact ⟨t, ht, hfp, rfl⟩
        · -- a later row of a swap that is in the index already
          obtain rfl := List.mem_singleton.1 ht
          obtain ⟨row, hcur⟩ := Option.ne_none_iff_exists'.1 fun hnone => hold ⟨hnone, hfp⟩
          obtain ⟨hrow, hid⟩ := FdbStore.current_mem hcur
          obtain ⟨hrowfp, hkey⟩ := hside row hrow hid
          exact ⟨row, hrow, hrowfp.trans hfp, by rw [hkey]⟩

/-! ## The summaries of an index -/

/-- What is listed of a swap. -/
def summaryOf (fp : PgpFingerprint) (tx : Transaction) : TransactionSummary := tx.summary (roleOf fp tx)

/-- The summaries of a whole index. -/
def summaries (side : Side) (fp : PgpFingerprint) (r : InMemState) : List TransactionSummary :=
  (indexOf side fp r).filterMap fun k => (rowOf r k).map (summaryOf fp)

/-- The row of a key is the last one of a swap of the party. -/
theorem row_of_key (hs : Stable txs) (hk : k ∈ indexOf side fp (upsertAll txs)) :
    ∃ tx, rowOf (upsertAll txs) k = some tx ∧ current txs tx.swapId = some tx ∧ side.fp tx = fp ∧
      k = (indexKey tx, ()) := by
  obtain ⟨t, ht, hfp, rfl⟩ := (mem_indexOf hs).1 hk
  obtain ⟨tx, hcur⟩ := FdbStore.exists_current ht
  obtain ⟨hbob, halice, hcreated⟩ := hs.current ht hcur
  have hid := (FdbStore.current_mem hcur).2
  refine ⟨tx, ?_, by rw [hid]; exact hcur, ?_, ?_⟩
  · rw [rowOf, lookup_rows]
    exact hcur
  · cases side
    · exact hbob.trans hfp
    · exact halice.trans hfp
  · rw [indexKey, indexKey, hcreated, hid]

theorem mem_summaries (hs : Stable txs) : s ∈ summaries side fp (upsertAll txs) ↔
    ∃ tx, current txs tx.swapId = some tx ∧ side.fp tx = fp ∧ s = summaryOf fp tx := by
  rw [summaries, List.mem_filterMap]
  constructor
  · rintro ⟨k, hk, hrow⟩
    obtain ⟨tx, htx, hcur, hfp, -⟩ := row_of_key hs hk
    rw [htx] at hrow
    exact ⟨tx, hcur, hfp, (Option.some.inj hrow).symm⟩
  · rintro ⟨tx, hcur, hfp, rfl⟩
    refine ⟨(indexKey tx, ()), (mem_indexOf hs).2 ⟨tx, (FdbStore.current_mem hcur).1, hfp, rfl⟩, ?_⟩
    rw [rowOf, lookup_rows]
    show (current txs tx.swapId).map _ = _
    rw [hcur]
    rfl

/-- The order of the keys is that of the summaries, and two keys are two swaps. -/
theorem summaries_ordered (hs : Stable txs) : (summaries side fp (upsertAll txs)).Pairwise fun a b =>
    b.createdAtUnix ≤ a.createdAtUnix ∧ a.swapId ≠ b.swapId := by
  rw [summaries, List.pairwise_filterMap]
  refine (indexOf_sorted txs).imp_of_mem fun {k k'} hk hk' hlt s hrow s' hrow' => ?_
  obtain ⟨tx, htx, hcur, -, rfl⟩ := row_of_key hs hk
  obtain ⟨tx', htx', hcur', -, rfl⟩ := row_of_key hs hk'
  rw [htx] at hrow
  rw [htx'] at hrow'
  cases hrow
  cases hrow'
  show tx'.createdAtUnix ≤ tx.createdAtUnix ∧ tx.swapId ≠ tx'.swapId
  rcases Prod.Lex.toLex_lt_toLex.1 hlt with htime | ⟨htime, hid⟩
  · refine ⟨by omega, fun heq => ?_⟩
    rw [heq, hcur', Option.some.injEq] at hcur
    rw [hcur] at htime
    exact lt_irrefl _ htime
  · exact ⟨by omega, fun heq => absurd hid (by rw [heq]; exact lt_irrefl _)⟩

theorem descending_summaries (hs : Stable txs) :
    Newest.Descending TransactionSummary.createdAtUnix (summaries side fp (upsertAll txs)) :=
  (summaries_ordered hs).imp fun h => h.1

theorem summaries_nodup (hs : Stable txs) : (summaries side fp (upsertAll txs)).Nodup :=
  (summaries_ordered hs).imp fun h heq => h.2 (congrArg TransactionSummary.swapId heq)

/-! ## The listing is a merge of the two -/

/-- Every key has a row, so cutting the keys is cutting the summaries. -/
theorem filterMap_take {α β : Type} {f : α → Option β} : ∀ {l : List α}, (∀ a ∈ l, (f a).isSome) → ∀ n,
    (l.take n).filterMap f = (l.filterMap f).take n
  | [], _, n => by simp
  | a :: l, h, 0 => by simp
  | a :: l, h, n + 1 => by
    obtain ⟨b, hb⟩ := Option.isSome_iff_exists.1 (h a List.mem_cons_self)
    rw [List.take_succ_cons, List.filterMap_cons_some hb, List.filterMap_cons_some hb, List.take_succ_cons,
      filterMap_take (fun x hx => h x (List.mem_cons_of_mem _ hx)) n]

def isBoth (s : TransactionSummary) : Bool := s.role = .both

theorem isBoth_iff (fp : PgpFingerprint) (tx : Transaction) : isBoth (summaryOf fp tx) = true ↔
    tx.bobPgpFp = fp ∧ tx.alicePgpFp = fp := by
  rw [isBoth, decide_eq_true_eq]
  show roleOf fp tx = .both ↔ _
  unfold roleOf
  split
  · rename_i h
    exact ⟨fun _ => h, fun _ => rfl⟩
  · rename_i h
    refine ⟨fun heq => ?_, fun hboth => absurd hboth h⟩
    split at heq <;> cases heq

theorem take_summaries (hs : Stable txs) (n : Nat) : (summaries side fp (upsertAll txs)).take n =
    ((indexOf side fp (upsertAll txs)).take n).filterMap fun k => (rowOf (upsertAll txs) k).map (summaryOf fp) := by
  refine (filterMap_take (fun k hk => ?_) n).symm
  obtain ⟨tx, htx, -⟩ := row_of_key hs hk
  rw [htx]
  rfl

theorem bobHits_eq (hs : Stable txs) : bobHits fp (upsertAll txs) = (summaries .bob fp (upsertAll txs)).take 1000 := by
  rw [take_summaries hs]
  refine List.filterMap_congr fun k hk => ?_
  have hk : k ∈ indexOf .bob fp (upsertAll txs) := List.mem_of_mem_take hk
  obtain ⟨tx, htx, -, hfp, -⟩ := row_of_key hs hk
  have hbob : tx.bobPgpFp = fp := hfp
  rw [htx, Option.map_some, Option.map_some, summaryOf, roleOf]
  by_cases halice : tx.alicePgpFp = fp
  · rw [if_pos halice, if_pos ⟨hbob, halice⟩]
  · rw [if_neg halice, if_neg fun h => halice h.2, if_pos hbob]

theorem aliceHits_eq (hs : Stable txs) :
    aliceHits fp (upsertAll txs) = ((summaries .alice fp (upsertAll txs)).take 1000).filter fun s => !isBoth s := by
  rw [take_summaries hs, ← List.filterMap_eq_filter, List.filterMap_filterMap]
  refine List.filterMap_congr fun k hk => ?_
  have hk : k ∈ indexOf .alice fp (upsertAll txs) := List.mem_of_mem_take hk
  obtain ⟨tx, htx, -, hfp, -⟩ := row_of_key hs hk
  have halice : tx.alicePgpFp = fp := hfp
  rw [htx, Option.map_some, Option.bind_some, Option.bind_some]
  by_cases hbob : tx.bobPgpFp = fp
  · have hboth := (isBoth_iff fp tx).2 ⟨hbob, halice⟩
    simp [Option.guard, hboth, hbob]
  · have hown : isBoth (summaryOf fp tx) = false := by
      rw [← Bool.not_eq_true, isBoth_iff]
      exact fun h => hbob h.1
    have hrole : roleOf fp tx = .alice := by rw [roleOf, if_neg fun h => hbob h.1, if_neg hbob]
    rw [if_neg hbob, Option.guard, hown, Bool.not_false, if_pos rfl, summaryOf, hrole]

/-- **The listing.** -/
theorem listByParty_eq (hs : Stable txs) : listByParty fp (upsertAll txs) =
    Newest.newest TransactionSummary.createdAtUnix 1000
      (Newest.merge 1000 isBoth (summaries .bob fp (upsertAll txs)) (summaries .alice fp (upsertAll txs))) := by
  rw [listByParty, bobHits_eq hs, aliceHits_eq hs]
  rfl

/-! ## The history of a party -/

/-- All swaps of the party, as they would be listed. -/
def history (fp : PgpFingerprint) (r : InMemState) : List TransactionSummary :=
  summaries .bob fp r ++ (summaries .alice fp r).filter fun s => !isBoth s

theorem mem_history (hs : Stable txs) : s ∈ history fp (upsertAll txs) ↔
    ∃ tx, current txs tx.swapId = some tx ∧ IsParty fp tx ∧ s = summaryOf fp tx := by
  rw [history, List.mem_append, List.mem_filter, mem_summaries hs, mem_summaries hs]
  constructor
  · rintro (⟨tx, hcur, hbob, rfl⟩ | ⟨⟨tx, hcur, halice, rfl⟩, -⟩)
    · exact ⟨tx, hcur, .inl hbob, rfl⟩
    · exact ⟨tx, hcur, .inr halice, rfl⟩
  · rintro ⟨tx, hcur, hparty, rfl⟩
    by_cases hbob : tx.bobPgpFp = fp
    · exact .inl ⟨tx, hcur, hbob, rfl⟩
    · refine .inr ⟨⟨tx, hcur, hparty.resolve_left hbob, rfl⟩, ?_⟩
      rw [Bool.not_eq_true', ← Bool.not_eq_true, isBoth_iff]
      exact fun h => hbob h.1

/-- The swap determines its summary. -/
theorem summaryOf_inj (hs : Stable txs) {t : TransactionSummary} (h : s ∈ history fp (upsertAll txs))
    (ht : t ∈ history fp (upsertAll txs)) (hid : s.swapId = t.swapId) : s = t := by
  obtain ⟨tx, hcur, -, rfl⟩ := (mem_history hs).1 h
  obtain ⟨tx', hcur', -, rfl⟩ := (mem_history hs).1 ht
  have hid : tx.swapId = tx'.swapId := hid
  rw [hid, hcur', Option.some.injEq] at hcur
  rw [hcur]

theorem history_nodup (hs : Stable txs) : (history fp (upsertAll txs)).Nodup := by
  refine List.nodup_append.2 ⟨summaries_nodup hs, (summaries_nodup hs).filter _, fun s hbob t halice heq => ?_⟩
  subst heq
  obtain ⟨halice, hown⟩ := List.mem_filter.1 halice
  obtain ⟨tx, hcur, hfp, rfl⟩ := (mem_summaries hs).1 hbob
  obtain ⟨tx', hcur', hfp', heq⟩ := (mem_summaries hs).1 halice
  have hid : tx.swapId = tx'.swapId := congrArg TransactionSummary.swapId heq
  rw [hid, hcur', Option.some.injEq] at hcur
  subst hcur
  rw [(isBoth_iff fp tx').2 ⟨hfp, hfp'⟩] at hown
  cases hown

theorem length_history (hs : Stable txs) : (history fp (upsertAll txs)).length = (swaps (IsParty fp) txs).length := by
  have hids : ((history fp (upsertAll txs)).map TransactionSummary.swapId).Nodup :=
    (history_nodup hs).map_on fun s h t ht hid => summaryOf_inj hs h ht hid
  rw [← List.length_map TransactionSummary.swapId]
  refine (List.Perm.length_eq ((List.perm_ext_iff_of_nodup hids (List.nodup_dedup _)).2 fun id => ?_))
  rw [← swaps, FdbStore.mem_swaps, List.mem_map]
  constructor
  · rintro ⟨s, h, rfl⟩
    obtain ⟨tx, hcur, hparty, rfl⟩ := (mem_history hs).1 h
    exact ⟨tx, (FdbStore.current_mem hcur).1, hparty, rfl⟩
  · rintro ⟨tx, htx, hparty, rfl⟩
    obtain ⟨tx', hcur⟩ := FdbStore.exists_current htx
    obtain ⟨hbob, halice, -⟩ := hs.current htx hcur
    have hid := (FdbStore.current_mem hcur).2
    refine ⟨summaryOf fp tx', (mem_history hs).2 ⟨tx', by rw [hid]; exact hcur, ?_, rfl⟩, hid⟩
    rw [IsParty, hbob, halice]
    exact hparty

theorem merge_sublist (n : Nat) (shared : TransactionSummary → Bool) (B A : List TransactionSummary) :
    (Newest.merge n shared B A).Sublist (B ++ A.filter fun s => !shared s) :=
  (List.take_sublist _ _).append ((List.take_sublist _ _).filter _)

/-- **History listing is exact.** -/
theorem history_listing_exact (txs : List Transaction) (hs : Stable txs) (fp : PgpFingerprint) :
    Exact txs fp (listByParty fp (upsertAll txs)) := by
  have hsub := merge_sublist 1000 isBoth (summaries .bob fp (upsertAll txs)) (summaries .alice fp (upsertAll txs))
  have hrank : ∀ u ∈ history fp (upsertAll txs), u ∉ Newest.merge 1000 isBoth _ _ →
      1000 ≤ Newest.rank _ _ _ :=
    fun u hu hcut => Newest.le_rank_merge (descending_summaries hs) (descending_summaries hs) (summaries_nodup hs)
      (fun s h hboth => ?_) hu hcut
  · rw [listByParty_eq hs]
    have hmem : ∀ s ∈ Newest.newest TransactionSummary.createdAtUnix 1000 (Newest.merge 1000 isBoth
        (summaries .bob fp (upsertAll txs)) (summaries .alice fp (upsertAll txs))), s ∈ history fp (upsertAll txs) :=
      fun s h => hsub.subset (Newest.mem_of_mem_newest h)
    exact {
      length := by
        rw [Newest.length_newest (history_nodup hs) ((history_nodup hs).sublist hsub) hsub.subset hrank,
          length_history hs]
      once := (Newest.nodup_newest ((history_nodup hs).sublist hsub)).map_on fun s h t ht hid =>
        summaryOf_inj hs (hmem s h) (hmem t ht) hid
      role := fun s h => by
        obtain ⟨tx, hcur, hparty, rfl⟩ := (mem_history hs).1 (hmem s h)
        exact ⟨tx, hcur, rfl, FdbStore.roleOf_of hparty⟩
      newestFirst := Newest.descending_newest
      newest := fun tx htx hparty s h hlt => by
        obtain ⟨tx', hcur⟩ := FdbStore.exists_current htx
        obtain ⟨hbob, halice, hcreated⟩ := hs.current htx hcur
        have hid := (FdbStore.current_mem hcur).2
        have hu : summaryOf fp tx' ∈ history fp (upsertAll txs) := by
          refine (mem_history hs).2 ⟨tx', by rw [hid]; exact hcur, ?_, rfl⟩
          rw [IsParty, hbob, halice]
          exact hparty
        exact ⟨_, Newest.mem_newest_of_newer hrank h hu (lt_of_lt_of_eq hlt hcreated.symm), hid⟩ }
  · obtain ⟨tx, hcur, halice, rfl⟩ := (mem_summaries hs).1 h
    exact (mem_summaries hs).2 ⟨tx, hcur, ((isBoth_iff fp tx).1 hboth).1, rfl⟩

theorem stable_rows : Stable FdbStore.Sample.rows := FdbStore.Sample.rows_written.same

/-- The three swaps of `c`, two of them of one second. -/
theorem rows_listed : (listByParty ⟨"c"⟩ (upsertAll FdbStore.Sample.rows)).length = 3 ∧
    Exact FdbStore.Sample.rows ⟨"c"⟩ (listByParty ⟨"c"⟩ (upsertAll FdbStore.Sample.rows)) := by
  have hexact := history_listing_exact FdbStore.Sample.rows stable_rows ⟨"c"⟩
  have hthree : min 1000 (swaps (IsParty ⟨"c"⟩) FdbStore.Sample.rows).length = 3 := by decide
  exact ⟨hexact.length.trans hthree, hexact⟩

end Webycash.Referee.InMemoryStore
