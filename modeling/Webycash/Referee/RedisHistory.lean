import Webycash.Referee.Backends
/-!
# The history of a party on Redis (`referee/src/store/redis.rs:110`)

`list_by_party` reads the thousand members of highest score of both sorted sets of the fingerprint, looks up each
id once, sorts the rows, newest first, and cuts them at a thousand. A swap whose row is put again is scored again
with the same time, so a set has one member a swap (`mem_index`), and below 2^53 a score is the time itself. What
one set is cut at is older than a thousand swaps that are not cut off, so the listing is the history of the party
(`redis_history_exact`).
-/

namespace Webycash.Referee.RedisStore

open FdbStore (Side IsParty roleOf current swaps)
open InMemoryStore (Stable Exact summaryOf)

variable {json : SerdeJson} {txs : List Transaction} {tx : Transaction} {side : Side} {fp : PgpFingerprint}
  {db : Db} {m : String × Nat} {s : TransactionSummary}

/-- The keyspace after these upserts. -/
def upsertAll (json : SerdeJson) (txs : List Transaction) : Db := txs.foldl (fun db tx => (upsert json tx db).2) ∅

theorem upsertAll_concat : upsertAll json (txs ++ [tx]) = (upsert json tx (upsertAll json txs)).2 := by
  rw [upsertAll, List.foldl_append]
  rfl

/-- **The keyspace holds the last row of every swap.** -/
theorem mirrors_upsertAll (hjson : json.RoundTrips) (txs : List Transaction) :
    ∃ rows, Mirrors json (upsertAll json txs) rows [] ∧ ∀ id, rows.lookup id = current txs id := by
  induction txs using List.reverseRecOn with
  | nil => exact ⟨∅, .empty, fun _ => rfl⟩
  | append_singleton txs tx ih =>
    obtain ⟨rows, hrows, hcur⟩ := ih
    refine ⟨rows.insert tx.swapId tx, ?_, fun id => ?_⟩
    · rw [upsertAll_concat]
      exact (hrows.upsert hjson tx).2
    · rw [FMap.lookup_insert_ite, FdbStore.current_concat, hcur]
      simp only [eq_comm]

theorem get_upsertAll (hjson : json.RoundTrips) (txs : List Transaction) (id : SwapId) :
    get json id (upsertAll json txs) = .ok (current txs id) := by
  obtain ⟨rows, hrows, hcur⟩ := mirrors_upsertAll hjson txs
  rw [hrows.rows, hcur]

theorem indexed_upsertAll (hjson : json.RoundTrips) (txs : List Transaction) (side : Side) (fp : PgpFingerprint) :
    Indexed ((upsertAll json txs).lookup (indexKey side fp)) := by
  obtain ⟨rows, hrows, -⟩ := mirrors_upsertAll hjson txs
  exact hrows.index side fp

/-! ## The indexes -/

/-- The sorted set of a party. -/
def indexOf (json : SerdeJson) (txs : List Transaction) (side : Side) (fp : PgpFingerprint) : List (String × Nat) :=
  zsetOf (indexKey side fp) (upsertAll json txs)

/-- One row more: its swap is scored in the sets of its parties. -/
theorem indexOf_concat (hjson : json.RoundTrips) : indexOf json (txs ++ [tx]) side fp =
    if fp = side.fp tx then scored tx.swapId.id (toF64 tx.createdAtUnix) (indexOf json txs side fp)
        else indexOf json txs side fp := by
  obtain ⟨text, -, heq⟩ := upsert_eq hjson (indexed_upsertAll hjson txs) tx
  rw [indexOf, upsertAll_concat, heq, zsetOf, lookup_written_index]
  by_cases hfp : fp = side.fp tx
  · rw [if_pos hfp, if_pos hfp, hfp]
    rfl
  · rw [if_neg hfp, if_neg hfp]
    rfl

/-- **A sorted set has a member for every swap of the party**, with its time for a score. -/
theorem mem_index (hjson : json.RoundTrips) (hs : Stable txs) :
    m ∈ indexOf json txs side fp ↔ ∃ tx ∈ txs, side.fp tx = fp ∧
      m = (tx.swapId.id, toF64 tx.createdAtUnix) := by
  induction txs using List.reverseRecOn with
  | nil => simp [indexOf, zsetOf, upsertAll]
  | append_singleton txs tx ih =>
    have ih := ih hs.earlier
    rw [indexOf_concat hjson]
    by_cases hfp : fp = side.fp tx
    · rw [if_pos hfp, scored, List.mem_cons, List.mem_filter, ih, decide_eq_true_eq]
      constructor
      · rintro (rfl | ⟨⟨t, ht, htfp, rfl⟩, -⟩)
        · exact ⟨tx, by simp, hfp.symm, rfl⟩
        · exact ⟨t, List.mem_append_left _ ht, htfp, rfl⟩
      · rintro ⟨t, ht, htfp, rfl⟩
        by_cases hid : t.swapId = tx.swapId
        · obtain ⟨-, -, hcreated⟩ := hs t ht tx (by simp) hid
          exact .inl (by rw [hid, hcreated])
        · have ht : t ∈ txs := (List.mem_append.1 ht).resolve_right fun h => hid (by rw [List.mem_singleton.1 h])
          refine .inr ⟨⟨t, ht, htfp, rfl⟩, fun heq => hid ?_⟩
          cases hid' : t.swapId
          cases hid'' : tx.swapId
          rw [hid', hid''] at heq
          exact congrArg SwapId.mk heq
    · rw [if_neg hfp, ih]
      constructor
      · rintro ⟨t, ht, htfp, rfl⟩
        exact ⟨t, List.mem_append_left _ ht, htfp, rfl⟩
      · rintro ⟨t, ht, htfp, rfl⟩
        rcases List.mem_append.1 ht with ht | ht
        · exact ⟨t, ht, htfp, rfl⟩
        · rw [List.mem_singleton.1 ht] at htfp
          exact absurd htfp.symm hfp

/-- A member is there once. -/
theorem indexOf_nodup (hjson : json.RoundTrips) (txs : List Transaction) :
    ((indexOf json txs side fp).map Prod.fst).Nodup := by
  induction txs using List.reverseRecOn with
  | nil => simp [indexOf, zsetOf, upsertAll]
  | append_singleton txs tx ih =>
    rw [indexOf_concat hjson]
    split
    · rw [scored, List.map_cons, List.nodup_cons]
      refine ⟨fun h => ?_, ih.sublist (List.filter_sublist.map _)⟩
      obtain ⟨m, hm, heq⟩ := List.mem_map.1 h
      exact of_decide_eq_true (List.mem_filter.1 hm).2 heq
    · exact ih

/-! ## The swaps that are read -/

/-- A set as it is read, by descending score. -/
def ranked (json : SerdeJson) (txs : List Transaction) (side : Side) (fp : PgpFingerprint) : List (String × Nat) :=
  (indexOf json txs side fp).mergeSort higherFirst

/-- The summary of the swap of an id. -/
def summaryFor (txs : List Transaction) (fp : PgpFingerprint) (i : String) : Option TransactionSummary :=
  (current txs ⟨i⟩).map (summaryOf fp)

/-- The summaries of a whole set. -/
def summariesOf (json : SerdeJson) (txs : List Transaction) (side : Side) (fp : PgpFingerprint) :
    List TransactionSummary :=
  (ranked json txs side fp).filterMap fun m => summaryFor txs fp m.1

/-- A time below 2^53 is a score as it is. -/
theorem toF64_of_lt {n : Nat} (h : n < 2 ^ 53) : toF64 n = n := by
  have hlog : n.log2 - 52 = 0 := by
    rcases Nat.eq_zero_or_pos n with rfl | hpos
    · decide
    · have hlt : n.log2 < 53 := (Nat.log2_lt hpos.ne').2 h
      omega
  simp [toF64, hlog, Nat.mod_one]

/-- What a member stands for: the last row of its swap. -/
theorem row_of_member (hjson : json.RoundTrips) (hs : Stable txs) (hm : m ∈ ranked json txs side fp) :
    ∃ tx, current txs ⟨m.1⟩ = some tx ∧ side.fp tx = fp ∧ m.2 = toF64 tx.createdAtUnix := by
  obtain ⟨t, ht, htfp, rfl⟩ := (mem_index hjson hs).1 (List.mem_mergeSort.1 hm)
  obtain ⟨tx, hcur⟩ := FdbStore.exists_current ht
  obtain ⟨hbob, halice, hcreated⟩ := hs.current ht hcur
  refine ⟨tx, hcur, ?_, by rw [hcreated]⟩
  rw [← htfp]
  cases side
  · exact hbob
  · exact halice

theorem summaryFor_swapId {i : String} (h : summaryFor txs fp i = some s) : s.swapId = ⟨i⟩ := by
  obtain ⟨tx, hcur, rfl⟩ := Option.map_eq_some_iff.1 h
  exact (FdbStore.current_mem hcur).2

theorem mem_summariesOf (hjson : json.RoundTrips) (hs : Stable txs) : s ∈ summariesOf json txs side fp ↔
    ∃ tx, current txs tx.swapId = some tx ∧ side.fp tx = fp ∧ s = summaryOf fp tx := by
  rw [summariesOf, List.mem_filterMap]
  constructor
  · rintro ⟨m, hm, h⟩
    obtain ⟨tx, hcur, hfp, -⟩ := row_of_member hjson hs hm
    rw [summaryFor, hcur] at h
    rw [← (FdbStore.current_mem hcur).2] at hcur
    exact ⟨tx, hcur, hfp, (Option.some.inj h).symm⟩
  · rintro ⟨tx, hcur, hfp, rfl⟩
    refine ⟨(tx.swapId.id, toF64 tx.createdAtUnix),
      List.mem_mergeSort.2 ((mem_index hjson hs).2 ⟨tx, ?_, hfp, rfl⟩), ?_⟩
    · exact (FdbStore.current_mem hcur).1
    · show (current txs tx.swapId).map _ = _
      rw [hcur]
      rfl

/-- By descending score, each member once. -/
theorem ranked_ordered (hjson : json.RoundTrips) (txs : List Transaction) (side : Side) (fp : PgpFingerprint) :
    (ranked json txs side fp).Pairwise fun a b => b.2 ≤ a.2 ∧ a.1 ≠ b.1 := by
  have hsorted : (ranked json txs side fp).Pairwise fun a b => higherFirst a b = true := by
    refine List.pairwise_mergeSort ?_ ?_ _
    · intro a b c hab hbc
      have hab := of_decide_eq_true hab
      have hbc := of_decide_eq_true hbc
      refine decide_eq_true ?_
      rcases hab with hab | ⟨hab, hab'⟩
      · rcases hbc with hbc | ⟨hbc, -⟩ <;> exact .inl (by omega)
      · rcases hbc with hbc | ⟨hbc, hbc'⟩
        · exact .inl (by omega)
        · exact .inr ⟨hbc.trans hab, le_trans hbc' hab'⟩
    · intro a b
      rw [Bool.or_eq_true, higherFirst, higherFirst, decide_eq_true_eq, decide_eq_true_eq]
      rcases lt_trichotomy a.2 b.2 with h | h | h
      · exact .inr (.inl h)
      · exact (le_total b.1 a.1).imp (fun hle => .inr ⟨h.symm, hle⟩) fun hle => .inr ⟨h, hle⟩
      · exact .inl (.inl h)
  have honce : (ranked json txs side fp).Pairwise fun a b => a.1 ≠ b.1 :=
    List.pairwise_map.1 (((List.mergeSort_perm _ _).map _).nodup_iff.2 (indexOf_nodup hjson txs))
  refine (hsorted.and honce).imp fun {a b} h => ⟨?_, h.2⟩
  rcases of_decide_eq_true h.1 with hlt | ⟨heq, -⟩
  · exact hlt.le
  · exact heq.le

/-- Every time of creation is one that an `f64` has. -/
def ExactScores (txs : List Transaction) : Prop := ∀ tx ∈ txs, tx.createdAtUnix < 2 ^ 53

/-- **Newest first, each swap once.** -/
theorem summariesOf_ordered (hjson : json.RoundTrips) (hs : Stable txs) (hscore : ExactScores txs) (side : Side)
    (fp : PgpFingerprint) :
    (summariesOf json txs side fp).Pairwise fun a b => b.createdAtUnix ≤ a.createdAtUnix ∧
      a.swapId ≠ b.swapId := by
  rw [summariesOf, List.pairwise_filterMap]
  refine (ranked_ordered hjson txs side fp).imp_of_mem fun {m m'} hm hm' hlt s hrow s' hrow' => ⟨?_, ?_⟩
  · obtain ⟨tx, hcur, -, htime⟩ := row_of_member hjson hs hm
    obtain ⟨tx', hcur', -, htime'⟩ := row_of_member hjson hs hm'
    rw [summaryFor, hcur] at hrow
    rw [summaryFor, hcur'] at hrow'
    cases hrow
    cases hrow'
    rw [toF64_of_lt (hscore tx (FdbStore.current_mem hcur).1)] at htime
    rw [toF64_of_lt (hscore tx' (FdbStore.current_mem hcur').1)] at htime'
    show tx'.createdAtUnix ≤ tx.createdAtUnix
    rw [← htime, ← htime']
    exact hlt.1
  · rw [summaryFor_swapId hrow, summaryFor_swapId hrow']
    exact fun h => hlt.2 (congrArg SwapId.id h)

/-- What is read of a set: its first thousand. -/
theorem take_summariesOf (hjson : json.RoundTrips) (hs : Stable txs) (n : Nat) : (summariesOf json txs side fp).take n =
    (((ranked json txs side fp).take n).map Prod.fst).filterMap (summaryFor txs fp) := by
  rw [List.filterMap_map]
  refine (InMemoryStore.filterMap_take (fun m hm => ?_) n).symm
  obtain ⟨tx, hcur, -⟩ := row_of_member hjson hs hm
  rw [summaryFor, hcur]
  rfl

/-! ## The listing -/

/-- The ids of both sets, each cut. -/
def scan (json : SerdeJson) (txs : List Transaction) (fp : PgpFingerprint) : List String :=
  ((ranked json txs .bob fp).take 1000).map Prod.fst ++ ((ranked json txs .alice fp).take 1000).map Prod.fst

/-- What was looked up, each id once. -/
def looked (json : SerdeJson) (txs : List Transaction) (fp : PgpFingerprint) : List TransactionSummary :=
  (SortedMap.firsts (fun i => i) [] (scan json txs fp)).filterMap (summaryFor txs fp)

/-- What is under the key of a row that is read. -/
theorem raw_of_get {id : SwapId} {row : Option Transaction} (h : get json id db = .ok row) :
    (getString (swapKey id) db = .ok none ∧ row = none) ∨
      ∃ text tx, getString (swapKey id) db = .ok (some text) ∧ json.readRow text = .ok tx ∧ row = some tx := by
  rw [get] at h
  cases hraw : getString (swapKey id) db with
  | error e =>
    rw [hraw] at h
    cases h
  | ok raw =>
    rw [hraw] at h
    cases raw with
    | none =>
      cases h
      exact .inl ⟨rfl, rfl⟩
    | some text =>
      cases hread : json.readRow text with
      | error e =>
        simp [hread, Bind.bind, Except.bind, Except.mapError] at h
      | ok tx =>
        simp only [hread, Bind.bind, Except.bind, Except.mapError, Pure.pure, Except.pure, Except.ok.injEq] at h
        exact .inr ⟨text, tx, rfl, hread, h.symm⟩

/-- The loop looks up the ids it has not seen. -/
theorem summaries_eq (hjson : json.RoundTrips) (ids : List String) :
    ∀ seen, summaries json fp (upsertAll json txs) seen ids =
    .ok ((SortedMap.firsts (fun i => i) seen ids).filterMap (summaryFor txs fp)) := by
  induction ids with
  | nil => intro seen; rfl
  | cons i ids ih =>
    intro seen
    by_cases hi : i ∈ seen
    · rw [summaries, if_pos hi, ih, SortedMap.firsts, if_pos hi]
    · rw [summaries, if_neg hi, ih, SortedMap.firsts, if_neg hi, List.filterMap_cons, summaryFor]
      rcases raw_of_get (get_upsertAll hjson txs ⟨i⟩) with ⟨hraw, hcur⟩ | ⟨text, tx, hraw, hread, hcur⟩
      · rw [swapKey] at hraw
        rw [hraw, hcur]
        rfl
      · rw [swapKey] at hraw
        rw [hraw, hcur]
        show (do
          let tx ← (json.readRow text).mapError _
          let rest ← Except.ok _
          return tx.summary (roleOf fp tx) :: rest) = _
        rw [hread]
        rfl

theorem listByParty_eq (hjson : json.RoundTrips) (txs : List Transaction) (fp : PgpFingerprint) :
    listByParty json fp (upsertAll json txs) =
      .ok (Newest.newest TransactionSummary.createdAtUnix 1000 (looked json txs fp)) := by
  have hbob : zrevrange (byBobKey fp) 1000 (upsertAll json txs) =
      .ok (((ranked json txs .bob fp).take 1000).map Prod.fst) :=
    zrevrange_ok (indexed_upsertAll hjson txs .bob fp) 1000
  have halice : zrevrange (byAliceKey fp) 1000 (upsertAll json txs) =
      .ok (((ranked json txs .alice fp).take 1000).map Prod.fst) :=
    zrevrange_ok (indexed_upsertAll hjson txs .alice fp) 1000
  rw [listByParty, hbob, halice]
  show (summaries json fp (upsertAll json txs) [] (scan json txs fp) >>= _) = _
  rw [summaries_eq hjson]
  rfl

theorem mem_looked (hjson : json.RoundTrips) (hs : Stable txs) : s ∈ looked json txs fp ↔
    ∃ side, s ∈ (summariesOf json txs side fp).take 1000 := by
  have hscan : s ∈ looked json txs fp ↔ ∃ i ∈ scan json txs fp, summaryFor txs fp i = some s := by
    rw [looked, List.mem_filterMap]
    refine exists_congr fun i => and_congr_left fun _ => ?_
    rw [SortedMap.mem_firsts_self]
    exact and_iff_left List.not_mem_nil
  rw [hscan]
  constructor
  · rintro ⟨i, hi, hrow⟩
    rcases List.mem_append.1 hi with hi | hi
    · exact ⟨.bob, by rw [take_summariesOf hjson hs]; exact List.mem_filterMap.2 ⟨i, hi, hrow⟩⟩
    · exact ⟨.alice, by rw [take_summariesOf hjson hs]; exact List.mem_filterMap.2 ⟨i, hi, hrow⟩⟩
  · rintro ⟨side, h⟩
    rw [take_summariesOf hjson hs] at h
    obtain ⟨i, hi, hrow⟩ := List.mem_filterMap.1 h
    refine ⟨i, List.mem_append.2 ?_, hrow⟩
    cases side
    · exact .inl hi
    · exact .inr hi

/-- No swap is listed twice. -/
theorem looked_once (json : SerdeJson) (txs : List Transaction) (fp : PgpFingerprint) :
    ((looked json txs fp).map TransactionSummary.swapId).Nodup := by
  obtain ⟨-, hnodup⟩ := SortedMap.firsts_fresh (fun i => i) (scan json txs fp) []
  rw [List.map_id''] at hnodup
  · refine List.pairwise_map.2 (List.Pairwise.filterMap _ (fun i i' hne s hs s' hs' => ?_) hnodup)
    rw [summaryFor_swapId hs, summaryFor_swapId hs']
    exact fun h => hne (congrArg SwapId.id h)
  · exact fun _ => rfl

/-! ## The history -/

/-- The summaries of all swaps of the party. -/
def history (txs : List Transaction) (fp : PgpFingerprint) : List TransactionSummary :=
  (swaps (IsParty fp) txs).filterMap fun id => summaryFor txs fp id.id

theorem mem_history (hs : Stable txs) : s ∈ history txs fp ↔
    ∃ tx, current txs tx.swapId = some tx ∧ IsParty fp tx ∧ s = summaryOf fp tx := by
  rw [history, List.mem_filterMap]
  constructor
  · rintro ⟨id, hid, hrow⟩
    obtain ⟨t, ht, hparty, rfl⟩ := FdbStore.mem_swaps.1 hid
    obtain ⟨tx, hcur, rfl⟩ := Option.map_eq_some_iff.1 hrow
    obtain ⟨hbob, halice, -⟩ := hs.current ht hcur
    have hid' : tx.swapId = t.swapId := (FdbStore.current_mem hcur).2
    refine ⟨tx, by rw [hid']; exact hcur, ?_, rfl⟩
    rw [IsParty, hbob, halice]
    exact hparty
  · rintro ⟨tx, hcur, hparty, rfl⟩
    refine ⟨tx.swapId, FdbStore.mem_swaps.2 ⟨tx, (FdbStore.current_mem hcur).1, hparty, rfl⟩, ?_⟩
    show (current txs tx.swapId).map _ = _
    rw [hcur]
    rfl

theorem history_once (txs : List Transaction) (fp : PgpFingerprint) :
    ((history txs fp).map TransactionSummary.swapId).Nodup := by
  refine List.pairwise_map.2 (List.Pairwise.filterMap _ (fun id id' hne s hs s' hs' => ?_) (List.nodup_dedup _))
  rw [summaryFor_swapId hs, summaryFor_swapId hs']
  exact fun h => hne h

theorem length_history (txs : List Transaction) (fp : PgpFingerprint) :
    (history txs fp).length = (swaps (IsParty fp) txs).length := by
  refine List.filterMap_length_eq_length.2 fun id hid => ?_
  obtain ⟨t, ht, -, rfl⟩ := FdbStore.mem_swaps.1 hid
  obtain ⟨tx, hcur⟩ := FdbStore.exists_current ht
  show ((current txs t.swapId).map _).isSome = true
  rw [hcur]
  rfl

/-- A swap of the party is in one of its sets. -/
theorem mem_history_iff (hjson : json.RoundTrips) (hs : Stable txs) : s ∈ history txs fp ↔
    ∃ side, s ∈ summariesOf json txs side fp := by
  rw [mem_history hs]
  constructor
  · rintro ⟨tx, hcur, hbob | halice, rfl⟩
    · exact ⟨.bob, (mem_summariesOf hjson hs).2 ⟨tx, hcur, hbob, rfl⟩⟩
    · exact ⟨.alice, (mem_summariesOf hjson hs).2 ⟨tx, hcur, halice, rfl⟩⟩
  · rintro ⟨side, h⟩
    obtain ⟨tx, hcur, hfp, rfl⟩ := (mem_summariesOf hjson hs).1 h
    refine ⟨tx, hcur, ?_, rfl⟩
    cases side
    · exact .inl hfp
    · exact .inr hfp

/-- **The history of a party on Redis is exact**: as long as a swap keeps its parties and its time of creation,
below 2^53, the listing has the swaps of the party as last written, each once and in its role, newest first; all
of them up to a thousand, and of more than a thousand none is missing that is newer than one that is listed. -/
theorem redis_history_exact (json : SerdeJson) (hjson : json.RoundTrips) (txs : List Transaction) (hs : Stable txs)
    (hscore : ExactScores txs) (fp : PgpFingerprint) :
    ∃ l, listByParty json fp (upsertAll json txs) = .ok l ∧ Exact txs fp l := by
  have hrank : ∀ u ∈ history txs fp, u ∉ looked json txs fp →
      1000 ≤ Newest.rank TransactionSummary.createdAtUnix u.createdAtUnix (looked json txs fp) := by
    intro u hu hcut
    obtain ⟨side, hu⟩ := (mem_history_iff hjson hs).1 hu
    have hordered := summariesOf_ordered hjson hs hscore side fp
    exact Newest.le_rank_of_take (hordered.imp fun h => h.1)
      (hordered.imp fun h heq => h.2 (congrArg TransactionSummary.swapId heq))
      (fun s hsum => (mem_looked hjson hs).2 ⟨side, hsum⟩) hu hcut
  have hsub : looked json txs fp ⊆ history txs fp := by
    intro s h
    obtain ⟨side, h⟩ := (mem_looked hjson hs).1 h
    exact (mem_history_iff hjson hs).2 ⟨side, List.mem_of_mem_take h⟩
  have hmem : ∀ s ∈ Newest.newest TransactionSummary.createdAtUnix 1000 (looked json txs fp),
      s ∈ history txs fp :=
    fun s h => hsub (Newest.mem_of_mem_newest h)
  refine ⟨_, listByParty_eq hjson txs fp, ?_, ?_, fun s h => ?_, Newest.descending_newest,
    fun tx htx hparty s h hlt => ?_⟩
  · rw [Newest.length_newest (history_once txs fp).of_map (looked_once json txs fp).of_map hsub hrank, length_history]
  · refine List.Nodup.sublist ((List.take_sublist _ _).map _)
      (((List.mergeSort_perm _ _).map _).nodup_iff.2 (looked_once json txs fp))
  · obtain ⟨tx, hcur, hparty, rfl⟩ := (mem_history hs).1 (hmem s h)
    exact ⟨tx, hcur, rfl, FdbStore.roleOf_of hparty⟩
  · obtain ⟨tx', hcur⟩ := FdbStore.exists_current htx
    obtain ⟨hbob, halice, hcreated⟩ := hs.current htx hcur
    have hid := (FdbStore.current_mem hcur).2
    have hu : summaryOf fp tx' ∈ history txs fp := by
      refine (mem_history hs).2 ⟨tx', by rw [hid]; exact hcur, ?_, rfl⟩
      rw [IsParty, hbob, halice]
      exact hparty
    exact ⟨_, Newest.mem_newest_of_newer hrank h hu (lt_of_lt_of_eq hlt hcreated.symm), hid⟩

namespace Sample

/-- The row of the start, a swap of the same second in which Bob is Alice, the first swap settled, and a later swap
of others. -/
def startedRows : List Transaction :=
  let settled :=
    { SampleTexts.startedRow with
      status := .settled
      phase := .settled
      terminal := true
      updatedAtUnix := 1714003290 }
  [SampleTexts.startedRow,
    { SampleTexts.startedRow with swapId := ⟨"61b0"⟩, bobPgpFp := ⟨"c0"⟩, alicePgpFp := ⟨"b0"⟩ },
    settled,
    { SampleTexts.startedRow with swapId := ⟨"77aa"⟩, bobPgpFp := ⟨"c0"⟩, createdAtUnix := 1714003260 }]

end Sample

open SampleTexts in
/-- Two swaps, listed for Bob. -/
theorem redis_history_exact_rows : ∃ l,
    listByParty texts.redis ⟨"b0"⟩ (upsertAll texts.redis Sample.startedRows) = .ok l ∧
    l.length = 2 ∧ Exact Sample.startedRows ⟨"b0"⟩ l := by
  have hstable : Stable Sample.startedRows := by
    unfold Stable
    decide +kernel
  have hscores : ExactScores Sample.startedRows := by
    unfold ExactScores
    decide +kernel
  obtain ⟨l, hl, hexact⟩ := redis_history_exact texts.redis texts_roundTrip.redis Sample.startedRows hstable
    hscores ⟨"b0"⟩
  have htwo : min 1000 (swaps (IsParty ⟨"b0"⟩) Sample.startedRows).length = 2 := by decide +kernel
  exact ⟨l, hl, hexact.length.trans htwo, hexact⟩

end Webycash.Referee.RedisStore
