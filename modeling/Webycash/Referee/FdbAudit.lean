import Webycash.Referee.Keyspace
import Webycash.Referee.World
/-!
# The FoundationDB audit log (`referee/src/audit/fdb.rs`)

`append` means to read the last key of the swap and to write the next. Its range option is not
reversed, though, and the `1` and the `true` it passes to `get_range` are the iteration number and
the snapshot flag, so what it reads is the first key; and the sequence number of that one, all
zeros, does not parse once the zeros are trimmed. Every entry is written under number zero
(`Zeroed`), so that a swap keeps its last entry only (`append_only_iff`).

A value is the entry that `serde_json` reads back; a range is read in one piece.
-/

namespace Webycash.Referee.FdbAudit

open KeyRange

abbrev Kv := List (Key × AuditEntry)

def PREFIX : Key := keyOf "referee/audit/"

def entryKey (swapId : SwapId) (seq : Nat) : Key := PREFIX ++ keyOf swapId.id ++ [slash] ++ padded seq

def swapPrefix (swapId : SwapId) : Key := PREFIX ++ keyOf swapId.id ++ [slash]

def endPrefix (start : Key) : Key := start ++ [255]

/-- `str::parse::<u64>`, on bytes: digits after an optional plus sign. -/
def parseU64 (s : Key) : Option Nat :=
  let digits := if s.head? = some 43 then s.tail else s
  if digits = [] ∨ ∃ b ∈ digits, ¬ (48 ≤ b ∧ b ≤ 57) then none
  else
    let n := digits.foldl (fun n b => n * 10 + (b - 48)) 0
    if n < 2 ^ 64 then some n else none

/-- The next sequence number, from the pairs that were read. A tail that is not UTF-8 does not parse. -/
def nextSeq (kvs : Kv) : Nat :=
  match kvs.head? with
  | none => 0
  | some kv =>
    let tail := kv.1.drop (kv.1.length - 20)
    ((parseU64 (tail.dropWhile (· = 48))).map fun n => (n + 1) % 2 ^ 64).getD 0

/-- The entry as it is stored. -/
def signed (ed : Ed25519) (entry : AuditEntry) : AuditEntry :=
  { entry with signature := Identity.sign ed (tagForPhase entry.phase) entry.canonicalBody }

def append (ed : Ed25519) (entry : AuditEntry) (kv : Kv) : String × Kv :=
  let entry := signed ed entry
  let start := swapPrefix entry.swapId
  let kvs := getRange (.of start (endPrefix start)) 1 true kv
  (entry.tipHash, SortedMap.put (entryKey entry.swapId (nextSeq kvs)) entry kv)

def readEntries (swapId : SwapId) (kv : Kv) : List AuditEntry :=
  (getRange (.of (swapPrefix swapId) (endPrefix (swapPrefix swapId))) 1024 false kv).map Prod.snd

def entriesFor (swapId : SwapId) (kv : Kv) : List AuditEntry := readEntries swapId kv

def tipFor (swapId : SwapId) (kv : Kv) : String := ((readEntries swapId kv).getLast?.map AuditEntry.tipHash).getD ""

/-- One append after the other, on an empty database. -/
def appendAll (ed : Ed25519) (entries : List AuditEntry) : Kv :=
  entries.foldl (fun kv entry => (append ed entry kv).2) []

/-! ## What the log is for -/

/-- What was appended for a swap is read back, in the order of the calls, and the tip is that of the
last append. -/
def AppendOnly (ed : Ed25519) (entries : List AuditEntry) : Prop := ∀ id,
  entriesFor id (appendAll ed entries) = (entries.filter (·.swapId = id)).map (signed ed) ∧
  tipFor id (appendAll ed entries) = ((entries.filter (·.swapId = id)).getLast?.map fun e =>
    (append ed e []).1).getD ""

/-- No swap is appended to twice, and no id has a slash in it. -/
structure OneEach (entries : List AuditEntry) : Prop where
  once : (entries.map AuditEntry.swapId).Nodup
  plain : ∀ e ∈ entries, '/' ∉ e.swapId.id.toList

/-! ## Where the entries end up -/

variable {ed : Ed25519} {entries : List AuditEntry} {e : AuditEntry} {kv : Kv} {id id' : SwapId} {n : Nat}
  {p : Key × AuditEntry}

theorem entryKey_eq : entryKey id n = PREFIX ++ (keyOf id.id ++ slash :: padded n) := by
  simp [entryKey]

theorem entryKey_inj (h : entryKey id n = entryKey id' n) : id = id' := by
  have hid : keyOf id.id = keyOf id'.id :=
    List.append_cancel_left (List.append_cancel_right (List.append_cancel_right h))
  cases id
  cases id'
  exact congrArg SwapId.mk (keyOf_inj hid)

/-- **The range of a swap** holds its own keys, and those of the ids that go on with a slash. -/
theorem entryKey_mem_range : swapPrefix id ≤ entryKey id' n ∧ entryKey id' n < endPrefix (swapPrefix id) ↔
    id' = id ∨ ∃ c, keyOf id'.id = keyOf id.id ++ slash :: c := by
  rw [endPrefix, mem_subspace_iff]
  have hcut : ∀ rest, entryKey id' n = swapPrefix id ++ rest ↔
      keyOf id'.id ++ slash :: padded n = keyOf id.id ++ slash :: rest := by
    intro rest
    rw [entryKey_eq, swapPrefix, List.append_assoc, List.append_assoc, List.append_right_inj]
    rfl
  constructor
  · rintro ⟨rest, hrest, -⟩
    rcases cut_cases ((hcut rest).1 hrest) with ⟨hid, -⟩ | ⟨c, -, hc⟩ | ⟨c, hc, -⟩
    · cases id
      cases id'
      exact .inl (congrArg SwapId.mk (keyOf_inj hid))
    · exact absurd (hc ▸ List.mem_append_right c List.mem_cons_self) (slash_notMem_padded n)
    · exact .inr ⟨c, hc⟩
  · rintro (rfl | ⟨c, hc⟩)
    · refine ⟨padded n, (hcut _).2 rfl, fun b hb => ?_⟩
      have := (digit_of_mem_padded (List.mem_of_mem_head? hb)).2
      omega
    · refine ⟨c ++ slash :: padded n, (hcut _).2 (by rw [hc]; simp), fun b hb => ?_⟩
      cases c with
      | nil =>
        cases hb
        decide
      | cons x c =>
        cases hb
        exact lt_of_mem_keyOf (s := id'.id) (hc ▸ List.mem_append_right _ (by simp))

/-- Every key ends in number zero. -/
def Zeroed (kv : Kv) : Prop := ∀ p ∈ kv, ∃ id, p.1 = entryKey id 0

/-- **The next number is always zero.** -/
theorem nextSeq_zeroed (h : Zeroed kv) : nextSeq kv = 0 := by
  unfold nextSeq
  cases kv with
  | nil => rfl
  | cons p kv =>
    obtain ⟨id, hid⟩ := h p List.mem_cons_self
    have htail : p.1.drop (p.1.length - 20) = padded 0 := by
      have hlen : (padded 0).length = 20 := rfl
      rw [hid, entryKey, List.drop_left' (by simp only [List.length_append, hlen]; omega)]
    rw [List.head?_cons]
    dsimp only
    rw [htail]
    rfl

theorem Zeroed.getRange (h : Zeroed kv) {start stop : Key} {i : Nat} {snapshot : Bool} :
    Zeroed (getRange (.of start stop) i snapshot kv) :=
  fun p hp => h p (List.mem_of_mem_filter hp)

theorem appendAll_concat : appendAll ed (entries ++ [e]) = (append ed e (appendAll ed entries)).2 := by
  rw [appendAll, List.foldl_append]
  rfl

/-- **What is in the log**: of every swap the last entry, under number zero. -/
theorem mem_appendAll : p ∈ appendAll ed entries ↔ ∃ before e after, entries = before ++ e :: after ∧
    (∀ x ∈ after, x.swapId ≠ e.swapId) ∧ p = (entryKey e.swapId 0, signed ed e) := by
  induction entries using List.reverseRecOn generalizing p with
  | nil => simp [appendAll]
  | append_singleton es e ih =>
    have hzero : Zeroed (appendAll ed es) := by
      intro p hp
      obtain ⟨_, e, _, _, _, rfl⟩ := ih.1 hp
      exact ⟨e.swapId, rfl⟩
    rw [appendAll_concat, append, nextSeq_zeroed hzero.getRange, SortedMap.mem_put]
    constructor
    · rintro (rfl | ⟨hp, hkey⟩)
      · exact ⟨es, e, [], rfl, nofun, rfl⟩
      · obtain ⟨before, e', after, rfl, hafter, rfl⟩ := ih.1 hp
        refine ⟨before, e', after ++ [e], by simp, fun x hx => ?_, rfl⟩
        rcases List.mem_append.1 hx with hx | hx
        · exact hafter x hx
        · rintro he
          rw [List.mem_singleton.1 hx] at he
          exact hkey (congrArg (fun i => entryKey i 0) he.symm)
    · rintro ⟨before, e', after, hes, hafter, rfl⟩
      rcases List.eq_nil_or_concat after with rfl | ⟨rest, last, rfl⟩
      · obtain ⟨-, hlast⟩ := List.append_inj' hes rfl
        cases hlast
        exact .inl rfl
      · rw [List.concat_eq_append, ← List.cons_append, ← List.append_assoc] at hes
        obtain ⟨hbefore, hlast⟩ := List.append_inj' hes rfl
        cases hlast
        refine .inr ⟨ih.2 ⟨before, e', rest, hbefore, fun x hx => hafter x (by simp [hx]), rfl⟩, fun hkey => ?_⟩
        exact hafter e (by simp) (entryKey_inj hkey).symm

theorem appendAll_sorted (ed : Ed25519) (entries : List AuditEntry) : SortedMap.Sorted (appendAll ed entries) := by
  induction entries using List.reverseRecOn with
  | nil => exact .nil
  | append_singleton es e ih =>
    rw [appendAll_concat]
    exact ih.put _ _

/-! ## When it is append-only -/

/-- The last entry of a swap is in the log. -/
theorem exists_last (he : e ∈ entries) : ∃ e' ∈ entries, e'.swapId = e.swapId ∧
    (entryKey e.swapId 0, signed ed e') ∈ appendAll ed entries := by
  induction entries using List.reverseRecOn with
  | nil => cases he
  | append_singleton es last ih =>
    by_cases hlast : last.swapId = e.swapId
    · exact ⟨last, by simp, hlast, mem_appendAll.2 ⟨es, last, [], rfl, nofun, by rw [hlast]⟩⟩
    · have hold : e ∈ es := by
        rcases List.mem_append.1 he with he | he
        · exact he
        · exact absurd (congrArg AuditEntry.swapId (List.mem_singleton.1 he)).symm hlast
      obtain ⟨e', he', hid, hmem⟩ := ih hold
      obtain ⟨before, x, after, rfl, hafter, hx⟩ := mem_appendAll.1 hmem
      refine ⟨e', List.mem_append_left _ he', hid,
        mem_appendAll.2 ⟨before, x, after ++ [last], by simp, fun y hy => ?_, hx⟩⟩
      rcases List.mem_append.1 hy with hy | hy
      · exact hafter y hy
      · rw [List.mem_singleton.1 hy, ← entryKey_inj (congrArg Prod.fst hx)]
        exact hlast

theorem mem_getRange {i : Nat} {snapshot : Bool} :
    p ∈ getRange (.of (swapPrefix id) (endPrefix (swapPrefix id))) i snapshot kv ↔
    p ∈ kv ∧ swapPrefix id ≤ p.1 ∧ p.1 < endPrefix (swapPrefix id) := by
  show p ∈ kv.filter _ ↔ _
  rw [List.mem_filter, decide_eq_true_eq]
  rfl

theorem getRange_nodup {start stop : Key} {i : Nat} {snapshot : Bool} :
    (getRange (.of start stop) i snapshot (appendAll ed entries)).Nodup := by
  refine List.Pairwise.imp ?_ (List.Pairwise.filter _ (appendAll_sorted ed entries))
  rintro p q hlt rfl
  exact lt_irrefl _ hlt

/-- A swap that is read by its own keys has one entry at most. -/
theorem entriesFor_length (h : ∀ e ∈ entriesFor id (appendAll ed entries), e.swapId = id) :
    (entriesFor id (appendAll ed entries)).length ≤ 1 := by
  have hsame : ∀ p ∈ getRange (.of (swapPrefix id) (endPrefix (swapPrefix id))) 1024 false (appendAll ed entries),
      p ∈ appendAll ed entries ∧ p.1 = entryKey id 0 := by
    intro p hp
    obtain ⟨hmem, -⟩ := mem_getRange.1 hp
    obtain ⟨_, e, _, _, _, rfl⟩ := mem_appendAll.1 hmem
    have hid : e.swapId = id := h (signed ed e) (List.mem_map_of_mem hp)
    exact ⟨hmem, by rw [hid]⟩
  rw [entriesFor, readEntries, List.length_map]
  have hnodup : (getRange (.of (swapPrefix id) (endPrefix (swapPrefix id))) 1024 false
      (appendAll ed entries)).Nodup := getRange_nodup
  generalize getRange (.of (swapPrefix id) (endPrefix (swapPrefix id))) 1024 false (appendAll ed entries) =
    l at hsame hnodup
  match l, hsame, hnodup with
  | [], _, _ => exact Nat.zero_le _
  | [_], _, _ => exact Nat.le_refl _
  | p :: q :: _, hsame, hnodup =>
    obtain ⟨hp, hpk⟩ := hsame p List.mem_cons_self
    obtain ⟨hq, hqk⟩ := hsame q (by simp)
    have hval : p.2 = q.2 := (appendAll_sorted ed entries).unique (k := entryKey id 0) (hpk ▸ hp) (hqk ▸ hq)
    exact absurd (Prod.ext (hpk.trans hqk.symm) hval) (List.ne_of_not_mem_cons (List.nodup_cons.1 hnodup).1)

namespace OneEach

theorem filter_cases (h : OneEach entries) (id : SwapId) :
    entries.filter (·.swapId = id) = [] ∨ ∃ e, entries.filter (·.swapId = id) = [e] := by
  have hpair : (entries.filter (·.swapId = id)).Pairwise fun a b => a.swapId ≠ b.swapId :=
    (List.pairwise_map.1 h.once).filter _
  have hall : ∀ e ∈ entries.filter (·.swapId = id), e.swapId = id := fun e he =>
    of_decide_eq_true (List.mem_filter.1 he).2
  match hf : entries.filter (·.swapId = id) with
  | [] => exact .inl hf
  | [e] => exact .inr ⟨e, hf⟩
  | a :: b :: _ =>
    rw [hf] at hpair hall
    exact absurd ((hall a List.mem_cons_self).trans (hall b (by simp)).symm)
      (List.rel_of_pairwise_cons hpair List.mem_cons_self)

/-- The keys in the range of a swap are its own. -/
theorem own (h : OneEach entries) (he : e ∈ entries) (hlow : swapPrefix id ≤ entryKey e.swapId 0)
    (hhigh : entryKey e.swapId 0 < endPrefix (swapPrefix id)) : e.swapId = id := by
  rcases entryKey_mem_range.1 ⟨hlow, hhigh⟩ with hid | ⟨c, hc⟩
  · exact hid
  · refine absurd (slash_mem_keyOf.1 ?_) (h.plain e he)
    rw [hc]
    simp

theorem entriesFor (h : OneEach entries) (ed : Ed25519) (id : SwapId) :
    entriesFor id (appendAll ed entries) = (entries.filter (·.swapId = id)).map (signed ed) := by
  have hmem : ∀ e, e ∈ entries.filter (·.swapId = id) ↔ e ∈ entries ∧ e.swapId = id := fun e => by
    rw [List.mem_filter, decide_eq_true_eq]
  rw [FdbAudit.entriesFor, readEntries]
  rcases h.filter_cases id with hf | ⟨e, hf⟩ <;> rw [hf] at hmem ⊢
  · refine List.map_eq_nil_iff.2 (List.eq_nil_iff_forall_not_mem.2 fun p hp => ?_)
    obtain ⟨hp, hlow, hhigh⟩ := mem_getRange.1 hp
    obtain ⟨_, e, _, rfl, _, rfl⟩ := mem_appendAll.1 hp
    exact List.not_mem_nil ((hmem e).2 ⟨by simp, h.own (by simp) hlow hhigh⟩)
  · have he : e ∈ entries ∧ e.swapId = id := (hmem e).1 List.mem_cons_self
    have honly : ∀ e', e' ∈ entries → e'.swapId = id →
        e' = e := fun e' h₁ h₂ => List.mem_singleton.1 ((hmem e').2 ⟨h₁, h₂⟩)
    have hrange : getRange (.of (swapPrefix id) (endPrefix (swapPrefix id))) 1024 false (appendAll ed entries) =
        [(entryKey id 0, signed ed e)] := by
      refine List.perm_singleton.1 ((List.perm_ext_iff_of_nodup getRange_nodup (List.nodup_singleton _)).2 fun p => ?_)
      rw [mem_getRange, List.mem_singleton]
      constructor
      · rintro ⟨hp, hlow, hhigh⟩
        obtain ⟨_, e', _, rfl, _, rfl⟩ := mem_appendAll.1 hp
        have hid := h.own (e := e') (by simp) hlow hhigh
        rw [hid, honly e' (by simp) hid]
      · rintro rfl
        obtain ⟨e', he', hid, hlast⟩ : ∃ e' ∈ _, e'.swapId = e.swapId ∧
            (entryKey e.swapId 0, signed ed e') ∈ appendAll ed _ :=
          exists_last he.1
        rw [he.2] at hid hlast
        rw [honly e' he' hid] at hlast
        exact ⟨hlast, entryKey_mem_range.2 (.inl rfl)⟩
    rw [hrange]
    rfl

end OneEach

/-- **The log is append-only** for exactly the appends of which no two are for one swap and none for
an id with a slash. -/
theorem append_only_iff (ed : Ed25519) (entries : List AuditEntry) : AppendOnly ed entries ↔ OneEach entries := by
  constructor
  · intro h
    refine ⟨List.nodup_iff_count_le_one.2 fun id => ?_, fun e he hslash => ?_⟩
    · have hentries := (h id).1
      have hown : ∀ e ∈ entriesFor id (appendAll ed entries), e.swapId = id := by
        intro e he
        rw [hentries] at he
        obtain ⟨e, hmem, rfl⟩ := List.mem_map.1 he
        exact of_decide_eq_true (List.mem_filter.1 hmem).2
      have hlen := entriesFor_length hown
      rw [hentries, List.length_map] at hlen
      rw [List.count, List.countP_map, List.countP_eq_length_filter]
      exact le_of_eq_of_le (congrArg List.length (List.filter_congr fun e _ => beq_eq_decide e.swapId id)) hlen
    · -- Of an id with a slash, what stands before it is an id that nothing was appended for.
      obtain ⟨l, l', hl⟩ := List.append_of_mem hslash
      have hid : e.swapId.id = String.ofList l ++ ("/" ++ String.ofList l') := by
        rw [← String.ofList_toList (s := e.swapId.id), hl]
        simp [String.ofList_append]
      obtain ⟨e', he', hsame, hmem⟩ : ∃ e' ∈ _, e'.swapId = e.swapId ∧
          (entryKey e.swapId 0, signed ed e') ∈ appendAll ed _ :=
        exists_last he
      have hrange : signed ed e' ∈ entriesFor ⟨String.ofList l⟩ (appendAll ed entries) := by
        refine List.mem_map.2 ⟨_, mem_getRange.2
          ⟨hmem, entryKey_mem_range.2 (.inr ⟨keyOf (String.ofList l'), ?_⟩)⟩, rfl⟩
        rw [hid, keyOf_append, keyOf_append]
        rfl
      rw [(h _).1] at hrange
      obtain ⟨x, hx, hsigned⟩ := List.mem_map.1 hrange
      have hxid : x.swapId = ⟨String.ofList l⟩ := of_decide_eq_true (List.mem_filter.1 hx).2
      have hself : e.swapId = ⟨String.ofList l⟩ :=
        hsame.symm.trans ((congrArg AuditEntry.swapId hsigned).symm.trans hxid)
      have hlength := congrArg String.length ((congrArg SwapId.id hself).symm.trans hid)
      simp at hlength
  · intro h id
    refine ⟨h.entriesFor ed id, ?_⟩
    have hread : readEntries id (appendAll ed entries) = _ := h.entriesFor ed id
    rw [tipFor, hread, List.getLast?_map, Option.map_map]
    rfl

/-! ## Two entries of one swap -/

namespace Sample

def twoEntries : List AuditEntry :=
  [⟨⟨"5f3a"⟩, .init, 1714003200, "", .obj [], ""⟩,
    ⟨⟨"5f3a"⟩, .zkpsVerified, 1714003200, "6e34", .obj [], ""⟩]

def ed25519 : Ed25519 := ⟨fun _ => [1], fun _ => .ok (), fun _ _ _ => .ok ()⟩

end Sample

open Webycash.Referee.FdbAudit.Sample

/-- **The second entry replaces the first**: one entry is read where two were appended. -/
theorem second_replaces_first : ¬ AppendOnly ed25519 twoEntries ∧
    (entriesFor ⟨"5f3a"⟩ (appendAll ed25519 twoEntries)).length ≤ 1 ∧
      (twoEntries.filter (·.swapId = ⟨"5f3a"⟩)).length = 2 := by
  have htwo : (twoEntries.filter (·.swapId = ⟨"5f3a"⟩)).length = 2 := by decide
  have hown : ∀ e ∈ entriesFor ⟨"5f3a"⟩ (appendAll ed25519 twoEntries), e.swapId = ⟨"5f3a"⟩ := by
    intro e he
    obtain ⟨p, hp, rfl⟩ := List.mem_map.1 he
    obtain ⟨before, x, after, hx, -, rfl⟩ := mem_appendAll.1 (mem_getRange.1 hp).1
    have hall : ∀ x ∈ twoEntries, x.swapId = ⟨"5f3a"⟩ := by simp [twoEntries]
    exact hall x (by rw [hx]; simp)
  have hlen := entriesFor_length hown
  refine ⟨fun h => ?_, hlen, htwo⟩
  rw [(h ⟨"5f3a"⟩).1, List.length_map, htwo] at hlen
  exact absurd hlen (by decide)

end Webycash.Referee.FdbAudit
