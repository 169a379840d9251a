import Mathlib.Data.Finset.Max
import Webycash.Lib.Task
import Webycash.Referee.World
/-!
# The DynamoDB audit log (`referee/src/audit/dynamodb.rs`)

`append` asks for the last number of the swap and puts its entry under the next one, on the
condition that nothing is there; where the condition fails it goes one number up, eight times at
most. The query is eventually consistent, so it may see any earlier state of the table (`Answer`).
A call whose put fails for another reason than the condition has written nothing.

| here | there |
| --- | --- |
| `nextSeq`, `putWithSeq` | audit/dynamodb.rs:139, :168 |
| `append`, `probe`       | audit/dynamodb.rs:203 |
-/

namespace Webycash.Referee.DynamoAudit

open Prog

inductive Call
  | queryLastSeq (swapId : SwapId)
  | putItem (entry : AuditEntry) (seq : Nat)

/-- The number of the item that was found; whether the condition held. -/
@[reducible] def Call.Result : Call → Type
  | queryLastSeq _ => Option Nat
  | putItem _ _ => Bool

/-- The items by partition and sort key, and all states the table has been in before. -/
structure Table where
  items : FMap (SwapId × Nat) AuditEntry
  earlier : List (FMap (SwapId × Nat) AuditEntry)

def Table.empty : Table := ⟨∅, []⟩

/-- What the environment chooses: an error, and how many states a query lags behind. -/
structure Answer where
  fault : Option String
  behind : Nat

/-- Sort descending, limit 1. -/
def lastSeq (swapId : SwapId) (items : FMap (SwapId × Nat) AuditEntry) : Option Nat :=
  ((items.keys.filter (·.1 = swapId)).image Prod.snd).max

/-- The state a query sees. -/
def Table.seen (w : Table) (behind : Nat) : FMap (SwapId × Nat) AuditEntry :=
  ((w.items :: w.earlier)[behind]?).getD w.items

def serve : (c : Call) → Answer → Table → Except RefereeError c.Result × Table
  | .queryLastSeq swapId, a, w =>
    match a.fault with
    | some e => (.error (.store ("query last seq: " ++ e)), w)
    | none => (.ok (lastSeq swapId (w.seen a.behind)), w)
  | .putItem entry seq, a, w =>
    match a.fault with
    | some e => (.error (.store ("put_item audit: " ++ e)), w)
    | none =>
      if (entry.swapId, seq) ∈ w.items then (.ok false, w)
      else (.ok true, ⟨w.items.insert (entry.swapId, seq) entry, w.items :: w.earlier⟩)

abbrev Async (α : Type) := Task RefereeError Call.Result α

def APPEND_RETRIES : Nat := 8

/-- The counter is a `u64`. -/
def succU64 (n : Nat) : Nat := (n + 1) % 2 ^ 64

def nextSeq (swapId : SwapId) : Async Nat := do
  let last ← perform (Call.queryLastSeq swapId)
  return (last : Option Nat).elim 0 succU64

def putWithSeq (entry : AuditEntry) (seq : Nat) : Async Bool := perform (Call.putItem entry seq)

/-- The loop of `append`, with the number of tries that are left. -/
def probe (entry : AuditEntry) : Nat → Nat → Async String
  | 0, _ => throw (.store "could not append audit entry after 8 retries (high contention)")
  | tries + 1, seq => do
    if ← putWithSeq entry seq then return entry.tipHash else probe entry tries (succU64 seq)

/-- The entry as it is stored. -/
def signed (ed : Ed25519) (entry : AuditEntry) : AuditEntry :=
  { entry with signature := Identity.sign ed (tagForPhase entry.phase) entry.canonicalBody }

def append (ed : Ed25519) (entry : AuditEntry) : Async String := do
  let seq ← nextSeq entry.swapId
  probe (signed ed entry) APPEND_RETRIES seq

/-! ## Appends under way -/

abbrev Appends := Pool (fun c => Except RefereeError (Call.Result c))
    (Except RefereeError String) Answer Table AuditEntry

abbrev Append := Thread (fun c => Except RefereeError (Call.Result c)) (Except RefereeError String) Answer AuditEntry

/-- Any step of any append. -/
def Appends.Step (ed : Ed25519) (p : Appends) (act : Act Answer AuditEntry) (p' : Appends) : Prop :=
  Pool.Step serve (fun entry => (append ed entry).run) p act p'

/-- A put of the append under this number went through. -/
def Stored (t : Append) (seq : Nat) : Prop := ∃ entry a, ⟨.putItem entry seq, a, .ok true⟩ ∈ t.made

/-- The numbers of the swap are the first `n`. -/
def Segment (items : FMap (SwapId × Nat) AuditEntry) (swapId : SwapId) (n : Nat) : Prop :=
  ∀ seq, (swapId, seq) ∈ items ↔ seq < n

/-- Where an append stands, and what it has stored. -/
inductive Standing (ed : Ed25519) (items : FMap (SwapId × Nat) AuditEntry) (t : Append) : Prop
  | starting (hrest : t.rest = (append ed t.tag).run) (hnone : ∀ seq, ¬ Stored t seq)
  | probing (tries seq : Nat) (hrest : t.rest = (probe (signed ed t.tag) tries seq).run)
      (hnone : ∀ seq, ¬ Stored t seq) (hbelow : ∀ s < seq, (t.tag.swapId, s) ∈ items)
  | done (tip : String) (seq : Nat) (hrest : t.rest = .ret (.ok tip)) (hstored : ∀ s, Stored t s ↔ s = seq)
  | failed (e : RefereeError) (hrest : t.rest = .ret (.error e)) (hnone : ∀ seq, ¬ Stored t seq)

/-- What holds of the table and of every append at any time. -/
structure Sound (ed : Ed25519) (p : Appends) : Prop where
  segment : ∀ id, ∃ n, Segment p.world.items id n
  earlier : ∀ m ∈ p.world.earlier, (∀ id, ∃ n, Segment m id n) ∧ ∀ k, k ∈ m → k ∈ p.world.items
  standing : ∀ t ∈ p.threads, Standing ed p.world.items t
  stored : ∀ t ∈ p.threads, ∀ seq, Stored t seq → p.world.items.lookup (t.tag.swapId, seq) =
    some (signed ed t.tag)
  owner : ∀ (i j : Nat) (t t' : Append) (seq : Nat), p.threads[i]? = some t → p.threads[j]? = some t' →
    t.tag.swapId = t'.tag.swapId → Stored t seq → Stored t' seq → i = j

variable {ed : Ed25519} {p p' : Appends} {act : Act Answer AuditEntry}
  {items items' : FMap (SwapId × Nat) AuditEntry} {id : SwapId}
  {n seq : Nat} {t : Append} {entry : AuditEntry} {a : Answer} {w : Table} {c : Call}

theorem stored_concat {made : List (Made (fun c => Except RefereeError (Call.Result c)) Answer)} {m : Made _ Answer}
    {rest : Prog (fun c => Except RefereeError (Call.Result c)) (Except RefereeError String)}
    (rest' : Prog (fun c => Except RefereeError (Call.Result c)) (Except RefereeError String)) :
    Stored ⟨entry, made ++ [m], rest⟩ seq ↔ Stored ⟨entry, made, rest'⟩ seq ∨
      ∃ e a, m = ⟨.putItem e seq, a, .ok true⟩ := by
  unfold Stored
  simp only [List.mem_append, List.mem_singleton]
  constructor
  · rintro ⟨e, a, h | h⟩
    · exact .inl ⟨e, a, h⟩
    · exact .inr ⟨e, a, h.symm⟩
  · rintro (⟨e, a, h⟩ | ⟨e, a, h⟩)
    · exact ⟨e, a, .inl h⟩
    · exact ⟨e, a, .inr h.symm⟩

theorem succU64_le (n : Nat) : succU64 n ≤ n + 1 := Nat.mod_le _ _

theorem Segment.mem_of_le (h : Segment items id n) {s : Nat} (hseq : (id, seq) ∈ items) (hs : s ≤ seq) :
    (id, s) ∈ items :=
  (h s).2 (lt_of_le_of_lt hs ((h seq).1 hseq))

/-- The item that is found is there. -/
theorem mem_of_lastSeq (h : lastSeq id items = some seq) : (id, seq) ∈ items := by
  obtain ⟨key, hkey, rfl⟩ := Finset.mem_image.1 (Finset.mem_of_max h)
  obtain ⟨hmem, rfl⟩ := Finset.mem_filter.1 hkey
  exact Finmap.mem_keys.1 hmem

/-- **One call of an append**: it stores nothing, or the entry, under the first number that is free. -/
theorem turn_cases {made : List (Made (fun c => Except RefereeError (Call.Result c)) Answer)}
    {k : Except RefereeError c.Result →
      Prog (fun c => Except RefereeError (Call.Result c)) (Except RefereeError String)}
    (hseen : ∀ id, ∃ n, Segment (w.seen a.behind) id n) (hold : ∀ k, k ∈ w.seen a.behind → k ∈ w.items)
    (ht : Standing ed w.items ⟨entry, made, .call c k⟩) :
    ((serve c a w).2 = w ∧ Standing ed w.items ⟨entry, made ++ [⟨c, a, (serve c a w).1⟩],
      k (serve c a w).1⟩ ∧
      ∀ s, Stored ⟨entry, made ++ [⟨c, a, (serve c a w).1⟩], k (serve c a w).1⟩ s ↔
        Stored ⟨entry, made, .call c k⟩ s) ∨
    ∃ tip seq, (entry.swapId, seq) ∉ w.items ∧ (∀ s < seq, (entry.swapId, s) ∈ w.items) ∧
      (serve c a w).2 = ⟨w.items.insert (entry.swapId, seq) (signed ed entry), w.items :: w.earlier⟩ ∧
      k (serve c a w).1 = .ret (.ok tip) ∧
      (∀ s, Stored ⟨entry, made ++ [⟨c, a, (serve c a w).1⟩], k (serve c a w).1⟩ s ↔ s = seq) := by
  rcases ht with ⟨hrest, hnone⟩ | ⟨tries, seq, hrest, hnone, hbelow⟩ | ⟨tip, seq, hrest, -⟩ |
    ⟨e, hrest, -⟩
  · dsimp only at hrest
    cases hrest
    have hsame : ∀ res rest' s, Stored ⟨entry, made ++ [⟨.queryLastSeq entry.swapId, a, res⟩], rest'⟩ s ↔
        Stored ⟨entry, made, (append ed entry).run⟩ s := by
      intro res rest' s
      rw [stored_concat (append ed entry).run]
      exact or_iff_left (by rintro ⟨_, _, h⟩; cases h)
    refine .inl ?_
    cases hf : a.fault with
    | some e =>
      have hserve : serve (.queryLastSeq entry.swapId) a w = (.error (.store ("query last seq: " ++ e)), w) := by
        simp only [serve, hf]
      rw [hserve]
      exact ⟨rfl, .failed _ rfl fun s => (hsame _ _ s).not.2 (hnone s), hsame _ _⟩
    | none =>
      have hserve : serve (.queryLastSeq entry.swapId) a w = (.ok (lastSeq entry.swapId (w.seen a.behind)), w) := by
        simp only [serve, hf]
      rw [hserve]
      refine ⟨rfl, .probing APPEND_RETRIES _ rfl (fun s => (hsame _ _ s).not.2 (hnone s)) fun s hs => ?_, hsame _ _⟩
      cases hlast : lastSeq entry.swapId (w.seen a.behind) with
      | none =>
        rw [hlast] at hs
        cases hs
      | some last =>
        rw [hlast] at hs
        obtain ⟨n, hn⟩ := hseen entry.swapId
        exact hold _ (hn.mem_of_le (mem_of_lastSeq hlast) (Nat.le_of_lt_succ (lt_of_lt_of_le hs (succU64_le last))))
  · cases tries with
    | zero => cases hrest
    | succ tries =>
      dsimp only at hrest hbelow
      cases hrest
      have hstored : ∀ res rest' s, Stored
        ⟨entry, made ++ [⟨.putItem (signed ed entry) seq, a, res⟩], rest'⟩ s ↔
          s = seq ∧ res = .ok true := by
        intro res rest' s
        rw [stored_concat (probe (signed ed entry) (tries + 1) seq).run]
        constructor
        · rintro (h | ⟨_, _, h⟩)
          · exact absurd h (hnone s)
          · cases h
            exact ⟨rfl, rfl⟩
        · rintro ⟨rfl, rfl⟩
          exact .inr ⟨_, _, rfl⟩
      have hfail : ∀ res rest' s, res ≠ .ok true →
        (Stored ⟨entry, made ++ [⟨.putItem (signed ed entry) seq, a, res⟩], rest'⟩ s ↔
          Stored ⟨entry, made, (probe (signed ed entry) (tries + 1) seq).run⟩ s) :=
        fun res rest' s hres => iff_of_false (fun h => hres ((hstored _ _ s).1 h).2) (hnone s)
      cases hf : a.fault with
      | some e =>
        have hserve : serve (.putItem (signed ed entry) seq) a w = (.error (.store ("put_item audit: " ++ e)), w) := by
          simp only [serve, hf]
        rw [hserve]
        exact .inl ⟨rfl, .failed _ rfl (fun s h => nomatch ((hstored _ _ s).1 h).2), fun s => hfail _ _ s nofun⟩
      | none =>
        by_cases hmem : ((signed ed entry).swapId, seq) ∈ w.items
        · have hserve : serve (.putItem (signed ed entry) seq) a w = (.ok false, w) := by
            simp only [serve, hf, if_pos hmem]
          rw [hserve]
          refine .inl ⟨rfl, .probing tries (succU64 seq) rfl
            (fun s h => nomatch ((hstored _ _ s).1 h).2) fun s hs => ?_,
            fun s => hfail _ _ s nofun⟩
          rcases Nat.lt_or_eq_of_le (Nat.le_of_lt_succ (lt_of_lt_of_le hs (succU64_le seq))) with hlt | rfl
          · exact hbelow s hlt
          · exact hmem
        · have hserve : serve (.putItem (signed ed entry) seq) a w =
              (.ok true, ⟨w.items.insert (entry.swapId, seq) (signed ed entry), w.items :: w.earlier⟩) := by
            simp only [serve, hf, if_neg hmem]
            rfl
          rw [hserve]
          exact .inr ⟨_, seq, hmem, hbelow, rfl, rfl, fun s => (hstored _ _ s).trans (and_iff_left rfl)⟩
  · cases hrest
  · cases hrest

/-! ## The invariant -/

theorem Standing.mono (h : Standing ed items t) (hle : ∀ k, k ∈ items → k ∈ items') : Standing ed items' t := by
  cases h with
  | starting hrest hnone => exact .starting hrest hnone
  | probing tries seq hrest hnone hbelow => exact .probing tries seq hrest hnone fun s hs => hle _ (hbelow s hs)
  | done tip seq hrest hstored => exact .done tip seq hrest hstored
  | failed e hrest hnone => exact .failed e hrest hnone

/-- A put under the first free number. -/
theorem Segment.insert (h : Segment items id n) (hfree : (entry.swapId, seq) ∉ items)
    (hbelow : ∀ s < seq, (entry.swapId, s) ∈ items) :
    ∃ n, Segment (items.insert (entry.swapId, seq) (signed ed entry)) id n := by
  by_cases hid : id = entry.swapId
  · subst hid
    have hge : n ≤ seq := Nat.le_of_not_lt fun hlt => hfree ((h seq).2 hlt)
    have hle : seq ≤ n := Nat.le_of_not_lt fun hlt => lt_irrefl n ((h n).1 (hbelow n hlt))
    obtain rfl := Nat.le_antisymm hge hle
    refine ⟨n + 1, fun s => ?_⟩
    rw [Finmap.mem_insert, h s, Prod.mk.injEq, Nat.lt_succ_iff_lt_or_eq, or_comm]
    simp
  · refine ⟨n, fun s => ?_⟩
    rw [Finmap.mem_insert, h s, Prod.mk.injEq]
    simp [hid]

theorem Sound.empty : Sound ed ⟨Table.empty, []⟩ where
  segment _ := ⟨0, fun _ => ⟨fun h => absurd h (Finmap.notMem_empty), fun h => absurd h (Nat.not_lt_zero _)⟩⟩
  earlier _ h := nomatch h
  standing _ h := nomatch h
  stored _ h := nomatch h
  owner _ _ _ _ _ h := nomatch h

/-- **What a call does to the table**: it keeps every item. -/
theorem serve_keeps {k : SwapId × Nat} {e : AuditEntry} (hk : w.items.lookup k = some e) :
    (serve c a w).2.items.lookup k = some e := by
  cases c with
  | queryLastSeq id =>
    have hworld : (serve (.queryLastSeq id) a w).2 = w := by
      cases hf : a.fault <;> simp only [serve, hf]
    rw [hworld]
    exact hk
  | putItem entry seq =>
    cases hf : a.fault with
    | some e =>
      have hworld : (serve (.putItem entry seq) a w).2 = w := by simp only [serve, hf]
      rw [hworld]
      exact hk
    | none =>
      by_cases hmem : (entry.swapId, seq) ∈ w.items
      · have hworld : (serve (.putItem entry seq) a w).2 = w := by simp only [serve, hf, if_pos hmem]
        rw [hworld]
        exact hk
      · have hworld : (serve (.putItem entry seq) a w).2.items = w.items.insert (entry.swapId, seq) entry := by
          simp only [serve, hf, if_neg hmem]
        rw [hworld, FMap.lookup_insert_ite, if_neg]
        · exact hk
        · rintro rfl
          exact hmem (Finmap.mem_of_lookup_eq_some hk)

theorem Appends.Step.keeps (h : p.Step ed act p') {k : SwapId × Nat} {e : AuditEntry}
    (hk : p.world.items.lookup k = some e) :
    p'.world.items.lookup k = some e := by
  rcases Pool.step_cases h with ⟨_, -, rfl⟩ | ⟨i, a, tag, made, c, k', -, -, rfl⟩
  · exact hk
  · exact serve_keeps hk

theorem Sound.seen (hp : Sound ed p) (behind : Nat) :
    (∀ id, ∃ n, Segment (p.world.seen behind) id n) ∧ ∀ k, k ∈ p.world.seen behind →
      k ∈ p.world.items := by
  unfold Table.seen
  cases hget : (p.world.items :: p.world.earlier)[behind]? with
  | none => exact ⟨hp.segment, fun _ hk => hk⟩
  | some m =>
    rcases List.mem_cons.1 (List.mem_of_getElem? hget) with rfl | hm
    · exact ⟨hp.segment, fun _ hk => hk⟩
    · exact hp.earlier m hm

theorem Sound.step (h : p.Step ed act p') (hp : Sound ed p) : Sound ed p' := by
  have hkeeps := fun k e => h.keeps (k := k) (e := e)
  rcases Pool.step_cases h with ⟨entry, -, rfl⟩ | ⟨i, a, entry, made, c, k, -, ht, rfl⟩
  · have hnone : ∀ seq, ¬ Stored ⟨entry, [], (append ed entry).run⟩ seq := fun _ ⟨_, _, hm⟩ => nomatch hm
    refine ⟨hp.segment, hp.earlier, fun t htm => ?_, fun t htm seq hs => ?_,
      fun i j t t' seq hi hj hid hs hs' => ?_⟩
    · rcases List.mem_append.1 htm with htm | htm
      · exact hp.standing t htm
      · obtain rfl := List.mem_singleton.1 htm
        exact .starting rfl hnone
    · rcases List.mem_append.1 htm with htm | htm
      · exact hp.stored t htm seq hs
      · obtain rfl := List.mem_singleton.1 htm
        exact absurd hs (hnone seq)
    · rcases getElem?_spawn hi with hi | ⟨-, rfl⟩
      · rcases getElem?_spawn hj with hj | ⟨-, rfl⟩
        · exact hp.owner i j t t' seq hi hj hid hs hs'
        · exact absurd hs' (hnone seq)
      · exact absurd hs (hnone seq)
  · have hlen := (List.getElem?_eq_some_iff.1 ht).1
    obtain ⟨hseen, hold⟩ := hp.seen a.behind
    rcases turn_cases hseen hold (hp.standing _ (List.mem_of_getElem? ht)) with
      ⟨hworld, hstanding, hsame⟩ | ⟨tip, seq, hfree, hbelow, hworld, hrest, hstored⟩
    · rw [hworld]
      refine ⟨hp.segment, hp.earlier, fun t htm => ?_, fun t htm s hs => ?_,
        fun j j' t t' s hj hj' hid hs hs' => ?_⟩
      · rcases List.mem_or_eq_of_mem_set htm with htm | rfl
        · exact hp.standing t htm
        · exact hstanding
      · rcases List.mem_or_eq_of_mem_set htm with htm | rfl
        · exact hp.stored t htm s hs
        · exact hp.stored _ (List.mem_of_getElem? ht) s ((hsame s).1 hs)
      · rcases getElem?_turn ht hj with ⟨rfl, rfl⟩ | ⟨-, hwas⟩ <;> rcases getElem?_turn ht hj' with
          ⟨rfl, rfl⟩ | ⟨-, hwas'⟩
        · rfl
        · exact hp.owner _ _ _ _ s ht hwas' hid ((hsame s).1 hs) hs'
        · exact hp.owner _ _ _ _ s hwas ht hid hs ((hsame s).1 hs')
        · exact hp.owner _ _ _ _ s hwas hwas' hid hs hs'
    · -- The number was free: no append had stored anything under it.
      have hfresh : ∀ t ∈ p.threads, t.tag.swapId = entry.swapId → ¬ Stored t seq := by
        intro t htm hid hs
        have hitem := hp.stored t htm seq hs
        rw [hid] at hitem
        exact hfree (Finmap.mem_of_lookup_eq_some hitem)
      have hmono : ∀ k, k ∈ p.world.items → k ∈ p.world.items.insert (entry.swapId, seq) (signed ed entry) :=
        fun k hk => Finmap.mem_insert.2 (.inr hk)
      rw [hworld]
      have hkeeps' : ∀ k e, p.world.items.lookup k = some e →
          (p.world.items.insert (entry.swapId, seq) (signed ed entry)).lookup k = some e := by
        intro k e hk
        have hk' := hkeeps k e hk
        rw [hworld] at hk'
        exact hk'
      refine ⟨fun id => ?_, fun m hm => ?_, fun t htm => ?_, fun t htm s hs => ?_,
        fun j j' t t' s hj hj' hid hs hs' => ?_⟩
      · obtain ⟨n, hn⟩ := hp.segment id
        exact hn.insert hfree hbelow
      · rcases List.mem_cons.1 hm with rfl | hm
        · exact ⟨hp.segment, hmono⟩
        · exact ⟨(hp.earlier m hm).1, fun k hk => hmono k ((hp.earlier m hm).2 k hk)⟩
      · rcases List.mem_or_eq_of_mem_set htm with htm | rfl
        · exact (hp.standing t htm).mono hmono
        · exact .done tip seq hrest hstored
      · rcases List.mem_or_eq_of_mem_set htm with htm | rfl
        · exact hkeeps' _ _ (hp.stored t htm s hs)
        · obtain rfl := (hstored s).1 hs
          exact Finmap.lookup_insert _
      · rcases getElem?_turn ht hj with ⟨rfl, rfl⟩ | ⟨-, hwas⟩ <;> rcases getElem?_turn ht hj' with
          ⟨rfl, rfl⟩ | ⟨-, hwas'⟩
        · rfl
        · obtain rfl := (hstored s).1 hs
          exact absurd hs' (hfresh t' (List.mem_of_getElem? hwas') hid.symm)
        · obtain rfl := (hstored s).1 hs'
          exact absurd hs (hfresh t (List.mem_of_getElem? hwas) hid)
        · exact hp.owner _ _ _ _ s hwas hwas' hid hs hs'

theorem Sound.run {acts : List (Act Answer AuditEntry)}
    (h : Run (Appends.Step ed) ⟨Table.empty, []⟩ acts p) : Sound ed p :=
  h.invariant (fun _ _ _ hs => Sound.step hs) .empty

/-! ## No entry is lost -/

/-- What an append-only log promises of the appends made so far. -/
structure LosesNothing (ed : Ed25519) (p : Appends) : Prop where
  segment : ∀ id, ∃ n, ∀ seq, (id, seq) ∈ p.world.items ↔ seq < n
  stored : ∀ t ∈ p.threads, ∀ tip, t.rest = .ret (.ok tip) →
    ∃ seq, p.world.items.lookup (t.tag.swapId, seq) = some (signed ed t.tag) ∧ ∀ s, Stored t s ↔ s = seq
  owner : ∀ (i j : Nat) (t t' : Append) (seq : Nat), p.threads[i]? = some t → p.threads[j]? = some t' →
    t.tag.swapId = t'.tag.swapId → Stored t seq → Stored t' seq → i = j
  failed : ∀ t ∈ p.threads, ∀ e, t.rest = .ret (.error e) → ∀ seq, ¬ Stored t seq

theorem Sound.losesNothing (hp : Sound ed p) : LosesNothing ed p where
  segment := hp.segment
  owner := hp.owner
  stored t ht tip hret := by
    cases hp.standing t ht with
    | done tip' seq hrest hstored => exact ⟨seq, hp.stored t ht seq ((hstored seq).2 rfl), hstored⟩
    | starting hrest _ => cases hret.symm.trans hrest
    | probing tries seq hrest _ _ => cases tries <;> cases hret.symm.trans hrest
    | failed e hrest _ => cases hret.symm.trans hrest
  failed t ht e hret := by
    cases hp.standing t ht with
    | done tip seq hrest _ => cases hret.symm.trans hrest
    | starting _ hnone => exact hnone
    | probing _ _ _ hnone _ => exact hnone
    | failed _ _ hnone => exact hnone

/-- **Appends that race lose nothing**: at any time of any interleaving, and nothing that is stored
is ever replaced. -/
theorem append_loses_nothing (ed : Ed25519) (acts : List (Act Answer AuditEntry)) (p : Appends)
    (h : Run (Appends.Step ed) ⟨Table.empty, []⟩ acts p) :
    LosesNothing ed p ∧ ∀ later p', Run (Appends.Step ed) p later p' →
      ∀ k e, p.world.items.lookup k = some e → p'.world.items.lookup k = some e :=
  ⟨(Sound.run h).losesNothing, fun _ _ hrun k e hk =>
    hrun.invariant (I := fun q => q.world.items.lookup k = some e) (fun _ _ _ hs hq => hs.keeps hq) hk⟩

/-! ## One append at a time -/

section

variable {log : List AuditEntry}

/-- The items of each swap are its entries of the log, numbered from zero. -/
def Table.Holds (w : Table) (log : List AuditEntry) : Prop :=
  ∀ id seq, w.items.lookup (id, seq) = (log.filter (·.swapId = id))[seq]?

theorem Table.holds_empty : Table.empty.Holds [] := fun _ _ => rfl

theorem Table.Holds.segment (h : w.Holds log) (id : SwapId) :
    Segment w.items id (log.filter (·.swapId = id)).length := by
  intro seq
  rw [← Finmap.lookup_isSome, h id seq]
  simp

/-- The number after the last one. -/
theorem Segment.next (h : Segment items id n) (hn : n < 2 ^ 64) : (lastSeq id items).elim 0 succU64 = n := by
  have hseqs : (items.keys.filter (·.1 = id)).image Prod.snd = Finset.range n := by
    ext seq
    rw [Finset.mem_range, ← h seq, Finset.mem_image]
    constructor
    · rintro ⟨key, hkey, rfl⟩
      obtain ⟨hmem, rfl⟩ := Finset.mem_filter.1 hkey
      exact Finmap.mem_keys.1 hmem
    · intro hmem
      exact ⟨(id, seq), Finset.mem_filter.2 ⟨Finmap.mem_keys.2 hmem, rfl⟩, rfl⟩
  rw [lastSeq, hseqs]
  cases n with
  | zero => rfl
  | succ n =>
    obtain ⟨m, hm⟩ := Finset.max_of_mem (Finset.self_mem_range_succ n)
    have hle : m ≤ n := Nat.le_of_lt_succ (Finset.mem_range.1 (Finset.mem_of_max hm))
    obtain rfl : m = n := le_antisymm hle (Finset.le_max_of_eq (Finset.self_mem_range_succ n) hm)
    rw [hm]
    exact Nat.mod_eq_of_lt hn

/-- The query sees the table as it is, and nothing fails. -/
def calm : Answer := ⟨none, 0⟩

/-- **Alone, an append puts its entry behind those of the swap.** -/
theorem append_extends (h : w.Holds log) (hfew : (log.filter (·.swapId = entry.swapId)).length < 2 ^ 64) :
    ((append ed entry).run.run serve (fun _ => calm) w).value = .ok entry.tipHash ∧
      ((append ed entry).run.run serve (fun _ => calm) w).world.Holds (log ++ [signed ed entry]) := by
  have hsegment := h.segment entry.swapId
  have hnext := hsegment.next hfew
  generalize hlen : (log.filter (·.swapId = entry.swapId)).length = seq at hsegment hnext
  have hfree : ((signed ed entry).swapId, seq) ∉ w.items := fun hmem => lt_irrefl _ ((hsegment seq).1 hmem)
  have hquery : (nextSeq entry.swapId).run.run serve (fun _ => calm) w =
      ⟨.ok seq, w, [⟨.queryLastSeq entry.swapId, calm, .ok (lastSeq entry.swapId w.items)⟩]⟩ := by
    rw [← hnext]
    rfl
  have hput : (putWithSeq (signed ed entry) seq).run.run serve (fun _ => calm) w =
      ⟨.ok true, ⟨w.items.insert (entry.swapId, seq) (signed ed entry), w.items :: w.earlier⟩,
        [⟨.putItem (signed ed entry) seq, calm, .ok true⟩]⟩ := run_perform_ok (if_neg hfree)
  rw [append, run_task_bind_ok hquery, show APPEND_RETRIES = 7 + 1 from rfl, probe, run_task_bind_ok hput]
  refine ⟨rfl, fun id s => ?_⟩
  show (w.items.insert (entry.swapId, seq) (signed ed entry)).lookup (id, s) = _
  rw [FMap.lookup_insert_ite, List.filter_append, h id s]
  by_cases hid : entry.swapId = id
  · subst hid
    have hone : [signed ed entry].filter (·.swapId = entry.swapId) = [signed ed entry] := by
      simp [signed]
    rw [hone, List.getElem?_append, hlen]
    by_cases hs : s = seq
    · subst hs
      simp
    · have hne : (entry.swapId, s) ≠ (entry.swapId, seq) := fun h => hs (congrArg Prod.snd h)
      rw [if_neg hne]
      by_cases hlt : s < seq
      · rw [if_pos hlt]
      · rw [if_neg hlt, List.getElem?_eq_none (by omega), List.getElem?_eq_none (by simp; omega)]
  · have hnone : [signed ed entry].filter (·.swapId = id) = [] := by
      simp [signed, hid]
    rw [hnone, List.append_nil, if_neg fun h => hid (congrArg Prod.fst h).symm]
/-- The table after these appends, each made when the one before it was over. -/
def appendAll (ed : Ed25519) (entries : List AuditEntry) : Table :=
  entries.foldl (fun w entry => ((append ed entry).run.run serve (fun _ => calm) w).world) .empty

/-- **Appends that do not overlap make the log a list.** -/
theorem appendAll_holds {entries : List AuditEntry} (hfew : entries.length ≤ 2 ^ 64) :
    (appendAll ed entries).Holds (entries.map (signed ed)) := by
  induction entries using List.reverseRecOn with
  | nil => exact Table.holds_empty
  | append_singleton entries entry ih =>
    rw [List.length_append, List.length_singleton] at hfew
    have hlen : ((entries.map (signed ed)).filter (·.swapId = entry.swapId)).length < 2 ^ 64 := by
      have hle := List.length_filter_le (fun e : AuditEntry => decide (e.swapId = entry.swapId))
        (entries.map (signed ed))
      rw [List.length_map] at hle
      omega
    rw [appendAll, List.foldl_append, List.map_append]
    exact (append_extends (ih (by omega)) hlen).2

end

namespace Sample

def ed25519 : Ed25519 := ⟨fun _ => [1], fun _ => .ok (), fun _ _ _ => .ok ()⟩

def zkpsEntry : AuditEntry := ⟨⟨"5f3a"⟩, .zkpsVerified, 1714003200, "6e34", .obj [], ""⟩

/-- Both ask before either puts, so the second meets the entry of the first. -/
def race : List (Act Answer AuditEntry) :=
  [.spawn zkpsEntry, .spawn { zkpsEntry with phase := .preChecked }, .turn 0 ⟨none, 0⟩, .turn 1 ⟨none, 0⟩,
    .turn 0 ⟨none, 0⟩, .turn 1 ⟨none, 0⟩,
    .turn 1 ⟨none, 0⟩]

end Sample

theorem append_loses_nothing_in_race : ∃ p, Run (Appends.Step Sample.ed25519) ⟨Table.empty, []⟩ Sample.race p ∧
    (⟨"5f3a"⟩, 1) ∈ p.world.items ∧ LosesNothing Sample.ed25519 p := by
  have hexec : (Run.exec (Pool.next serve fun entry => (append Sample.ed25519 entry).run)
    ⟨Table.empty, []⟩ Sample.race).any
      (fun p => decide ((⟨"5f3a"⟩, 1) ∈ p.world.items)) := by decide
  obtain ⟨p, hp, hone⟩ := (Option.any_eq_true _ _).1 hexec
  have hrun : Run (Appends.Step Sample.ed25519) ⟨Table.empty, []⟩ Sample.race p := Run.of_exec (fun _ _ _ h => h) hp
  exact ⟨p, hrun, of_decide_eq_true hone, (append_loses_nothing Sample.ed25519 Sample.race p hrun).1⟩

end Webycash.Referee.DynamoAudit
