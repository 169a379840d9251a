import Webycash.Storage.Accept
import Webycash.Storage.RedisInsert
/-!
# `insert_tokens` on three backends: overwriting and honesty

The contract (storage/src/lib.rs:185) is that a batch with a key that exists or repeats is
refused and changes nothing. FoundationDB keeps it. Redis looks at one field of a key and
inserts the fresh records before it reports a duplicate; DynamoDB puts without conditions,
chunk after chunk, and does not look at what the service left unprocessed. `noOverwrite_iff`
and `honest_iff` say exactly when each of them keeps the two halves of the contract.
-/

namespace Webycash

section

variable {ρ : Type} {cfg : StoreConfig ρ}

/-- The batch names each key once and no key of the store. -/
def NewKeys (cfg : StoreConfig ρ) (rs : List ρ) (s : Seals String) : Prop := s.Fresh (rs.map cfg.recordKey)

/-- A batch with a key that exists or repeats is refused, and existing records stay as they are. -/
def NoOverwrite {ν : Type} (cfg : StoreConfig ρ) (rs : List ρ) (ok : Prop) (before after : FMap String ν) : Prop :=
  (ok → (rs.map cfg.recordKey).Nodup ∧ ∀ r ∈ rs, cfg.recordKey r ∉ before) ∧
    ∀ k ∈ before, after.lookup k = before.lookup k

/-- A refused batch changes nothing, an accepted one is there. -/
def Honest {ν : Type} (rs : List ρ) (ok : Prop) (before after : FMap String ν) (present : ρ → Prop) : Prop :=
  (¬ ok → after = before) ∧ (ok → ∀ r ∈ rs, present r)

/-! ## Redis -/

namespace Redis

variable {rs : List ρ} {db : Db}

/-- Every field of the record reads back from its key. -/
def Present (cfg : StoreConfig ρ) (t : Tokens) (r : ρ) : Prop :=
  ∀ p ∈ cfg.codec.toFields r, hget t (cfg.recordKey r) p.1 = some p.2

instance decidablePresent (t : Tokens) (r : ρ) : Decidable (Present cfg t r) :=
  inferInstanceAs (Decidable (∀ p ∈ cfg.codec.toFields r, _ = _))

theorem overlay_keys (c : List ρ) (t : Tokens) : (c.map (overlay cfg t)).map Prod.fst = c.map cfg.recordKey := by
  rw [List.map_map]
  rfl

theorem present_overlay {c : List ρ} {t : Tokens} (hnd : (c.map cfg.recordKey).Nodup) {r : ρ} (hr : r ∈ c) :
    Present cfg (FMap.putAll t (c.map (overlay cfg t))) r := by
  intro p hp
  have hmem : (cfg.recordKey r, (overlay cfg t r).2) ∈ c.map (overlay cfg t) := List.mem_map.2 ⟨r, hr, rfl⟩
  rw [hget, FMap.lookup_putAll_of_mem (by rwa [overlay_keys]) hmem, Option.bind_some]
  exact FMap.lookup_putAll_of_mem (cfg.codec.names_nodup r) hp _

/-- A created record changes what its key holds: `amount_wats` was not there. -/
theorem lookup_overlay_ne {c : List ρ} {t : Tokens} (hnd : (c.map cfg.recordKey).Nodup) {r : ρ} (hr : r ∈ c)
    (hun : ¬ Claimed t (cfg.recordKey r)) :
    (FMap.putAll t (c.map (overlay cfg t))).lookup (cfg.recordKey r) ≠ t.lookup (cfg.recordKey r) := by
  intro he
  have hp : hget (FMap.putAll t (c.map (overlay cfg t))) (cfg.recordKey r) "amount_wats" = _ :=
    present_overlay hnd hr _ (cfg.codec.amount_mem r)
  rw [hget, he] at hp
  exact hun (by rw [Claimed, hget, hp]; rfl)

/-- **Redis, existing keys.** They are refused and kept exactly when each of them has the field
`HSETNX` looks at. -/
theorem noOverwrite_iff : NoOverwrite cfg rs ((insertTokens cfg rs db).1 = .ok ()) db.tokens
    (insertTokens cfg rs db).2.tokens ↔
    ∀ r ∈ rs, cfg.recordKey r ∈ db.tokens → Claimed db.tokens (cfg.recordKey r) := by
  obtain ⟨c, hsub, hnd, hun, hall, hst, hok⟩ := insertTokens_spec cfg rs db
  rw [NoOverwrite, hok, hst]
  constructor
  · rintro ⟨-, hkeep⟩ r hr hmem
    rcases hall r hr with h | ⟨r', hr', hk⟩
    · exact h
    · exact absurd (hkeep _ (hk ▸ hmem)) (lookup_overlay_ne hnd hr' (hun r' hr'))
  · intro hcl
    refine ⟨?_, fun k hk => ?_⟩
    · rintro rfl
      exact ⟨hnd, fun r hr hmem => hun r hr (hcl r hr hmem)⟩
    · refine FMap.lookup_putAll_of_notMem ?_ _
      rw [overlay_keys]
      intro hm
      obtain ⟨r, hr, rfl⟩ := List.mem_map.1 hm
      exact hun r hr (hcl r (hsub.subset hr) hk)

/-- **Redis, all or nothing.** A batch is inserted or refused as a whole exactly when every key
is taken already, or none is and none repeats. -/
theorem honest_iff : Honest rs ((insertTokens cfg rs db).1 = .ok ()) db.tokens (insertTokens cfg rs db).2.tokens
      (Present cfg (insertTokens cfg rs db).2.tokens) ↔
    (∀ r ∈ rs, Claimed db.tokens (cfg.recordKey r)) ∨
      ((rs.map cfg.recordKey).Nodup ∧ ∀ r ∈ rs, ¬ Claimed db.tokens (cfg.recordKey r)) := by
  obtain ⟨c, hsub, hnd, hun, hall, hst, hok⟩ := insertTokens_spec cfg rs db
  rw [Honest, hok, hst]
  constructor
  · rintro ⟨hsame, -⟩
    by_cases hc : c = rs
    · subst hc
      exact Or.inr ⟨hnd, hun⟩
    · refine Or.inl fun r hr => ?_
      rcases hall r hr with h | ⟨r', hr', -⟩
      · exact h
      · exact absurd (congrArg (Finmap.lookup (cfg.recordKey r')) (hsame hc)) (lookup_overlay_ne hnd hr' (hun r' hr'))
  · rintro (hcl | ⟨hnd', hun'⟩)
    · obtain rfl : c = [] := List.eq_nil_iff_forall_not_mem.2 fun r hr => hun r hr (hcl r (hsub.subset hr))
      exact ⟨fun _ => rfl, by rintro rfl; simp⟩
    · have hc : c = rs := by
        -- every record is created: two with one key would be one too many
        refine hsub.eq_of_length_le ?_
        have hkeys : rs.map cfg.recordKey ⊆ c.map cfg.recordKey := fun k hk => by
          obtain ⟨r, hr, rfl⟩ := List.mem_map.1 hk
          rcases hall r hr with h | ⟨r', hr', he⟩
          · exact absurd h (hun' r hr)
          · exact List.mem_map.2 ⟨r', hr', he⟩
        simpa using (List.Nodup.subperm hnd' hkeys).length_le
      subst hc
      exact ⟨fun h => absurd rfl h, fun _ r hr => present_overlay hnd hr⟩

end Redis

/-! ## DynamoDB -/

namespace Dynamo

variable {env : Env} {rs : List ρ} {db : Db}

/-- The service refuses the call: it fails, or the chunk names a key twice. -/
def Refused (cfg : StoreConfig ρ) (reply : BatchReply) (chunk : List ρ) : Prop :=
  reply = .failed ∨ ¬ (chunk.map cfg.recordKey).Nodup

instance decidableRefused (reply : BatchReply) (chunk : List ρ) : Decidable (Refused cfg reply chunk) :=
  inferInstanceAs (Decidable (_ ∨ ¬ _))

/-- The puts a reply acknowledges. -/
def ackedOf (cfg : StoreConfig ρ) (reply : BatchReply) (chunk : List ρ) : List (String × Item) :=
  match reply with
  | .failed => []
  | .done unprocessed => (chunk.map (putOf cfg)).filter fun p => decide (p.1 ∉ unprocessed)

/-- The puts acknowledged before the first refused call, and whether no call is refused. -/
def acks (cfg : StoreConfig ρ) : List BatchReply → List (List ρ) → List (String × Item) × Bool
  | _, [] => ([], true)
  | replies, chunk :: chunks =>
    if Refused cfg (replies.head?.getD (.done [])) chunk then ([], false)
    else
      let (ps, all) := acks cfg replies.tail chunks
      (ackedOf cfg (replies.head?.getD (.done [])) chunk ++ ps, all)

/-- The puts of a whole call. -/
def acked (cfg : StoreConfig ρ) (env : Env) (rs : List ρ) : List (String × Item) :=
  (acks cfg env.writes (Stride.chunks 25 rs)).1

/-- No chunk's call is refused. -/
def AllCarriedOut (cfg : StoreConfig ρ) (env : Env) (rs : List ρ) : Prop :=
  (acks cfg env.writes (Stride.chunks 25 rs)).2 = true

instance decidableAllCarriedOut : Decidable (AllCarriedOut cfg env rs) := inferInstanceAs (Decidable (_ = true))

theorem putOf_keys (chunk : List ρ) : (chunk.map (putOf cfg)).map Prod.fst = chunk.map cfg.recordKey := by
  rw [List.map_map]
  rfl

theorem batchWriteItem_eq (reply : BatchReply) (chunk : List ρ) (t : Tokens) :
    batchWriteItem reply (chunk.map (putOf cfg)) t =
      if Refused cfg reply chunk then none else some (FMap.putAll t (ackedOf cfg reply chunk)) := by
  unfold batchWriteItem Refused
  rw [putOf_keys]
  by_cases hnd : (chunk.map cfg.recordKey).Nodup
  · cases reply <;> simp [hnd, ackedOf]
  · simp [hnd]

/-- **The chunk loop.** It writes what was acknowledged before the first refused call. -/
theorem writeChunks_eq : ∀ (replies : List BatchReply) (chunks : List (List ρ)) (t : Tokens),
    writeChunks cfg replies chunks t = ((acks cfg replies chunks).2, FMap.putAll t (acks cfg replies chunks).1)
  | _, [], _ => rfl
  | replies, chunk :: chunks, t => by
    unfold writeChunks acks
    rw [batchWriteItem_eq]
    by_cases h : Refused cfg (replies.head?.getD (.done [])) chunk
    · simp [h]
    · simp only [h, if_false]
      rw [writeChunks_eq, FMap.putAll_append]

theorem insertTokens_eq (rs : List ρ) (db : Db) : insertTokens cfg env rs db =
    (if AllCarriedOut cfg env rs then .ok () else .error ("batch insert: " ++ cfg.serviceError),
      { db with tokens := FMap.putAll db.tokens (acked cfg env rs) }) := by
  cases rs with
  | nil => rfl
  | cons r rs =>
    unfold insertTokens
    rw [writeChunks_eq]
    rfl

theorem insertTokens_ok_iff : (insertTokens cfg env rs db).1 = .ok () ↔ AllCarriedOut cfg env rs := by
  rw [insertTokens_eq]
  by_cases h : AllCarriedOut cfg env rs <;> simp [h]

theorem acks_keys : ∀ (replies : List BatchReply) (chunks : List (List ρ)),
    ∀ p ∈ (acks cfg replies chunks).1, ∃ r ∈ chunks.flatten, p = putOf cfg r
  | _, [], p, hp => by simp [acks] at hp
  | replies, chunk :: chunks, p, hp => by
    unfold acks at hp
    split at hp
    · simp at hp
    · rw [List.mem_append] at hp
      rcases hp with hp | hp
      · unfold ackedOf at hp
        split at hp
        · simp at hp
        · obtain ⟨r, hr, rfl⟩ := List.mem_map.1 (List.mem_of_mem_filter hp)
          exact ⟨r, by simp [hr], rfl⟩
      · obtain ⟨r, hr, rfl⟩ := acks_keys replies.tail chunks p hp
        exact ⟨r, by simp only [List.flatten_cons, List.mem_append]; exact Or.inr hr, rfl⟩

/-- Everything acknowledged is a put of the batch. -/
theorem acked_mem {p : String × Item} (hp : p ∈ acked cfg env rs) : ∃ r ∈ rs, p = putOf cfg r := by
  obtain ⟨r, hr, rfl⟩ := acks_keys _ _ p hp
  rw [Stride.flatten_chunks (by decide)] at hr
  exact ⟨r, hr, rfl⟩

/-- Every acknowledged put of a key that exists is what the key holds already. -/
def HarmlessAcks (cfg : StoreConfig ρ) (env : Env) (rs : List ρ) (t : Tokens) : Prop :=
  ∀ k ∈ (acked cfg env rs).map Prod.fst, k ∈ t → FMap.lastPut (acked cfg env rs) k = t.lookup k

instance decidableHarmlessAcks (t : Tokens) : Decidable (HarmlessAcks cfg env rs t) :=
  inferInstanceAs (Decidable (∀ k ∈ (acked cfg env rs).map Prod.fst, _ → _))

theorem keeps_iff_harmless : (∀ k ∈ db.tokens, (insertTokens cfg env rs db).2.tokens.lookup k =
    db.tokens.lookup k) ↔
    HarmlessAcks cfg env rs db.tokens := by
  rw [insertTokens_eq]
  simp only [FMap.lookup_putAll]
  constructor
  · intro h k hk hmem
    obtain ⟨item, hitem⟩ := Option.ne_none_iff_exists'.1 fun hn => FMap.lastPut_eq_none_iff.1 hn hk
    rw [← h k hmem, hitem, Option.some_or]
  · intro h k hmem
    by_cases hk : k ∈ (acked cfg env rs).map Prod.fst
    · rw [h k hk hmem]
      cases db.tokens.lookup k <;> rfl
    · rw [FMap.lastPut_eq_none_iff.2 hk, Option.none_or]

/-- **DynamoDB, existing keys.** They are refused and kept exactly when the batch brings only
new keys, or some call is refused and what was acknowledged before it rewrote no existing item. -/
theorem noOverwrite_iff :
    NoOverwrite cfg rs ((insertTokens cfg env rs db).1 = .ok ()) db.tokens (insertTokens cfg env rs db).2.tokens ↔
    NewKeys cfg rs (seals db.tokens) ∨ (¬ AllCarriedOut cfg env rs ∧ HarmlessAcks cfg env rs db.tokens) := by
  have hnew : NewKeys cfg rs (seals db.tokens) ↔ (rs.map cfg.recordKey).Nodup ∧
      ∀ r ∈ rs, cfg.recordKey r ∉ db.tokens := by
    simp only [NewKeys, Seals.Fresh, List.forall_mem_map, seals_eq_none]
  rw [NoOverwrite, insertTokens_ok_iff, keeps_iff_harmless, ← hnew]
  constructor
  · rintro ⟨hok, hkeep⟩
    by_cases hall : AllCarriedOut cfg env rs
    · exact Or.inl (hok hall)
    · exact Or.inr ⟨hall, hkeep⟩
  · rintro (h | ⟨hall, hkeep⟩)
    · refine ⟨fun _ => h, fun k hk hmem => ?_⟩
      obtain ⟨p, hp, rfl⟩ := List.mem_map.1 hk
      obtain ⟨r, hr, rfl⟩ := acked_mem hp
      exact absurd hmem ((hnew.1 h).2 r hr)
    · exact ⟨fun h => absurd h hall, hkeep⟩

/-- Each record's last acknowledged put is its own item, or it was not acknowledged and the
table holds its item already. -/
def Settled (cfg : StoreConfig ρ) (env : Env) (rs : List ρ) (t : Tokens) : Prop :=
  ∀ r ∈ rs, FMap.lastPut (acked cfg env rs) (cfg.recordKey r) = some (putOf cfg r).2 ∨
    (cfg.recordKey r ∉ (acked cfg env rs).map Prod.fst ∧ t.lookup (cfg.recordKey r) = some (putOf cfg r).2)

instance decidableSettled (t : Tokens) : Decidable (Settled cfg env rs t) :=
  inferInstanceAs (Decidable (∀ r ∈ rs, _ ∨ (_ ∧ _)))

/-- Everything acknowledged is in the table already. -/
def NothingNew (cfg : StoreConfig ρ) (env : Env) (rs : List ρ) (t : Tokens) : Prop :=
  ∀ k ∈ (acked cfg env rs).map Prod.fst, FMap.lastPut (acked cfg env rs) k = t.lookup k

instance decidableNothingNew (t : Tokens) : Decidable (NothingNew cfg env rs t) :=
  inferInstanceAs (Decidable (∀ k ∈ (acked cfg env rs).map Prod.fst, _ = _))

/-- The record's item is under its key. -/
def Present (cfg : StoreConfig ρ) (t : Tokens) (r : ρ) : Prop := t.lookup (cfg.recordKey r) = some (putOf cfg r).2

/-- **DynamoDB, all or nothing.** With whatever replies the service gives: the answer is honest
exactly when no call is refused and every record is settled, or some call is refused and
nothing new was acknowledged before it. -/
theorem honest_iff : Honest rs ((insertTokens cfg env rs db).1 = .ok ()) db.tokens (insertTokens cfg env rs db).2.tokens
      (Present cfg (insertTokens cfg env rs db).2.tokens) ↔
    (AllCarriedOut cfg env rs ∧ Settled cfg env rs db.tokens) ∨
      (¬ AllCarriedOut cfg env rs ∧ NothingNew cfg env rs db.tokens) := by
  have hpresent : (∀ r ∈ rs, Present cfg (insertTokens cfg env rs db).2.tokens r) ↔
      Settled cfg env rs db.tokens := by
    refine forall₂_congr fun r hr => ?_
    rw [Present, insertTokens_eq]
    simp only [FMap.lookup_putAll, Option.or_eq_some_iff, FMap.lastPut_eq_none_iff]
  have hsame : (insertTokens cfg env rs db).2.tokens = db.tokens ↔ NothingNew cfg env rs db.tokens := by
    rw [insertTokens_eq]
    constructor
    · intro h k hk
      obtain ⟨item, hitem⟩ := Option.ne_none_iff_exists'.1 fun hn => FMap.lastPut_eq_none_iff.1 hn hk
      have := congrArg (Finmap.lookup k) h
      simp only [FMap.lookup_putAll, hitem, Option.some_or] at this
      rw [hitem, this]
    · intro h
      refine Finmap.ext_lookup fun k => ?_
      simp only [FMap.lookup_putAll]
      by_cases hk : k ∈ (acked cfg env rs).map Prod.fst
      · rw [h k hk]
        cases db.tokens.lookup k <;> rfl
      · rw [FMap.lastPut_eq_none_iff.2 hk, Option.none_or]
  rw [Honest, insertTokens_ok_iff, hpresent, hsame]
  by_cases hall : AllCarriedOut cfg env rs <;> simp [hall]

end Dynamo

/-! ## FoundationDB -/

namespace Fdb

variable {rs : List ρ} {db : Db}

theorem insertTokens_ok_iff : (insertTokens cfg rs db).1 = .ok () ↔ NewKeys cfg rs (seals db.tokens) := by
  have hkeys : (rs.map (entryOf cfg)).map Prod.fst = rs.map cfg.recordKey := by
    rw [List.map_map]
    rfl
  unfold insertTokens NewKeys
  rw [← hkeys]
  split
  · rename_i t ht
    exact ⟨fun _ => ((insertDocs_ok_iff _).1 ht).1, fun _ => rfl⟩
  · rename_i e he
    simp only [reduceCtorEq, false_iff]
    intro hf
    rw [(insertDocs_ok_iff _).2 ⟨hf, rfl⟩] at he
    cases he

theorem insertTokens_tokens : (insertTokens cfg rs db).2.tokens =
    if (insertTokens cfg rs db).1 = .ok () then FMap.putAll db.tokens (rs.map (entryOf cfg)) else db.tokens := by
  unfold insertTokens
  split
  · rename_i t ht
    simp [((insertDocs_ok_iff _).1 ht).2]
  · simp

/-- **FoundationDB, existing keys.** They are refused and kept. -/
theorem noOverwrite (rs : List ρ) (db : Db) :
    NoOverwrite cfg rs ((insertTokens cfg rs db).1 = .ok ()) db.tokens (insertTokens cfg rs db).2.tokens := by
  have hnew : (insertTokens cfg rs db).1 = .ok () → (rs.map cfg.recordKey).Nodup ∧
      ∀ r ∈ rs, cfg.recordKey r ∉ db.tokens := by
    intro h
    have := insertTokens_ok_iff.1 h
    simpa only [NewKeys, Seals.Fresh, List.forall_mem_map, seals_eq_none] using this
  refine ⟨hnew, fun k hk => ?_⟩
  rw [insertTokens_tokens]
  split
  · rename_i hok
    refine FMap.lookup_putAll_of_notMem (fun hm => ?_) _
    rw [List.map_map] at hm
    obtain ⟨r, hr, rfl⟩ := List.mem_map.1 hm
    exact (hnew hok).2 r hr hk
  · rfl

end Fdb

/-! ## Both halves together -/

/-- **Honest answers.** For every store state, every batch and every behaviour of the service:
when the answer of `insert_tokens` on Redis and on DynamoDB tells what happened. -/
theorem honest_insert_iff (cfg : StoreConfig ρ) (rs : List ρ) (r : Redis.Db) (env : Dynamo.Env) (d : Dynamo.Db) :
    (Honest rs ((Redis.insertTokens cfg rs r).1 = .ok ()) r.tokens (Redis.insertTokens cfg rs r).2.tokens
        (Redis.Present cfg (Redis.insertTokens cfg rs r).2.tokens) ↔
      (∀ x ∈ rs, Redis.Claimed r.tokens (cfg.recordKey x)) ∨
        ((rs.map cfg.recordKey).Nodup ∧ ∀ x ∈ rs, ¬ Redis.Claimed r.tokens (cfg.recordKey x))) ∧
    (Honest rs ((Dynamo.insertTokens cfg env rs d).1 = .ok ()) d.tokens (Dynamo.insertTokens cfg env rs d).2.tokens
        (Dynamo.Present cfg (Dynamo.insertTokens cfg env rs d).2.tokens) ↔
      (Dynamo.AllCarriedOut cfg env rs ∧ Dynamo.Settled cfg env rs d.tokens) ∨
        (¬ Dynamo.AllCarriedOut cfg env rs ∧ Dynamo.NothingNew cfg env rs d.tokens)) :=
  ⟨Redis.honest_iff, Dynamo.honest_iff⟩

end

open Redis.Sample

/-- Redis refuses a batch with one taken key after inserting the other record; DynamoDB answers
`Ok` for a record the service returned as unprocessed, and `Err` for a second chunk that failed
after the first was written. -/
theorem dishonest_inserts :
    ((Redis.insertTokens cfg [record 'b' 5 none, record 'a' 3 none] (Redis.dbOf cfg [record 'a' 3 none])).1 =
        .error ("token already exists: " ++ (record 'a' 3 none).publicHash) ∧
      cfg.recordKey (record 'b' 5 none) ∉ (Redis.dbOf cfg [record 'a' 3 none]).tokens ∧
      cfg.recordKey (record 'b' 5 none) ∈
        (Redis.insertTokens cfg [record 'b' 5 none, record 'a' 3 none]
          (Redis.dbOf cfg [record 'a' 3 none])).2.tokens) ∧
    ((Dynamo.insertTokens cfg ⟨[.done [cfg.recordKey (record 'a' 3 none)]], []⟩ [record 'a' 3 none] .empty).1 =
      .ok () ∧
      cfg.recordKey (record 'a' 3 none) ∉
        (Dynamo.insertTokens cfg ⟨[.done [cfg.recordKey (record 'a' 3 none)]],
          []⟩ [record 'a' 3 none] .empty).2.tokens) ∧
    ((Dynamo.insertTokens cfg ⟨[.done [], .failed], []⟩
      ("abcdefghijklmnopqrstuvwxyz".toList.map (record · 1 none)) .empty).1 =
        .error ("batch insert: " ++ cfg.serviceError) ∧
      cfg.recordKey (record 'a' 1 none) ∈ (Dynamo.insertTokens cfg ⟨[.done [], .failed], []⟩
        ("abcdefghijklmnopqrstuvwxyz".toList.map (record · 1 none)) .empty).2.tokens) := by
  decide +kernel

end Webycash
