import Webycash.Asset.Assets
import Webycash.Lib.Machine
import Webycash.Storage.Insert
import Webycash.Storage.RedisFdb
import Webycash.Storage.RoundTrip
/-!
# When the Redis cache is transparent

The cache is coherent while every HASH in Redis holds the fields of the record FoundationDB has
under the same key. `insert_tokens`, `batch_replace` and the reads keep that as long as no
`insert_tokens` on Redis stops between its two pipelines; a replace or a burn breaks it for every
key it spends that is cached, since nothing invalidates. `cache_transparent_of_runs`: along every
sequence of calls that meet `KeepsCache`, the answers are those of `FdbStore` alone.
-/

namespace Webycash

/-- A store whose records read back, `RoundTrip`. -/
structure FaithfulStore (ρ : Type) extends StoreConfig ρ where
  Clock : DateTime → Prop
  Valid : ρ → Prop
  roundTrip : RoundTrip codec chrono Clock Valid

namespace RedisFdb

section

variable {ρ : Type} (cfg : StoreConfig ρ)

/-- FoundationDB has the record under its key. -/
def Held (t : Fdb.Tokens) (r : ρ) : Prop :=
  ∃ doc, t.lookup (cfg.recordKey r) = some doc ∧ cfg.codec.fromJson doc = some r

/-- Every HASH holds the fields of the record FoundationDB has under the same key. -/
def Mirrors (t : Fdb.Tokens) (cache : Redis.Tokens) : Prop :=
  ∀ k f, cache.lookup k = some f → ∃ r, cfg.recordKey r = k ∧ Held cfg t r ∧ f = cfg.codec.fieldMap r

/-- Every document reads as a valid record of the key it is under. -/
def Readable (Valid : ρ → Prop) (t : Fdb.Tokens) : Prop :=
  ∀ k doc, t.lookup k = some doc → ∃ r, cfg.codec.fromJson doc = some r ∧ cfg.recordKey r = k ∧ Valid r

/-- No record is left with its amount alone: a failed first pipeline has met only taken keys, a
failed second one has reached every new record. -/
def Whole (records : List ρ) (redis : Redis.Db) : InsertFault → Prop
  | .none => True
  | .claim mask => ∀ r ∈ Redis.created mask records, Redis.Claimed redis.tokens (cfg.recordKey r)
  | .fill mask => Redis.created mask (Redis.created (Redis.claim cfg records redis.tokens).1 records) =
      Redis.created (Redis.claim cfg records redis.tokens).1 records

variable {cfg} {t t' : Fdb.Tokens} {cache : Redis.Tokens} {records : List ρ} {redis : Redis.Db}

theorem Mirrors.mem (h : Mirrors cfg t cache) {k : String} (hk : k ∈ cache) : k ∈ t := by
  obtain ⟨f, hf⟩ := Option.isSome_iff_exists.1 (Finmap.lookup_isSome.2 hk)
  obtain ⟨r, rfl, ⟨doc, hdoc, -⟩, -⟩ := h k f hf
  exact Finmap.lookup_isSome.1 (by rw [hdoc]; rfl)

/-- The mirror lasts as long as the documents under the cached keys do. -/
theorem Mirrors.of_agree (h : Mirrors cfg t cache) (hagree : ∀ k ∈ cache, t'.lookup k = t.lookup k) :
    Mirrors cfg t' cache := by
  intro k f hf
  obtain ⟨r, rfl, ⟨doc, hdoc, hread⟩, hfields⟩ := h k f hf
  have hk : cfg.recordKey r ∈ cache := Finmap.lookup_isSome.1 (by rw [hf]; rfl)
  exact ⟨r, rfl, ⟨doc, by rw [hagree _ hk, hdoc], hread⟩, hfields⟩

/-- In a mirror a key is taken when it is there. -/
theorem Mirrors.claimed (h : Mirrors cfg t cache) {k : String} (hk : k ∈ cache) : Redis.Claimed cache k := by
  obtain ⟨f, hf⟩ := Option.isSome_iff_exists.1 (Finmap.lookup_isSome.2 hk)
  obtain ⟨r, -, -, rfl⟩ := h k f hf
  simp [Redis.Claimed, Redis.hget, hf, cfg.codec.lookup_amount]

/-- A whole insert has been carried out, or has done nothing. -/
theorem cacheInsert_whole {fault : InsertFault} (h : Whole cfg records redis fault) :
    cacheInsert cfg records redis fault = (Redis.insertTokens cfg records redis).2 ∨
      cacheInsert cfg records redis fault = redis := by
  cases fault with
  | none => exact Or.inl rfl
  | claim mask =>
    refine Or.inr ?_
    show { redis with tokens := (Redis.claim cfg (Redis.created mask records) redis.tokens).2 } = redis
    rw [Redis.claim_eq_self_iff.2 h]
  | fill mask =>
    refine Or.inl ?_
    cases records with
    | nil =>
      show { redis with tokens := (Redis.fill cfg (Redis.created mask (Redis.created [] [])) redis.tokens).2 } = redis
      simp [Redis.created, Redis.fill]
    | cons r rs =>
      let claimed := Redis.claim cfg (r :: rs) redis.tokens
      show { redis with
        tokens := (Redis.fill cfg (Redis.created mask (Redis.created claimed.1 (r :: rs))) claimed.2).2 } = _
      rw [h]
      rfl

/-- **Mirroring held records** keeps the mirror. -/
theorem Mirrors.cacheInsert {fault : InsertFault} (h : Mirrors cfg t redis.tokens)
    (hheld : ∀ r ∈ records, Held cfg t r)
    (hwhole : Whole cfg records redis fault) : Mirrors cfg t (cacheInsert cfg records redis fault).tokens := by
  rcases cacheInsert_whole hwhole with he | he
  · obtain ⟨c, hsub, hnd, hun, -, hdb, -⟩ := Redis.insertTokens_spec cfg records redis
    rw [he, hdb]
    intro k f hf
    by_cases hk : k ∈ (c.map (Redis.overlay cfg redis.tokens)).map Prod.fst
    · rw [Redis.overlay_keys] at hk
      obtain ⟨r, hr, rfl⟩ := List.mem_map.1 hk
      have hput : (Redis.overlay cfg redis.tokens r) ∈ c.map (Redis.overlay cfg redis.tokens) :=
        List.mem_map.2 ⟨r, hr, rfl⟩
      have hlook : (FMap.putAll redis.tokens (c.map (Redis.overlay cfg redis.tokens))).lookup (cfg.recordKey r) =
          some (Redis.overlay cfg redis.tokens r).2 :=
        FMap.lookup_putAll_of_mem (by rw [Redis.overlay_keys]; exact hnd) hput _
      have hfree : cfg.recordKey r ∉ redis.tokens := fun hmem => hun r hr (h.claimed hmem)
      refine ⟨r, rfl, hheld r (hsub.subset hr), ?_⟩
      rw [hlook, Option.some.injEq] at hf
      rw [← hf, Redis.overlay, Redis.hgetall_of_notMem hfree]
      rfl
    · rw [FMap.lookup_putAll_of_notMem hk] at hf
      exact h k f hf
  · rw [he]
    exact h

theorem cacheInsert_mining (fault : InsertFault) : (cacheInsert cfg records redis fault).mining = redis.mining := by
  cases fault with
  | none =>
    show (Redis.insertTokens cfg records redis).2.mining = redis.mining
    cases records <;> rfl
  | claim mask => rfl
  | fill mask => rfl

end

/-! ## What the calls do to FoundationDB -/

section

variable {ρ : Type} (cfg : StoreConfig ρ) (now : DateTime) (ns : Namespace)

/-- The ops that go through spend no cached key, the outputs of earlier ones included. -/
def UncachedSpends : List (ReplaceOp ρ) → Fdb.Db → Finset String → Prop
  | [], _, _ => True
  | op :: ops, db, cached =>
    if (Fdb.seals db.tokens).Accepts (inputKeys cfg ns op) (Fdb.ownKeys cfg op) then
      (∀ k ∈ inputKeys cfg ns op, k ∉ cached) ∧
        UncachedSpends ops (Fdb.execReplace cfg now ns op db).2 (cached ∪ (Fdb.ownKeys cfg op).toFinset)
    else UncachedSpends ops db cached

/-- The burns that go through spend no cached key. -/
def UncachedBurns : List (String × BurnRecord) → Fdb.Db → Finset String → Prop
  | [], _, _ => True
  | (hash, record) :: ops, db, cached => Fdb.seals db.tokens (cfg.tokenKey ns hash) = some false →
      cfg.tokenKey ns hash ∉ cached ∧ UncachedBurns ops (Fdb.execBurn cfg now ns hash record db).2 cached

/-- No insert of the mirroring loop stops half-way. -/
def WholeMirror : List (ReplaceOp ρ × ReplaceResult) → List InsertFault → Redis.Db → Prop
  | [], _, _ => True
  | (op, .ok) :: rest, faults, redis => Whole cfg op.outputs redis (faults.headD .none) ∧
      WholeMirror rest faults.tail (cacheInsert cfg op.outputs redis (faults.headD .none))
  | (_, .failed _) :: rest, faults, redis => WholeMirror rest faults redis

end

section

variable {ρ : Type} {F : FaithfulStore ρ} {now : DateTime} {ns : Namespace} {db : Fdb.Db} {t : Fdb.Tokens}

/-- New documents of valid records are readable. -/
theorem Readable.putAll (h : Readable F.toStoreConfig F.Valid t) {rs : List ρ} (hnd : (rs.map F.recordKey).Nodup)
    (hvalid : ∀ r ∈ rs, F.Valid r) :
    Readable F.toStoreConfig F.Valid (FMap.putAll t (rs.map (Fdb.entryOf F.toStoreConfig))) ∧
      ∀ r ∈ rs, Held F.toStoreConfig (FMap.putAll t (rs.map (Fdb.entryOf F.toStoreConfig))) r := by
  have hkeys : (rs.map (Fdb.entryOf F.toStoreConfig)).map Prod.fst = rs.map F.recordKey := by
    rw [List.map_map]
    rfl
  have hlook : ∀ r ∈ rs, (FMap.putAll t (rs.map (Fdb.entryOf F.toStoreConfig))).lookup (F.recordKey r) =
      some (F.codec.toJson r) := fun r hr => by
    have hmem : (F.recordKey r, F.codec.toJson r) ∈ rs.map (Fdb.entryOf F.toStoreConfig) :=
      List.mem_map.2 ⟨r, hr, rfl⟩
    exact FMap.lookup_putAll_of_mem (hkeys ▸ hnd) hmem t
  refine ⟨fun k doc hdoc => ?_, fun r hr => ⟨_, hlook r hr, F.roundTrip.json (hvalid r hr)⟩⟩
  by_cases hk : k ∈ rs.map F.recordKey
  · obtain ⟨r, hr, rfl⟩ := List.mem_map.1 hk
    rw [hlook r hr, Option.some.injEq] at hdoc
    exact ⟨r, hdoc ▸ F.roundTrip.json (hvalid r hr), rfl, hvalid r hr⟩
  · rw [FMap.lookup_putAll_of_notMem (hkeys ▸ hk)] at hdoc
    exact h k doc hdoc

/-- A marked document is readable. -/
theorem Readable.spend (h : Readable F.toStoreConfig F.Valid t) (hnow : F.Clock now) {k : String} {doc : Doc}
    (hdoc : t.lookup k = some doc) : ∃ r, F.codec.fromJson (Fdb.spendDoc (F.chrono.toRfc3339 now) doc) = some r ∧
      F.recordKey r = k ∧ F.Valid r := by
  obtain ⟨r, hread, rfl, hvalid⟩ := h k doc hdoc
  obtain ⟨r', hread', hvalid', hhash, hns⟩ := F.roundTrip.spend hnow hvalid hread
  exact ⟨r', hread', by rw [StoreConfig.recordKey, hhash, hns]; rfl, hvalid'⟩

/-- **One replace that goes through.** -/
theorem readable_execReplace {op : ReplaceOp ρ} (h : Readable F.toStoreConfig F.Valid db.tokens) (hnow : F.Clock now)
    (hvalid : ∀ o ∈ op.outputs, F.Valid o)
    (hacc : (Fdb.seals db.tokens).Accepts (inputKeys F.toStoreConfig ns op) (Fdb.ownKeys F.toStoreConfig op)) :
    Readable F.toStoreConfig F.Valid (Fdb.execReplace F.toStoreConfig now ns op db).2.tokens ∧
      (∀ o ∈ op.outputs, Held F.toStoreConfig (Fdb.execReplace F.toStoreConfig now ns op db).2.tokens o) ∧
      ∀ k ∈ db.tokens, k ∉ inputKeys F.toStoreConfig ns op →
        (Fdb.execReplace F.toStoreConfig now ns op db).2.tokens.lookup k = db.tokens.lookup k := by
  obtain ⟨hnd, hopen, hfresh⟩ := hacc
  rw [Fdb.execReplace_tokens (Fdb.execReplace_ok_iff.2 ⟨hnd, hopen, hfresh⟩)]
  have hmarked : Readable F.toStoreConfig F.Valid
      (Fdb.spendAll (F.chrono.toRfc3339 now) db.tokens (inputKeys F.toStoreConfig ns op)) := by
    intro k doc hdoc
    rw [Fdb.lookup_spendAll _ _ _ _ hnd] at hdoc
    split at hdoc
    · rename_i hk
      obtain ⟨old, hold, -⟩ := Option.map_eq_some_iff.1 (hopen k hk)
      rw [hold, Option.getD_some, Option.some.injEq] at hdoc
      exact hdoc ▸ h.spend hnow hold
    · exact h k doc hdoc
  obtain ⟨hread, hheld⟩ := hmarked.putAll hfresh.1 hvalid
  refine ⟨hread, hheld, fun k hk hin => ?_⟩
  have hout : k ∉ Fdb.ownKeys F.toStoreConfig op := fun hout => Fdb.seals_eq_none.1 (hfresh.2 k hout) hk
  rw [FMap.lookup_putAll_of_notMem (by rwa [Fdb.entries_keys]), Fdb.lookup_spendAll _ _ _ _ hnd, if_neg hin]

/-- **A batch of replaces** that spends no cached key leaves the documents under the cached keys
alone, and holds every output it has accepted. -/
theorem readable_batchReplace (hnow : F.Clock now) :
    ∀ {ops : List (ReplaceOp ρ)} {db : Fdb.Db} {cached : Finset String},
    Readable F.toStoreConfig F.Valid db.tokens → (∀ op ∈ ops, ∀ o ∈ op.outputs, F.Valid o) →
      (∀ k ∈ cached, k ∈ db.tokens) →
    UncachedSpends F.toStoreConfig now ns ops db cached →
    Readable F.toStoreConfig F.Valid (Fdb.batchReplace F.toStoreConfig now ns ops db).2.tokens ∧
      (∀ op, (op, .ok) ∈ ops.zip (Fdb.batchReplace F.toStoreConfig now ns ops db).1 → ∀ o ∈ op.outputs,
        Held F.toStoreConfig (Fdb.batchReplace F.toStoreConfig now ns ops db).2.tokens o) ∧
      ∀ k ∈ cached, (Fdb.batchReplace F.toStoreConfig now ns ops db).2.tokens.lookup k = db.tokens.lookup k
  | [], db, cached, hread, _, _, _ => ⟨hread, by simp, fun _ _ => rfl⟩
  | op :: ops, db, cached, hread, hvalid, hcached, hspends => by
    have hvalid' : ∀ op' ∈ ops, ∀ o ∈ op'.outputs, F.Valid o := fun op' h' =>
      hvalid op' (List.mem_cons_of_mem _ h')
    have hbatch : Fdb.batchReplace F.toStoreConfig now ns (op :: ops) db =
        (ReplaceResult.ofExcept (Fdb.execReplace F.toStoreConfig now ns op db).1 ::
          (Fdb.batchReplace F.toStoreConfig now ns ops (Fdb.execReplace F.toStoreConfig now ns op db).2).1,
        (Fdb.batchReplace F.toStoreConfig now ns ops (Fdb.execReplace F.toStoreConfig now ns op db).2).2) := rfl
    rw [hbatch, List.zip_cons_cons]
    unfold UncachedSpends at hspends
    by_cases hacc : (Fdb.seals db.tokens).Accepts (inputKeys F.toStoreConfig ns op) (Fdb.ownKeys F.toStoreConfig op)
    · rw [if_pos hacc] at hspends
      obtain ⟨hread₁, hheld, hframe⟩ := readable_execReplace hread hnow (hvalid op List.mem_cons_self) hacc
      have hcached₁ : ∀ k ∈ cached ∪ (Fdb.ownKeys F.toStoreConfig op).toFinset,
          k ∈ (Fdb.execReplace F.toStoreConfig now ns op db).2.tokens := by
        intro k hk
        rcases Finset.mem_union.1 hk with hk | hk
        · have hsome := Finmap.lookup_isSome.2 (hcached k hk)
          rw [← hframe k (hcached k hk) fun hin => hspends.1 k hin hk] at hsome
          exact Finmap.lookup_isSome.1 hsome
        · obtain ⟨o, ho, rfl⟩ := List.mem_map.1 (List.mem_toFinset.1 hk)
          obtain ⟨doc, hdoc, -⟩ := hheld o ho
          exact Finmap.lookup_isSome.1 (by rw [hdoc]; rfl)
      obtain ⟨hread₂, hheld₂, hframe₂⟩ := readable_batchReplace hnow hread₁ hvalid' hcached₁ hspends.2
      refine ⟨hread₂, fun op' hop' o ho => ?_, fun k hk => ?_⟩
      · rcases List.mem_cons.1 hop' with he | hop'
        · obtain rfl : op' = op := congrArg Prod.fst he
          obtain ⟨doc, hdoc, hjson⟩ := hheld o ho
          refine ⟨doc, ?_, hjson⟩
          rw [hframe₂ _ (Finset.mem_union_right _ (List.mem_toFinset.2 (List.mem_map.2 ⟨o, ho, rfl⟩)))]
          exact hdoc
        · exact hheld₂ op' hop' o ho
      · rw [hframe₂ k (Finset.mem_union_left _ hk)]
        exact hframe k (hcached k hk) fun hin => hspends.1 k hin hk
    · rw [if_neg hacc] at hspends
      have hno : (Fdb.execReplace F.toStoreConfig now ns op db).1 ≠ .ok () := fun hok =>
        hacc (Fdb.execReplace_ok_iff.1 hok)
      have hdb := Fdb.execReplace_of_not_ok hno
      rw [hdb]
      obtain ⟨hread₂, hheld₂, hframe₂⟩ := readable_batchReplace hnow hread hvalid' hcached hspends
      refine ⟨hread₂, fun op' hop' o ho => ?_, hframe₂⟩
      rcases List.mem_cons.1 hop' with he | hop'
      · have hres := congrArg Prod.snd he
        exact absurd (ReplaceResult.ofExcept_eq_ok.1 (congrArg (fun x => [x]) hres.symm)) hno
      · exact hheld₂ op' hop' o ho

/-- **A batch of burns.** -/
theorem readable_batchBurn (hnow : F.Clock now) :
    ∀ {ops : List (String × BurnRecord)} {db : Fdb.Db} {cached : Finset String},
    Readable F.toStoreConfig F.Valid db.tokens → UncachedBurns F.toStoreConfig now ns ops db cached →
    Readable F.toStoreConfig F.Valid (Fdb.batchBurn F.toStoreConfig now ns ops db).2.tokens ∧
      ∀ k ∈ cached, (Fdb.batchBurn F.toStoreConfig now ns ops db).2.tokens.lookup k = db.tokens.lookup k
  | [], db, cached, hread, _ => ⟨hread, fun _ _ => rfl⟩
  | (hash, record) :: ops, db, cached, hread, hburns => by
    rcases Fdb.burn_cases F.toStoreConfig now ns hash record db with ⟨-, e, he⟩ | ⟨hopen, doc, hlook, he⟩
    · rw [Fdb.batchBurn, he]
      exact ⟨hread, fun _ _ => rfl⟩
    · obtain ⟨hfree, hrest⟩ := hburns hopen
      rw [Fdb.batchBurn, he]
      rw [he] at hrest
      have hread₁ : Readable F.toStoreConfig F.Valid
          (db.tokens.insert (F.tokenKey ns hash) (Fdb.spendDoc (F.chrono.toRfc3339 now) doc)) := by
        intro k d hd
        rw [FMap.lookup_insert_ite] at hd
        split at hd
        · rename_i hk
          rw [Option.some.injEq] at hd
          exact hk ▸ hd ▸ hread.spend hnow hlook
        · exact hread k d hd
      obtain ⟨hread₂, hframe⟩ := readable_batchBurn hnow hread₁ hrest
      refine ⟨hread₂, fun k hk => ?_⟩
      have hne : k ≠ F.tokenKey ns hash := fun he => hfree (he ▸ hk)
      rw [hframe k hk, Finmap.lookup_insert_of_ne _ hne]

end

/-! ## Coherence -/

section

variable {ρ : Type} (F : FaithfulStore ρ)

/-- The cache says nothing FoundationDB does not say. -/
structure Coherent (db : Db) : Prop where
  readable : Readable F.toStoreConfig F.Valid db.fdb.tokens
  mirrors : Mirrors F.toStoreConfig db.fdb.tokens db.redis.tokens
  mining : ∀ state, db.redis.mining.lookup (F.keys.miningStateKey F.name) = some state →
    db.fdb.mining.lookup (F.keys.miningStateKey F.name) = some state

/-- The records a read would warm the cache with. -/
def warmed (ns : Namespace) (hashes : List String) (db : Db) : List ρ :=
  match Fdb.getTokens F.toStoreConfig ns hashes db.fdb with
  | .ok found => found.reduceOption
  | .error _ => []

/-- The calls that keep the cache coherent. Records and clock are such that they can be written
and read back. No insert on Redis stops half-way. A read asks for records by their own hash. A
replace or burn spends no key that is cached. A failed `SET` of the mining state finds none cached
but the same one. -/
def KeepsCache (c : CacheCall ρ) (db : Db) : Prop :=
  match c.call with
  | .insertTokens records =>
    (∀ r ∈ records, F.Valid r) ∧ (NewKeys F.toStoreConfig records (Fdb.seals db.fdb.tokens) →
      Whole F.toStoreConfig records db.redis (c.faults.inserts.headD .none))
  | .getTokens ns hashes =>
    (∀ h ∈ hashes, ∀ r, F.recordKey r = F.tokenKey ns h → Held F.toStoreConfig db.fdb.tokens r →
      F.codec.publicHash r = h) ∧
      (¬ CacheHit F.toStoreConfig c.now c.faults ns hashes db →
        Whole F.toStoreConfig (warmed F ns hashes db) db.redis (c.faults.inserts.headD .none))
  | .checkTokens _ _ => True
  | .batchReplace ns ops => F.Clock c.now ∧ (∀ op ∈ ops, ∀ o ∈ op.outputs, F.Valid o) ∧
      UncachedSpends F.toStoreConfig c.now ns ops db.fdb db.redis.tokens.keys ∧
      WholeMirror F.toStoreConfig (ops.zip (Fdb.batchReplace F.toStoreConfig c.now ns ops db.fdb).1)
        c.faults.inserts db.redis
  | .batchBurn ns ops => F.Clock c.now ∧ UncachedBurns F.toStoreConfig c.now ns ops db.fdb db.redis.tokens.keys
  | .getMiningState => True
  | .updateMiningState state => c.faults.update = some false →
      ∀ old, db.redis.mining.lookup (F.keys.miningStateKey F.name) = some old → old = state

variable {F} {db : Db} {c : CacheCall ρ}

theorem coherent_empty : Coherent F .empty := by
  refine ⟨fun k doc h => ?_, fun k f h => ?_, fun state h => ?_⟩
  · simp [Db.empty, Fdb.Db.empty] at h
  · simp [Db.empty, Redis.Db.empty] at h
  · simp [Db.empty, Redis.Db.empty] at h

/-! ### Reads -/

theorem mapM_ok {α β : Type} {g : α → Except String β} {f : α → β} :
    ∀ {l : List α}, (∀ a ∈ l, g a = .ok (f a)) →
    l.mapM g = .ok (l.map f)
  | [], _ => rfl
  | a :: l, h => by
    rw [List.mapM_cons, h a List.mem_cons_self, mapM_ok fun x hx => h x (List.mem_cons_of_mem _ hx)]
    rfl

/-- What FoundationDB answers for a key. -/
theorem getJson_coherent (h : Coherent F db) (k : String) :
    (db.fdb.tokens.lookup k = none ∧ Fdb.getJson F.toStoreConfig db.fdb.tokens k = .ok none) ∨
    ∃ r, F.recordKey r = k ∧ F.Valid r ∧ Held F.toStoreConfig db.fdb.tokens r ∧
      Fdb.getJson F.toStoreConfig db.fdb.tokens k = .ok (some r) := by
  cases hdoc : db.fdb.tokens.lookup k with
  | none => exact Or.inl ⟨rfl, by rw [Fdb.getJson, hdoc]⟩
  | some doc =>
    obtain ⟨r, hread, rfl, hvalid⟩ := h.readable k doc hdoc
    exact Or.inr ⟨r, rfl, hvalid, ⟨doc, hdoc, hread⟩, by simp only [Fdb.getJson, hdoc, hread]⟩

/-- **A cached record is the one FoundationDB has.** -/
theorem cached_eq (h : Coherent F db) {ns : Namespace} {x : String}
    (hname : ∀ r, F.recordKey r = F.tokenKey ns x → Held F.toStoreConfig db.fdb.tokens r →
      F.codec.publicHash r = x)
    (now : DateTime) {fields : Fields} (hf : db.redis.tokens.lookup (F.tokenKey ns x) = some fields) :
    ∃ r, F.codec.fromFields now x fields = some r ∧
      Fdb.getJson F.toStoreConfig db.fdb.tokens (F.tokenKey ns x) = .ok (some r) := by
  obtain ⟨r, hkey, hheld, rfl⟩ := h.mirrors _ _ hf
  obtain ⟨doc, hdoc, hread⟩ := hheld
  obtain ⟨r', hread', -, hvalid⟩ := h.readable _ _ hdoc
  obtain rfl : r = r' := Option.some.inj (hread.symm.trans hread')
  refine ⟨r, ?_, ?_⟩
  · rw [← hname r hkey ⟨doc, hdoc, hread⟩]
    exact F.roundTrip.fields hvalid now
  · rw [← hkey]
    simp only [Fdb.getJson, hdoc, hread]

theorem getTokens_hit (h : Coherent F db) {now : DateTime} {faults : CacheFaults} {ns : Namespace}
    {hashes : List String}
    (hname : ∀ x ∈ hashes, ∀ r, F.recordKey r = F.tokenKey ns x → Held F.toStoreConfig db.fdb.tokens r →
      F.codec.publicHash r = x)
    (hit : CacheHit F.toStoreConfig now faults ns hashes db) :
    Fdb.getTokens F.toStoreConfig ns hashes db.fdb = .ok (cachedTokens F.toStoreConfig now faults ns hashes db) := by
  obtain ⟨hall, hlen⟩ := hit
  cases hread : faults.read with
  | true =>
    have hnil : cachedTokens F.toStoreConfig now faults ns hashes db = [] := by simp [cachedTokens, hread]
    rw [hnil] at hlen ⊢
    rw [List.eq_nil_of_length_eq_zero hlen.symm]
    rfl
  | false =>
    have hcached : cachedTokens F.toStoreConfig now faults ns hashes db = hashes.map fun x =>
        if Redis.hgetall db.redis.tokens (F.tokenKey ns x) = ∅ then none
        else F.codec.fromFields now x (Redis.hgetall db.redis.tokens (F.tokenKey ns x)) := by
      simp [cachedTokens, hread, Redis.getTokens]
    rw [hcached] at hall ⊢
    refine mapM_ok fun x hx => ?_
    have hsome := hall _ (List.mem_map.2 ⟨x, hx, rfl⟩)
    cases hf : db.redis.tokens.lookup (F.tokenKey ns x) with
    | none => simp [Redis.hgetall, hf] at hsome
    | some fields =>
      obtain ⟨r, hr, hjson⟩ := cached_eq h (hname x hx) now hf
      have hget : Redis.hgetall db.redis.tokens (F.tokenKey ns x) = fields := by simp [Redis.hgetall, hf]
      rw [hget] at hsome ⊢
      by_cases he : fields = ∅
      · rw [if_pos he] at hsome
        cases hsome
      · rw [if_neg he, hr, hjson]

/-- FoundationDB answers every read of a coherent store with records it holds. -/
theorem getTokens_coherent (h : Coherent F db) (ns : Namespace) (hashes : List String) :
    ∃ found, Fdb.getTokens F.toStoreConfig ns hashes db.fdb = .ok found ∧
      ∀ r ∈ found.reduceOption, Held F.toStoreConfig db.fdb.tokens r := by
  have heach : ∀ x, ∃ o : Option ρ, Fdb.getJson F.toStoreConfig db.fdb.tokens (F.tokenKey ns x) = .ok o ∧
      ∀ r, o = some r → Held F.toStoreConfig db.fdb.tokens r := by
    intro x
    rcases getJson_coherent h (F.tokenKey ns x) with ⟨-, hjson⟩ | ⟨r, -, -, hheld, hjson⟩
    · exact ⟨none, hjson, by simp⟩
    · refine ⟨some r, hjson, fun r' hr' => ?_⟩
      cases hr'
      exact hheld
  choose f hjson hheld using heach
  refine ⟨hashes.map f, mapM_ok fun x _ => hjson x, fun r hr => ?_⟩
  obtain ⟨o, ho, hor⟩ := List.mem_filterMap.1 hr
  obtain ⟨x, -, rfl⟩ := List.mem_map.1 ho
  exact hheld x r hor

/-! ### The calls -/

/-- The answer and the FoundationDB part are those of `FdbStore`, and the cache stays coherent. -/
def Simulated (F : FaithfulStore ρ) (c : CacheCall ρ) (db : Db) : Prop :=
  (call F.toStoreConfig c db).1 = (fdbCall F.toStoreConfig c db.fdb).1 ∧
    (call F.toStoreConfig c db).2.fdb = (fdbCall F.toStoreConfig c db.fdb).2 ∧
      Coherent F (call F.toStoreConfig c db).2

variable {now : DateTime} {faults : CacheFaults}

theorem simulated_insert {records : List ρ} (h : Coherent F db)
    (hkeep : KeepsCache F ⟨now, faults, .insertTokens records⟩ db) :
    Simulated F ⟨now, faults, .insertTokens records⟩ db := by
  obtain ⟨hvalid, hwhole⟩ := hkeep
  have hmining := Fdb.insertTokens_mining F.toStoreConfig records db.fdb
  have hiff : (Fdb.insertTokens F.toStoreConfig records db.fdb).1 = .ok () ↔ _ := Fdb.insertTokens_ok_iff
  have htokens : (Fdb.insertTokens F.toStoreConfig records db.fdb).2.tokens = _ := Fdb.insertTokens_tokens
  unfold Simulated call fdbCall
  dsimp only [Fdb.store, LedgerStore.call]
  unfold insertTokens
  generalize Fdb.insertTokens F.toStoreConfig records db.fdb = result at hmining hiff htokens ⊢
  obtain ⟨answer, fdb⟩ := result
  cases answer with
  | error e =>
    rw [if_neg (by simp)] at htokens
    dsimp only at htokens hmining
    refine ⟨rfl, rfl, ?_⟩
    exact ⟨htokens ▸ h.readable, htokens ▸ h.mirrors, hmining ▸ h.mining⟩
  | ok u =>
    have hnew := hiff.1 rfl
    rw [if_pos rfl] at htokens
    dsimp only at htokens hmining
    obtain ⟨hread, hheld⟩ := h.readable.putAll hnew.1 hvalid
    refine ⟨rfl, rfl, by rw [htokens]; exact hread, ?_, ?_⟩
    · rw [htokens]
      refine Mirrors.cacheInsert (h.mirrors.of_agree fun k hk => ?_) hheld (hwhole hnew)
      refine FMap.lookup_putAll_of_notMem (fun hmem => ?_) _
      rw [List.map_map] at hmem
      exact Fdb.seals_eq_none.1 (hnew.2 k hmem) (h.mirrors.mem hk)
    · rw [cacheInsert_mining, hmining]
      exact h.mining

theorem simulated_get {ns : Namespace} {hashes : List String} (h : Coherent F db)
    (hkeep : KeepsCache F ⟨now, faults, .getTokens ns hashes⟩ db) :
    Simulated F ⟨now, faults, .getTokens ns hashes⟩ db := by
  obtain ⟨hname, hwhole⟩ := hkeep
  unfold Simulated call fdbCall
  dsimp only [Fdb.store, LedgerStore.call]
  unfold getTokens
  by_cases hit : CacheHit F.toStoreConfig now faults ns hashes db
  · rw [if_pos hit, getTokens_hit h hname hit]
    exact ⟨rfl, rfl, h⟩
  · rw [if_neg hit]
    obtain ⟨found, hfound, hheld⟩ := getTokens_coherent h ns hashes
    have hwarm : warmed F ns hashes db = found.reduceOption := by rw [warmed, hfound]
    rw [hfound]
    dsimp only
    split
    · exact ⟨rfl, rfl, h⟩
    · refine ⟨rfl, rfl, h.readable, h.mirrors.cacheInsert hheld (hwarm ▸ hwhole hit), ?_⟩
      rw [cacheInsert_mining]
      exact h.mining

/-- The mirroring loop keeps the mirror. -/
theorem Mirrors.mirror {t : Fdb.Tokens} :
    ∀ {pairs : List (ReplaceOp ρ × ReplaceResult)} {faults : List InsertFault} {redis : Redis.Db},
    Mirrors F.toStoreConfig t redis.tokens →
    (∀ op, (op, .ok) ∈ pairs → ∀ o ∈ op.outputs, Held F.toStoreConfig t o) →
    WholeMirror F.toStoreConfig pairs faults redis →
    Mirrors F.toStoreConfig t (mirror F.toStoreConfig pairs faults redis).tokens ∧
      (mirror F.toStoreConfig pairs faults redis).mining = redis.mining
  | [], _, _, h, _, _ => ⟨h, rfl⟩
  | (op, .ok) :: pairs, faults, redis, h, hheld, hwhole => by
    have hhead := h.cacheInsert (hheld op List.mem_cons_self) hwhole.1
    obtain ⟨hmirror, hmining⟩ := Mirrors.mirror hhead
      (fun op' hop' => hheld op' (List.mem_cons_of_mem _ hop')) hwhole.2
    exact ⟨hmirror, hmining.trans (cacheInsert_mining _)⟩
  | (_, .failed _) :: pairs, faults, redis, h, hheld, hwhole => by
    have hrest : ∀ op, (op, .ok) ∈ pairs → ∀ o ∈ op.outputs, Held F.toStoreConfig t o := fun op hop =>
      hheld op (List.mem_cons_of_mem _ hop)
    have ih := Mirrors.mirror h hrest hwhole
    exact ih

theorem simulated_replace {ns : Namespace} {ops : List (ReplaceOp ρ)} (h : Coherent F db)
    (hkeep : KeepsCache F ⟨now, faults, .batchReplace ns ops⟩ db) :
    Simulated F ⟨now, faults, .batchReplace ns ops⟩ db := by
  obtain ⟨hnow, hvalid, hspends, hwhole⟩ := hkeep
  obtain ⟨hread, hheld, hframe⟩ := readable_batchReplace hnow h.readable hvalid
    (fun k hk => h.mirrors.mem (Finmap.mem_keys.1 hk)) hspends
  have hagree : Mirrors F.toStoreConfig (Fdb.batchReplace F.toStoreConfig now ns ops db.fdb).2.tokens db.redis.tokens :=
    h.mirrors.of_agree fun k hk => hframe k (Finmap.mem_keys.2 hk)
  obtain ⟨hmirror, hmining⟩ := hagree.mirror hheld hwhole
  refine ⟨rfl, rfl, hread, hmirror, fun state hstate => ?_⟩
  have hold : db.redis.mining.lookup (F.keys.miningStateKey F.name) = some state := hmining ▸ hstate
  have hsame := Fdb.batchReplace_mining F.toStoreConfig now ns ops db.fdb
  exact (congrArg (fun m : FMap String MiningState => m.lookup (F.keys.miningStateKey F.name)) hsame).trans
    (h.mining state hold)

theorem simulated_burn {ns : Namespace} {ops : List (String × BurnRecord)} (h : Coherent F db)
    (hkeep : KeepsCache F ⟨now, faults, .batchBurn ns ops⟩ db) :
    Simulated F ⟨now, faults, .batchBurn ns ops⟩ db := by
  obtain ⟨hnow, hburns⟩ := hkeep
  obtain ⟨hread, hframe⟩ := readable_batchBurn hnow h.readable hburns
  have hagree : Mirrors F.toStoreConfig (Fdb.batchBurn F.toStoreConfig now ns ops db.fdb).2.tokens db.redis.tokens :=
    h.mirrors.of_agree fun k hk => hframe k (Finmap.mem_keys.2 hk)
  refine ⟨rfl, rfl, hread, hagree, fun state hstate => ?_⟩
  have hsame := Fdb.batchBurn_mining F.toStoreConfig now ns ops db.fdb
  exact (congrArg (fun m : FMap String MiningState => m.lookup (F.keys.miningStateKey F.name)) hsame).trans
    (h.mining state hstate)

theorem simulated_getMining (h : Coherent F db) : Simulated F ⟨now, faults, .getMiningState⟩ db := by
  refine ⟨?_, rfl, h⟩
  have hanswer : getMiningState F.toStoreConfig faults db = Fdb.getMiningState F.toStoreConfig db.fdb := by
    unfold getMiningState Redis.getMiningState Fdb.getMiningState
    cases hread : faults.read with
    | true => rfl
    | false =>
      cases hstate : db.redis.mining.lookup (F.keys.miningStateKey F.name) with
      | none => rfl
      | some state =>
        rw [h.mining state hstate]
  exact congrArg StoreAnswer.mining hanswer

theorem simulated_updateMining {state : MiningState} (h : Coherent F db)
    (hkeep : KeepsCache F ⟨now, faults, .updateMiningState state⟩ db) :
    Simulated F ⟨now, faults, .updateMiningState state⟩ db := by
  have hput : ∀ m : FMap String MiningState, (m.insert (F.keys.miningStateKey F.name) state).lookup
      (F.keys.miningStateKey F.name) = some state := fun m => Finmap.lookup_insert _
  unfold Simulated call fdbCall
  dsimp only [Fdb.store, LedgerStore.call]
  unfold updateMiningState Fdb.updateMiningState
  dsimp only
  split
  · rename_i hfailed
    refine ⟨rfl, rfl, h.readable, h.mirrors, fun old hold => ?_⟩
    obtain rfl := hkeep hfailed old hold
    exact hput _
  · refine ⟨rfl, rfl, h.readable, h.mirrors, fun new hnew => ?_⟩
    have : new = state := Option.some.inj (hnew.symm.trans (hput _))
    subst this
    exact hput _

/-- **One call.** -/
theorem simulated (h : Coherent F db) (hkeep : KeepsCache F c db) : Simulated F c db := by
  obtain ⟨now, faults, q⟩ := c
  cases q with
  | insertTokens records => exact simulated_insert h hkeep
  | getTokens ns hashes => exact simulated_get h hkeep
  | checkTokens ns hashes => exact ⟨rfl, rfl, h⟩
  | batchReplace ns ops => exact simulated_replace h hkeep
  | batchBurn ns ops => exact simulated_burn h hkeep
  | getMiningState => exact simulated_getMining h
  | updateMiningState state => exact simulated_updateMining h hkeep

/-- **The cache is transparent** along every sequence of calls that keep it coherent, whatever
Redis calls fail. -/
theorem cache_transparent_of_runs (F : FaithfulStore ρ) (calls : List (CacheCall ρ))
    (h : Machine.Meets (call F.toStoreConfig) (KeepsCache F) calls .empty) :
    Machine.trace (call F.toStoreConfig) calls .empty = Machine.trace (fdbCall F.toStoreConfig) calls .empty := by
  have hsim : ∀ c (db : Db) (fdb : Fdb.Db), (db.fdb = fdb ∧ Coherent F db) → KeepsCache F c db →
      (call F.toStoreConfig c db).1 = (fdbCall F.toStoreConfig c fdb).1 ∧
        (call F.toStoreConfig c db).2.fdb = (fdbCall F.toStoreConfig c fdb).2 ∧
          Coherent F (call F.toStoreConfig c db).2 := by
    rintro c db fdb ⟨rfl, hco⟩ hkeep
    exact simulated hco hkeep
  exact Machine.trace_eq hsim ⟨rfl, coherent_empty⟩ h

end

end RedisFdb

/-! ## The flavours -/

section

variable (keys : KeyStrategy) {chrono : Codec} {json : HtlcJson} (serviceError : String) {Clock : DateTime → Prop}
  (hc : chrono.ReadsBack Clock) (hjson : json.ReadsBack)

def webcashStore : FaithfulStore WebcashRecord where
  toStoreConfig := (webcash chrono).storeConfig keys chrono serviceError
  Clock := Clock
  Valid r := TimesValid Clock r.createdAt r.spentAt
  roundTrip := webcash_roundTrip hc

def rgbFungibleStore : FaithfulStore RgbFungibleRecord where
  toStoreConfig := (rgbFungible chrono json).storeConfig keys chrono serviceError
  Clock := Clock
  Valid r := TimesValid Clock r.createdAt r.spentAt ∧ LockValid r.htlcState
  roundTrip := rgbFungible_roundTrip hc hjson

def rgbCollectibleStore : FaithfulStore RgbCollectibleRecord where
  toStoreConfig := (rgbCollectible chrono json).storeConfig keys chrono serviceError
  Clock := Clock
  Valid r := TimesValid Clock r.createdAt r.spentAt ∧ LockValid r.htlcState
  roundTrip := rgbCollectible_roundTrip hc hjson

end

/-! ## A token that is inserted, burnt and read -/

namespace Sample

theorem atEpoch_readsBack : Codec.atEpoch.ReadsBack (· = ⟨0⟩) := by
  refine ⟨fun h => ?_, fun h => ?_, fun h => ?_⟩ <;> subst h <;> decide

def cachedWebcash : FaithfulStore WebcashRecord := webcashStore .webcashLegacyKeys "service error" atEpoch_readsBack

def hashA : String := String.ofList (List.replicate 64 'a')

/-- An unspent record of one webcash. -/
def cachedRecord : WebcashRecord := ⟨hashA, I64.wrap 100000000, false, ⟨0⟩, none, .mined⟩

/-- Inserted, burnt and read; `fault` is what happens to the insert on Redis. -/
def insertBurnRead (fault : RedisFdb.InsertFault) : List (RedisFdb.CacheCall WebcashRecord) :=
  [⟨⟨0⟩, ⟨false, [fault], none⟩, .insertTokens [cachedRecord]⟩,
    ⟨⟨0⟩, .none, .batchBurn .unscoped [(hashA, ⟨"9f1c", hashA, I64.wrap 100000000, ⟨0⟩⟩)]⟩,
    ⟨⟨0⟩, .none, .getTokens .unscoped [hashA]⟩]

end Sample

open Sample RedisFdb

/-- Burnt before it was ever cached: the read finds it spent. -/
theorem uncached_burn_seen :
    Machine.Meets (call cachedWebcash.toStoreConfig) (KeepsCache cachedWebcash) (insertBurnRead (.claim [])) .empty ∧
    Machine.trace (call cachedWebcash.toStoreConfig) (insertBurnRead (.claim [])) .empty =
      Machine.trace (fdbCall cachedWebcash.toStoreConfig) (insertBurnRead (.claim [])) .empty := by
  have hmeets : Machine.Meets (call cachedWebcash.toStoreConfig) (KeepsCache cachedWebcash)
      (insertBurnRead (.claim [])) .empty := by
    refine ⟨⟨fun r hr => ?_, fun _ r hr => ?_⟩, ⟨rfl, fun _ => ⟨by decide +kernel, trivial⟩⟩,
      ⟨fun x hx r hkey _ => ?_, fun _ => trivial⟩, trivial⟩
    · obtain rfl : r = cachedRecord := by simpa using hr
      exact ⟨rfl, fun t ht => by cases ht⟩
    · cases hr
    · exact KeyStrategy.tokenKey_inj hkey
  exact ⟨hmeets, cache_transparent_of_runs cachedWebcash _ hmeets⟩

/-- Redis still has the record unspent after it was burnt, and that is what is read. -/
theorem burnt_token_served :
    Machine.trace (call cachedWebcash.toStoreConfig) (insertBurnRead .none) .empty =
      [.done (.ok ()), .done (.ok ()), .tokens (.ok [some cachedRecord])] ∧
    Machine.trace (fdbCall cachedWebcash.toStoreConfig) (insertBurnRead .none) .empty =
      [.done (.ok ()), .done (.ok ()), .tokens
        (.ok [some { cachedRecord with spent := true, spentAt := some ⟨0⟩ }])] := by
  decide +kernel

end Webycash
