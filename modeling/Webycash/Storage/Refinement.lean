import Webycash.Storage.Ledger
import Webycash.Storage.RedisAmounts
/-!
# A backend as a ledger: writes and reads

Each backend keeps for a record of the ledger what its record type makes of it: the fields of a
HASH, an item under its own key, a document that reads as the record. `Implements` says so of a
whole store. Every write is then the exchange of the ledger (`Writes`, `Implements.write`) and every
read finds the ledger's records, as long as the call fits what the backend can do.
-/

namespace Webycash

/-! ## Records that can be stored -/

section

variable {ρ : Type}

/-- A record that the store can write, read back and name. -/
structure MarkedStore.Storable (M : MarkedStore ρ) (r : ρ) : Prop where
  valid : M.Valid r
  plain : KeyStrategy.PlainNamespace (M.codec.namespaceOf r)
  hash : ':' ∉ (M.codec.publicHash r).toList

variable {M : MarkedStore ρ} {now : DateTime} {ns : Namespace} {r : ρ} {k h : String}

theorem MarkedStore.recordKey_markSpent (M : MarkedStore ρ) (now : DateTime) (r : ρ) :
    M.recordKey (M.markSpent now r) = M.recordKey r := by
  rw [StoreConfig.recordKey, StoreConfig.recordKey, M.marks.hash, M.marks.scope]

theorem MarkedStore.Storable.mark (hr : M.Storable r) (hnow : M.Clock now) : M.Storable (M.markSpent now r) where
  valid := M.mark_valid hnow hr.valid
  plain := by rw [M.marks.scope]; exact hr.plain
  hash := by rw [M.marks.hash]; exact hr.hash

/-- The key of a record spells its hash, in whatever namespace it is read. -/
theorem MarkedStore.Storable.hash_eq (hr : M.Storable r) (hkey : M.recordKey r = M.tokenKey ns h) :
    M.codec.publicHash r = h := by
  have howns : M.keys.Owns M.name ns (M.recordKey r) := hkey ▸ KeyStrategy.owns_tokenKey
  have hprefix := KeyStrategy.tokenPrefix_eq_of_owns hr.plain hr.hash howns
  have hsame : M.recordKey r = M.tokenKey ns (M.codec.publicHash r) := by
    rw [StoreConfig.recordKey, StoreConfig.tokenKey, StoreConfig.tokenKey, KeyStrategy.tokenKey,
      KeyStrategy.tokenKey, hprefix]
  exact KeyStrategy.tokenKey_inj (hsame.symm.trans hkey)

/-- A hash without a colon cannot hold the separator. -/
theorem Dynamo.splits_of_plain (hh : ':' ∉ h.toList) : Dynamo.Splits h := by
  rintro hsep
  have hcount := hsep.sublist.count_le ':'
  rw [List.count_cons_self, List.count_eq_zero.2 hh] at hcount
  exact absurd hcount (by decide)

end

/-! ## What stands for a record -/

namespace Backend

section

variable {ρ : Type} (M : MarkedStore ρ)

/-- What is kept under a token key. -/
def Entry : Backend → Type
  | redis => Fields
  | dynamo => Dynamo.Item
  | fdb => Doc

def entries : (b : Backend) → b.Db → FMap String b.Entry
  | redis, db => db.tokens
  | dynamo, db => db.tokens
  | fdb, db => db.tokens

def StandsFor : (b : Backend) → String → b.Entry → ρ → Prop
  | redis, _, fields, r => fields = M.codec.fieldMap r
  | dynamo, k, item, r => item.lookup "pk" = some (.S k) ∧ item.lookup "spent" = some (.Bool (M.codec.spent r)) ∧
      Dynamo.itemFields item = M.codec.fieldMap r
  | fdb, _, doc, r => M.codec.fromJson doc = some r

/-- What the store writes for a record. -/
def written : (b : Backend) → ρ → b.Entry
  | redis, r => M.codec.fieldMap r
  | dynamo, r => Dynamo.itemFor M.toStoreConfig (M.codec.namespaceOf r) r
  | fdb, r => M.codec.toJson r

/-- What it makes of an entry whose record is spent. -/
def marked (text : String) : (b : Backend) → b.Entry → b.Entry
  | redis => Redis.spentFields text
  | dynamo => Dynamo.spendItem text
  | fdb => Fdb.spendDoc text

def miningEntry : (b : Backend) → b.Db → Option MiningState
  | redis, db => db.mining.lookup (M.keys.miningStateKey M.name)
  | dynamo, db => db.mining.lookup (M.keys.miningStateKey M.name)
  | fdb, db => db.mining.lookup (M.keys.miningStateKey M.name)

variable {M} {b : Backend} {now : DateTime} {r : ρ} {k : String}

theorem standsFor_written (hr : M.Storable r) : b.StandsFor M (M.recordKey r) (b.written M r) r := by
  cases b with
  | redis => exact rfl
  | dynamo =>
    exact ⟨Dynamo.lookup_itemFor_pk M.takesHash _ r, Dynamo.lookup_spent_itemFor _ r,
      Dynamo.itemFields_itemFor M.takesHash _ r⟩
  | fdb => exact M.roundTrip.json hr.valid

/-- Marking an item marks its fields. -/
theorem itemFields_spendItem (text : String) (item : Dynamo.Item) :
    Dynamo.itemFields (Dynamo.spendItem text item) = Redis.spentFields text (Dynamo.itemFields item) := by
  refine Finmap.ext_lookup fun name => ?_
  rw [Redis.lookup_spentFields]
  by_cases hpk : name = "pk"
  · subst hpk
    simp [Dynamo.itemFields, FMap.lookup_mapVals]
  rw [Dynamo.lookup_itemFields hpk, Dynamo.lookup_itemFields hpk, Dynamo.spendItem, FMap.lookup_insert_ite,
    FMap.lookup_insert_ite]
  by_cases hat : name = "spent_at"
  · simp [hat, Dynamo.attributeText]
  by_cases hspent : name = "spent"
  · simp [hspent, Dynamo.attributeText]
  simp [hat, hspent]

theorem standsFor_marked (hnow : M.Clock now) {x : b.Entry} (h : b.StandsFor M k x r) :
    b.StandsFor M k (b.marked (M.chrono.toRfc3339 now) x) (M.markSpent now r) := by
  cases b with
  | redis =>
    obtain rfl : x = M.codec.fieldMap r := h
    exact M.marks.fields now r
  | dynamo =>
    obtain ⟨hpk, -, hfields⟩ := h
    refine ⟨?_, ?_, ?_⟩
    · exact (Finmap.lookup_insert_of_ne _ (by decide)).trans ((Finmap.lookup_insert_of_ne _ (by decide)).trans hpk)
    · rw [M.marks.spent]
      exact Dynamo.lookup_spent_spendItem
    · exact (itemFields_spendItem _ _).trans ((congrArg _ hfields).trans (M.marks.fields now r))
  | fdb => exact M.marks.json hnow h

/-- Entries that stand for the records are sealed as they are. -/
theorem seals_of_represents {db : b.Db} {L : Ledger ρ} (h : FMap.Represents (b.StandsFor M) (b.entries db) L.records) :
    b.seals db = L.seals M := by
  funext k
  cases b with
  | redis =>
    refine h.map_eq fun f r hf => ?_
    obtain rfl : f = M.codec.fieldMap r := hf
    rw [M.codec.lookup_spent]
    cases M.codec.spent r <;> rfl
  | dynamo =>
    refine h.map_eq fun item r hitem => ?_
    rw [hitem.2.1]
    cases M.codec.spent r <;> rfl
  | fdb =>
    refine h.map_eq fun doc r hdoc => ?_
    have hflag := M.marks.flag hdoc
    unfold docBool at hflag
    exact congrArg (Option.getD · false) hflag

end

end Backend

/-! ## One write -/

section

variable {ρ : Type} (M : MarkedStore ρ)

/-- An answer without the text of its refusal. -/
def bareAnswer {α : Type} (answer : Except String α) : Except String α := answer.mapError fun _ => ""

/-- **The store is that ledger.** -/
structure Implements (b : Backend) (db : b.Db) (L : Ledger ρ) : Prop where
  entries : FMap.Represents (b.StandsFor M) (b.entries db) L.records
  records : ∀ k r, L.records.lookup k = some r → M.recordKey r = k ∧ M.Storable r
  mining : b.miningEntry M db = L.mining

/-- A write of the store is the exchange of the ledger: carried out in full when the ledger accepts it, and
otherwise refused without a trace. -/
structure Writes (b : Backend) (now : DateTime) (ins : List String) (outs : List ρ) (db : b.Db)
    (result : Except String Unit × b.Db) :
    Prop where
  accepted : (b.seals db).Accepts ins (outs.map M.recordKey) → result.1 = .ok () ∧
    FMap.Exchanges (b.marked (M.chrono.toRfc3339 now)) ins
      (outs.map fun r => (M.recordKey r, b.written M r)) (b.entries db) (b.entries result.2)
  refused : ¬ (b.seals db).Accepts ins (outs.map M.recordKey) → (∃ e, result.1 = .error e) ∧
    b.entries result.2 = b.entries db
  mining : b.miningEntry M result.2 = b.miningEntry M db

variable {M} {b : Backend} {now : DateTime} {ns : Namespace} {ins : List String} {outs rs : List ρ}
  {db : b.Db} {L : Ledger ρ} {result : Except String Unit × b.Db}

theorem implements_empty : Implements M b b.empty .empty where
  entries := by cases b <;> exact .empty
  records k r h := by
    rw [Ledger.empty, Finmap.lookup_empty] at h
    cases h
  mining := by cases b <;> exact Finmap.lookup_empty _

theorem Implements.seals (h : Implements M b db L) : b.seals db = L.seals M := Backend.seals_of_represents h.entries

/-- What is in the ledger afterwards was there, was there unmarked, or is new. -/
theorem Ledger.records_exchanged (hnow : ins ≠ [] → M.Clock now) (hnd : ins.Nodup)
    (hout : ∀ r ∈ outs, M.Storable r)
    (h : ∀ k r, L.records.lookup k = some r → M.recordKey r = k ∧ M.Storable r) {k : String} {r : ρ}
    (hk : (Ledger.exchanged M now ins outs L.records).lookup k = some r) : M.recordKey r = k ∧ M.Storable r := by
  rw [Ledger.exchanged, FMap.lookup_putAll, FMap.lookup_through hnd] at hk
  rcases Option.or_eq_some_iff.1 hk with hput | ⟨-, hold⟩
  · obtain ⟨o, ho, he⟩ := List.mem_map.1 (FMap.lastPut_mem hput)
    obtain ⟨rfl, rfl⟩ := Prod.mk.inj he
    exact ⟨rfl, hout o ho⟩
  · split at hold
    · rename_i hin
      obtain ⟨r₀, hr₀, rfl⟩ := Option.map_eq_some_iff.1 hold
      obtain ⟨hkey, hstore⟩ := h k r₀ hr₀
      exact ⟨(M.recordKey_markSpent now r₀).trans hkey, hstore.mark (hnow (List.ne_nil_of_mem hin))⟩
    · exact h k r hold

/-- **One write.** -/
theorem Implements.write (h : Implements M b db L) (hnow : ins ≠ [] → M.Clock now)
    (hout : ∀ r ∈ outs, M.Storable r) (hw : Writes M b now ins outs db result) :
    bareAnswer result.1 = (L.exchange M now ins outs).1 ∧ Implements M b result.2 (L.exchange M now ins outs).2 := by
  by_cases hacc : (L.seals M).Accepts ins (outs.map M.recordKey)
  · have hex : L.exchange M now ins outs =
        (.ok (), { L with records := Ledger.exchanged M now ins outs L.records }) := if_pos hacc
    rw [← h.seals] at hacc
    obtain ⟨hok, hput⟩ := hw.accepted hacc
    rw [hex, hok]
    refine ⟨rfl, h.entries.exchanges (g := M.markSpent now) ?_ ?_ hput (FMap.exchanges_through hacc.1 _ _), ?_,
      hw.mining.trans h.mining⟩
    · intro k hk x r hr hstands
      exact Backend.standsFor_marked (hnow (List.ne_nil_of_mem hk)) hstands
    · intro r hr
      exact Backend.standsFor_written (hout r hr)
    · intro k r hk
      exact Ledger.records_exchanged hnow hacc.1 hout h.records hk
  · have hex : L.exchange M now ins outs = (.error "", L) := if_neg hacc
    rw [← h.seals] at hacc
    obtain ⟨⟨e, he⟩, hsame⟩ := hw.refused hacc
    rw [hex, he]
    exact ⟨rfl, hsame ▸ h.entries, h.records, hw.mining.trans h.mining⟩

theorem refused_of_ne_ok {answer : Except String Unit} (h : answer ≠ .ok ()) : ∃ e, answer = .error e := by
  cases answer with
  | error e => exact ⟨e, rfl⟩
  | ok u => exact absurd rfl h

theorem accepts_puts {s : Seals String} {ks : List String} : s.Accepts [] ks ↔ s.Fresh ks := by
  simp [Seals.Accepts, Seals.Open]

theorem accepts_mark {s : Seals String} {k : String} : s.Accepts [k] [] ↔ s k = some false := by
  simp [Seals.Accepts, Seals.Open, Seals.Fresh]

/-! ### `insert_tokens` -/

/-- What a batch of new records must look like: DynamoDB overwrites what is there, and Redis inserts the fresh
records of a batch it refuses. -/
def FitsInsert (M : MarkedStore ρ) (service : Dynamo.Env) (records : List ρ) (L : Ledger ρ) : Backend → Prop
  | .redis => (L.seals M).Fresh (records.map M.recordKey) ∨ ∀ r ∈ records, L.seals M (M.recordKey r) ≠ none
  | .dynamo => (L.seals M).Fresh (records.map M.recordKey) ∧ ∀ reply ∈ service.writes, reply = .done []
  | .fdb => True

theorem Redis.writes_insert {db : Redis.Db} {service : Dynamo.Env} (h : Implements M .redis db L)
    (hfit : FitsInsert M service rs L .redis) :
    Writes M .redis now [] rs db (Redis.insertTokens M.toStoreConfig rs db) := by
  have hseals : Redis.seals db.tokens = L.seals M := h.seals
  have hfit : (Redis.seals db.tokens).Fresh (rs.map M.recordKey) ∨
      ∀ r ∈ rs, Redis.seals db.tokens (M.recordKey r) ≠ none := hseals ▸ hfit
  -- a HASH that stands for a record has its amount
  have hclaimed : ∀ k ∈ db.tokens, Redis.Claimed db.tokens k := by
    intro k hk
    obtain ⟨f, hf⟩ := Option.isSome_iff_exists.1 (Finmap.lookup_isSome.2 hk)
    obtain ⟨r, -, hstands⟩ := h.entries.of_some hf
    obtain rfl : f = M.codec.fieldMap r := hstands
    simp [Redis.Claimed, Redis.hget, hf, M.codec.lookup_amount]
  obtain ⟨c, hsub, -, hfree, -, hdb, hok⟩ := Redis.insertTokens_spec M.toStoreConfig rs db
  constructor
  · intro hacc
    obtain ⟨hnd, hnew⟩ := accepts_puts.1 hacc
    have habsent : ∀ r ∈ rs, M.recordKey r ∉ db.tokens := fun r hr =>
      Redis.seals_eq_none.1 (hnew _ (List.mem_map.2 ⟨r, hr, rfl⟩))
    have hanswer : (Redis.insertTokens M.toStoreConfig rs db).1 = .ok () :=
      (Redis.insertTokens_ok_iff M.toStoreConfig).2 ⟨hnd, fun r hr hcl => habsent r hr (Redis.mem_of_claimed hcl)⟩
    have hputs : c.map (Redis.overlay M.toStoreConfig db.tokens) = rs.map fun r =>
        (M.recordKey r, M.codec.fieldMap r) := by
      obtain rfl := hok.1 hanswer
      refine List.map_congr_left fun r hr => ?_
      rw [Redis.overlay, Redis.hgetall_of_notMem (habsent r hr)]
      rfl
    rw [hputs] at hdb
    refine ⟨hanswer, ?_⟩
    rw [hdb]
    exact FMap.exchanges_putAll _ _ _
  · intro hacc
    have hall : ∀ r ∈ rs, Redis.Claimed db.tokens (M.recordKey r) := by
      intro r hr
      refine hclaimed _ (by_contra fun hk => ?_)
      exact hfit.resolve_left (fun hnew => hacc (accepts_puts.2 hnew)) r hr (Redis.seals_eq_none.2 hk)
    obtain rfl : c = [] := List.eq_nil_iff_forall_not_mem.2 fun r hr => hfree r hr (hall r (hsub.subset hr))
    refine ⟨refused_of_ne_ok fun hanswer => hacc ?_, by rw [hdb]; rfl⟩
    obtain rfl : [] = rs := hok.1 hanswer
    simp [Seals.Accepts, Seals.Open, Seals.Fresh]
  · rw [hdb]
    rfl

/-- A service that carries everything out acknowledges every put. -/
theorem Dynamo.acks_of_done {cfg : StoreConfig ρ} : ∀ {replies : List Dynamo.BatchReply} {chunks : List (List ρ)},
    (∀ reply ∈ replies, reply = .done []) → (∀ chunk ∈ chunks, (chunk.map cfg.recordKey).Nodup) →
    Dynamo.acks cfg replies chunks = (chunks.flatten.map (Dynamo.putOf cfg), true)
  | _, [], _, _ => rfl
  | replies, chunk :: chunks, hreplies, hchunks => by
    have hreply : replies.head?.getD (.done []) = .done [] := by
      cases replies with
      | nil => rfl
      | cons reply replies => exact hreplies reply (by simp)
    have hdone : ¬ Dynamo.Refused cfg (.done []) chunk := by
      simp [Dynamo.Refused, hchunks chunk]
    have htail : ∀ reply ∈ replies.tail, reply = .done [] := fun reply hr =>
      hreplies reply (List.mem_of_mem_tail hr)
    have ih := Dynamo.acks_of_done htail fun c hc => hchunks c (List.mem_cons_of_mem _ hc)
    rw [Dynamo.acks, hreply, if_neg hdone, ih]
    simp [Dynamo.ackedOf]

theorem Dynamo.writes_insert {db : Dynamo.Db} {service : Dynamo.Env} (h : Implements M .dynamo db L)
    (hfit : FitsInsert M service rs L .dynamo) :
    Writes M .dynamo now [] rs db (Dynamo.insertTokens M.toStoreConfig service rs db) := by
  obtain ⟨hnew, hdone⟩ := hfit
  have hchunks : ∀ chunk ∈ Stride.chunks 25 rs, (chunk.map M.recordKey).Nodup := by
    intro chunk hchunk
    refine hnew.1.sublist (List.Sublist.map _ ?_)
    have hsub := List.sublist_flatten_of_mem hchunk
    rwa [Stride.flatten_chunks (by decide)] at hsub
  have hacks : Dynamo.acks M.toStoreConfig service.writes (Stride.chunks 25 rs) =
      (rs.map (Dynamo.putOf M.toStoreConfig), true) := by
    rw [Dynamo.acks_of_done hdone hchunks, Stride.flatten_chunks (by decide)]
  have hall : Dynamo.AllCarriedOut M.toStoreConfig service rs := by rw [Dynamo.AllCarriedOut, hacks]
  have hacked : Dynamo.acked M.toStoreConfig service rs = rs.map (Dynamo.putOf M.toStoreConfig) := by
    rw [Dynamo.acked, hacks]
  rw [Dynamo.insertTokens_eq, if_pos hall, hacked]
  constructor
  · intro _
    exact ⟨rfl, FMap.exchanges_putAll _ _ _⟩
  · intro hacc
    rw [h.seals] at hacc
    exact absurd (accepts_puts.2 hnew) hacc
  · rfl

theorem Fdb.writes_insert (rs : List ρ) (db : Fdb.Db) :
    Writes M .fdb now [] rs db (Fdb.insertTokens M.toStoreConfig rs db) := by
  have hmining := congrArg (Finmap.lookup (M.keys.miningStateKey M.name))
    (Fdb.insertTokens_mining M.toStoreConfig rs db)
  constructor
  · intro hacc
    have hok : (Fdb.insertTokens M.toStoreConfig rs db).1 = .ok () := Fdb.insertTokens_ok_iff.2 (accepts_puts.1 hacc)
    refine ⟨hok, ?_⟩
    have htokens := @Fdb.insertTokens_tokens ρ M.toStoreConfig rs db
    rw [if_pos hok] at htokens
    rw [Backend.entries, htokens]
    exact FMap.exchanges_putAll _ _ _
  · intro hacc
    have hno : (Fdb.insertTokens M.toStoreConfig rs db).1 ≠ .ok () := fun hok =>
      hacc (accepts_puts.2 (Fdb.insertTokens_ok_iff.1 hok))
    have htokens := @Fdb.insertTokens_tokens ρ M.toStoreConfig rs db
    rw [if_neg hno] at htokens
    exact ⟨refused_of_ne_ok hno, htokens⟩
  · exact hmining

/-! ### `batch_replace`, one op -/

/-- A reply as the answer of an op. -/
def Redis.Reply.answer : Redis.Reply → Except String Unit
  | .ok => .ok ()
  | .err msg => .error msg
  | .raised => .error ""

/-- The outputs are stored under the keys they would have themselves. -/
def OwnScope (M : MarkedStore ρ) (ns : Namespace) (outs : List ρ) : Prop :=
  ∀ o ∈ outs, M.tokenKey ns (M.codec.publicHash o) = M.recordKey o

variable {op : ReplaceOp ρ}

theorem OwnScope.outputKeys (h : OwnScope M ns op.outputs) :
    outputKeys M.toStoreConfig ns op = op.outputs.map M.recordKey :=
  List.map_congr_left h

/-- What an op must look like: Redis checks neither that inputs are distinct nor the outputs before it marks the
inputs, and cuts the fields of all outputs at the count of the first; DynamoDB takes 100 actions. -/
def FitsOp (M : MarkedStore ρ) (ns : Namespace) (op : ReplaceOp ρ) (L : Ledger ρ) : Backend → Prop
  | .redis => (L.seals M).Open (inputKeys M.toStoreConfig ns op) → (inputKeys M.toStoreConfig ns op).Nodup ∧
      (L.seals M).Fresh (op.outputs.map M.recordKey) ∧ Redis.LayoutAligned M.toStoreConfig op
  | .dynamo => (L.seals M).Accepts (inputKeys M.toStoreConfig ns op) (op.outputs.map M.recordKey) →
      op.inputs.length + op.outputs.length + 1 ≤ 100
  | .fdb => True

theorem Redis.writes_replace (now : DateTime) {db : Redis.Db} (h : Implements M .redis db L)
    (hown : OwnScope M ns op.outputs) (hfit : FitsOp M ns op L .redis) :
    (Redis.replaceLua (Redis.replaceCall M.toStoreConfig now ns op) db).1 ≠ .raised ∧
    Writes M .redis now (inputKeys M.toStoreConfig ns op) op.outputs db
      ((Redis.replaceLua (Redis.replaceCall M.toStoreConfig now ns op) db).1.answer,
        (Redis.replaceLua (Redis.replaceCall M.toStoreConfig now ns op) db).2) := by
  have hmining := congrArg (Finmap.lookup (M.keys.miningStateKey M.name))
    (Redis.replace_mining M.toStoreConfig now ns op db)
  rw [Redis.batchReplace_single_db] at hmining
  have hseals : Redis.seals db.tokens = L.seals M := h.seals
  by_cases hopen : (Redis.seals db.tokens).Open (inputKeys M.toStoreConfig ns op)
  · obtain ⟨hnd, hfresh, haligned⟩ := hfit (hseals ▸ hopen)
    rw [← hseals] at hfresh
    have hslices := (Redis.slices_own_iff_aligned op).2 haligned
    have hfill : Redis.SlicesFilled M.toStoreConfig op := by
      intro i hi hnil
      have hempty := (hslices i hi).symm
      rw [hnil] at hempty
      exact fieldMap_ne_empty _ _ hempty
    have hok : (Redis.batchReplace M.toStoreConfig now ns [op] db).1 = [.ok] :=
      Redis.batchReplace_single_ok_iff.2 ⟨hopen, hown.outputKeys ▸ hfresh, hfill⟩
    have hreply : (Redis.replaceLua (Redis.replaceCall M.toStoreConfig now ns op) db).1 = .ok :=
      Redis.replaceLua_ok_iff.2 ⟨Redis.inputsReady_iff.2 hopen,
        Redis.insertable_iff.2 ⟨hown.outputKeys ▸ hfresh, hfill⟩⟩
    obtain ⟨hframe, hins, houts⟩ := Redis.lookup_accepted hok
    rw [Redis.batchReplace_single_db] at hframe hins houts
    refine ⟨by rw [hreply]; decide, fun _ => ⟨by rw [hreply]; rfl, fun k => ?_⟩,
      fun hacc => absurd ⟨hnd, hopen, hfresh⟩ hacc, hmining⟩
    by_cases hout : k ∈ op.outputs.map M.recordKey
    · obtain ⟨o, ho, rfl⟩ := List.mem_map.1 hout
      obtain ⟨i, hi, rfl⟩ := List.mem_iff_getElem.1 ho
      have hput : FMap.lastPut (op.outputs.map fun r => (M.recordKey r, Backend.redis.written M r))
        (M.recordKey op.outputs[i]) = some (Backend.redis.written M op.outputs[i]) := by
        refine FMap.lastPut_of_mem ?_ (List.mem_map.2 ⟨_, ho, rfl⟩)
        rw [List.map_map]
        exact hfresh.1
      rw [hput, Option.some_or, ← hown _ ho]
      exact (houts i hi).trans (congrArg some (hslices i hi))
    · have hnone : FMap.lastPut (op.outputs.map fun r => (M.recordKey r, Backend.redis.written M r)) k = none := by
        rw [FMap.lastPut_eq_none_iff, List.map_map]
        exact hout
      rw [hnone, Option.none_or]
      by_cases hin : k ∈ inputKeys M.toStoreConfig ns op
      · obtain ⟨f, hf, -⟩ := Option.map_eq_some_iff.1 (hopen k hin)
        have hget : Redis.hgetall db.tokens k = f := by rw [Redis.hgetall, hf, Option.getD_some]
        rw [if_pos hin]
        refine (hins k hin).trans ?_
        rw [hget]
        exact (congrArg (Option.map (Redis.spentFields _)) hf).symm
      · rw [if_neg hin]
        exact hframe k hin (by rwa [hown.outputKeys])
  · rcases Redis.replaceLua_cases M.toStoreConfig now ns op db with ⟨-, e, he⟩ | ⟨hready, -⟩
    · rw [he] at hmining ⊢
      exact ⟨by simp, fun hacc => absurd hacc.2.1 hopen, fun _ => ⟨⟨e, rfl⟩, rfl⟩, hmining⟩
    · exact absurd (Redis.inputsReady_iff.1 hready) hopen

theorem Dynamo.writes_replace {db : Dynamo.Db} (h : Implements M .dynamo db L) (hown : OwnScope M ns op.outputs)
    (hfit : FitsOp M ns op L .dynamo) :
    Writes M .dynamo now (inputKeys M.toStoreConfig ns op) op.outputs db
      (Dynamo.execReplace M.toStoreConfig now ns op db) := by
  have hmining := congrArg (Finmap.lookup (M.keys.miningStateKey M.name))
    (Dynamo.replace_mining M.toStoreConfig now ns op db)
  have hiff := @Dynamo.execReplace_ok_iff ρ M.toStoreConfig now ns op db
  rw [hown.outputKeys] at hiff
  refine ⟨fun hacc => ?_, fun hacc => ?_, hmining⟩
  · have hseals : Dynamo.seals db.tokens = L.seals M := h.seals
    have hacc : (Dynamo.seals db.tokens).Accepts (inputKeys M.toStoreConfig ns op) (op.outputs.map M.recordKey) := hacc
    have hok := hiff.2 ⟨hfit (hseals ▸ hacc), hacc⟩
    refine ⟨hok, fun k => ?_⟩
    have hputs : Dynamo.outputPuts M.toStoreConfig ns op = op.outputs.map fun r =>
        (M.recordKey r, Backend.dynamo.written M r) := by
      refine List.map_congr_left fun o ho => ?_
      have hitem : Dynamo.itemFor M.toStoreConfig ns o = Dynamo.itemFor M.toStoreConfig (M.codec.namespaceOf o) o := by
        unfold Dynamo.itemFor
        rw [hown o ho]
        rfl
      rw [hown o ho, hitem]
      rfl
    have hlook := @Dynamo.lookup_replaced ρ M.toStoreConfig now ns op db k
    rw [← Dynamo.execReplace_tokens hok, hputs] at hlook
    refine hlook.trans (congrArg _ ?_)
    by_cases hin : k ∈ inputKeys M.toStoreConfig ns op
    · obtain ⟨item, hitem, -⟩ := Option.map_eq_some_iff.1 (hacc.2.1 k hin)
      rw [if_pos hin, if_pos hin, hitem, Option.getD_some]
      exact (congrArg (Option.map (Dynamo.spendItem _)) hitem).symm
    · rw [if_neg hin, if_neg hin]
      rfl
  · have hno : (Dynamo.execReplace M.toStoreConfig now ns op db).1 ≠ .ok () := fun hok => hacc (hiff.1 hok).2
    exact ⟨refused_of_ne_ok hno, congrArg Dynamo.Db.tokens (Dynamo.execReplace_of_not_ok hno)⟩

theorem Fdb.writes_replace (op : ReplaceOp ρ) (db : Fdb.Db) :
    Writes M .fdb now (inputKeys M.toStoreConfig ns op) op.outputs db
      (Fdb.execReplace M.toStoreConfig now ns op db) := by
  have hmining := congrArg (Finmap.lookup (M.keys.miningStateKey M.name))
    (Fdb.execReplace_mining M.toStoreConfig now ns op db)
  refine ⟨fun hacc => ?_, fun hacc => ?_, hmining⟩
  · have hok : (Fdb.execReplace M.toStoreConfig now ns op db).1 = .ok () := Fdb.execReplace_ok_iff.2 hacc
    refine ⟨hok, fun k => ?_⟩
    have hlook := congrArg (Finmap.lookup k) (Fdb.execReplace_tokens hok)
    rw [FMap.lookup_putAll, Fdb.lookup_spendAll _ _ _ _ hacc.1] at hlook
    refine hlook.trans (congrArg _ ?_)
    by_cases hin : k ∈ inputKeys M.toStoreConfig ns op
    · obtain ⟨doc, hdoc, -⟩ := Option.map_eq_some_iff.1 (hacc.2.1 k hin)
      rw [if_pos hin, if_pos hin, hdoc, Option.getD_some]
      exact (congrArg (Option.map (Fdb.spendDoc _)) hdoc).symm
    · rw [if_neg hin, if_neg hin]
      rfl
  · have hno : (Fdb.execReplace M.toStoreConfig now ns op db).1 ≠ .ok () := fun hok =>
      hacc (Fdb.execReplace_ok_iff.1 hok)
    exact ⟨refused_of_ne_ok hno, congrArg Fdb.Db.tokens (Fdb.execReplace_of_not_ok hno)⟩

/-! ### `batch_burn`, one burn -/

theorem Redis.writes_burn (tk ak : String) (row : AuditRow) (db : Redis.Db) :
    Writes M .redis now [tk] [] db ((Redis.burnLua tk ak (M.chrono.toRfc3339 now) row db).1.answer,
      (Redis.burnLua tk ak (M.chrono.toRfc3339 now) row db).2) := by
  rcases Redis.burnLua_cases tk ak (M.chrono.toRfc3339 now) row db with ⟨hno, e, he⟩ | ⟨hready, he⟩
  · rw [he]
    exact ⟨fun hacc => absurd (Redis.seals_eq_open.1 (accepts_mark.1 hacc)) hno,
      fun _ => ⟨⟨e, rfl⟩, rfl⟩, rfl⟩
  · rw [he]
    obtain ⟨f, hf⟩ := Option.isSome_iff_exists.1 (Finmap.lookup_isSome.2 hready.1)
    refine ⟨fun _ => ⟨rfl, ?_⟩, fun hacc => absurd (accepts_mark.2 (Redis.seals_eq_open.2 hready)) hacc, rfl⟩
    have hmark : Redis.markSpent (M.chrono.toRfc3339 now) db.tokens tk =
        db.tokens.insert tk (Redis.spentFields (M.chrono.toRfc3339 now) f) := by
      rw [Redis.markSpent, Redis.hgetall, hf, Option.getD_some]
      rfl
    rw [hmark]
    exact FMap.exchanges_insert hf

theorem Dynamo.writes_burn (hash : String) (record : BurnRecord) (db : Dynamo.Db) :
    Writes M .dynamo now [M.tokenKey ns hash] [] db (Dynamo.execBurn M.toStoreConfig now ns hash record db) := by
  rcases Dynamo.burn_cases M.toStoreConfig now ns hash record db with ⟨hno, e, he⟩ | ⟨hopen, he⟩
  · rw [he]
    exact ⟨fun hacc => absurd (accepts_mark.1 hacc) hno, fun _ => ⟨⟨e, rfl⟩, rfl⟩, rfl⟩
  · rw [he]
    obtain ⟨item, hitem, -⟩ := Option.map_eq_some_iff.1 hopen
    refine ⟨fun _ => ⟨rfl, ?_⟩, fun hacc => absurd (accepts_mark.2 hopen) hacc, rfl⟩
    rw [hitem, Option.getD_some]
    exact FMap.exchanges_insert hitem

theorem Fdb.writes_burn (hash : String) (record : BurnRecord) (db : Fdb.Db) :
    Writes M .fdb now [M.tokenKey ns hash] [] db (Fdb.execBurn M.toStoreConfig now ns hash record db) := by
  rcases Fdb.burn_cases M.toStoreConfig now ns hash record db with ⟨hno, e, he⟩ | ⟨hopen, doc, hdoc, he⟩
  · rw [he]
    exact ⟨fun hacc => absurd (accepts_mark.1 hacc) hno, fun _ => ⟨⟨e, rfl⟩, rfl⟩, rfl⟩
  · rw [he]
    exact ⟨fun _ => ⟨rfl, FMap.exchanges_insert hdoc⟩, fun hacc => absurd (accepts_mark.2 hopen) hacc, rfl⟩

/-! ## Reads -/

/-- What a read must look like for DynamoDB: a batch the service takes and answers in full, under keys that
spell their hash. -/
def FitsRead (M : MarkedStore ρ) (service : Dynamo.Env) (ns : Namespace) (hashes : List String) : Backend → Prop
  | .dynamo => M.keys = .namespacedKeys ∧ hashes.length ≤ 100 ∧ hashes.Nodup ∧
      ∀ h ∈ hashes, M.tokenKey ns h ∉ service.unprocessedKeys
  | _ => True

variable {service : Dynamo.Env} {hashes : List String} {k : String} {r : ρ}

/-- Redis holds the fields of the records and nothing else. -/
theorem Implements.lookup_redis {db : Redis.Db} (h : Implements M .redis db L) (k : String) :
    db.tokens.lookup k = (L.records.lookup k).map M.codec.fieldMap := by
  have hid := h.entries.map_eq (k := k) (f := fun fields : Fields => fields) (g := M.codec.fieldMap)
    fun _ _ hstands => hstands
  rwa [Option.map_id'] at hid

theorem Implements.lookup_dynamo {db : Dynamo.Db} (h : Implements M .dynamo db L) (hk : L.records.lookup k = some r) :
    ∃ item : Dynamo.Item, db.tokens.lookup k = some item ∧ item.lookup "pk" = some (.S k) ∧
      Dynamo.itemFields item = M.codec.fieldMap r := by
  obtain ⟨item, hitem, hpk, -, hfields⟩ := h.entries.to_some hk
  exact ⟨item, hitem, hpk, hfields⟩

theorem Implements.lookup_fdb {db : Fdb.Db} (h : Implements M .fdb db L) (hk : L.records.lookup k = some r) :
    ∃ doc : Doc, db.tokens.lookup k = some doc ∧ M.codec.fromJson doc = some r := h.entries.to_some hk

/-- A record found under a key is the one of the hash that was asked for. -/
theorem Implements.fromFields (h : Implements M b db L) {x : String}
    (hr : L.records.lookup (M.tokenKey ns x) = some r) (now : DateTime) :
    M.codec.fromFields now x (M.codec.fieldMap r) = some r := by
  obtain ⟨hkey, hstore⟩ := h.records _ r hr
  have hback := M.roundTrip.fields hstore.valid now
  rwa [hstore.hash_eq hkey] at hback

theorem Redis.getTokens_eq {db : Redis.Db} (h : Implements M .redis db L) (now : DateTime) (ns : Namespace)
    (hashes : List String) :
    Redis.getTokens M.toStoreConfig now ns hashes db =
      .ok (hashes.map fun x => L.records.lookup (M.tokenKey ns x)) := by
  refine congrArg Except.ok (List.map_congr_left fun x _ => ?_)
  dsimp only
  rw [Redis.hgetall, h.lookup_redis]
  cases hx : L.records.lookup (M.tokenKey ns x) with
  | none => simp
  | some r =>
    rw [Option.map_some, Option.getD_some, if_neg (fieldMap_ne_empty _ _)]
    exact h.fromFields hx now

theorem Dynamo.getTokens_eq {db : Dynamo.Db} (h : Implements M .dynamo db L)
    (hfit : FitsRead M service ns hashes .dynamo) (now : DateTime) :
    Dynamo.getTokens M.toStoreConfig now service ns hashes db =
      .ok (hashes.map fun x => L.records.lookup (M.tokenKey ns x)) := by
  obtain ⟨hkeys, hlen, hnd, hdone⟩ := hfit
  have hnodup : (hashes.map (M.tokenKey ns)).Nodup := hnd.map fun _ _ he => KeyStrategy.tokenKey_inj he
  unfold Dynamo.getTokens
  dsimp only
  split
  · rename_i hnil
    rw [hnil]
    rfl
  · rw [if_neg (by simp [hnodup, hlen]), List.map_map]
    refine congrArg Except.ok (List.map_congr_left fun x hx => ?_)
    rw [Function.comp_apply, if_neg (hdone x hx)]
    cases hr : L.records.lookup (M.tokenKey ns x) with
    | none =>
      have hnone : db.tokens.lookup (M.tokenKey ns x) = none := h.entries.lookup_eq_none.2 hr
      rw [hnone, Option.bind_none]
    | some r =>
      obtain ⟨item, hitem, hpk, hfields⟩ := h.lookup_dynamo hr
      obtain ⟨hkey, hstore⟩ := h.records _ r hr
      have hhash : Dynamo.hashOfPk (M.tokenKey ns x) = x :=
        (Dynamo.hashOfPk_tokenKey_iff _ _ _ _).2
          ⟨hkeys, Dynamo.splits_of_plain (hstore.hash_eq hkey ▸ hstore.hash)⟩
      rw [hitem, Option.bind_some, Dynamo.itemToRecord, hpk]
      dsimp only
      rw [hhash, hfields]
      exact h.fromFields hr now

theorem Fdb.getTokens_eq {db : Fdb.Db} (h : Implements M .fdb db L) (ns : Namespace) (hashes : List String) :
    Fdb.getTokens M.toStoreConfig ns hashes db = .ok (hashes.map fun x => L.records.lookup (M.tokenKey ns x)) := by
  refine RedisFdb.mapM_ok fun x _ => ?_
  cases hx : L.records.lookup (M.tokenKey ns x) with
  | none =>
    have hnone : db.tokens.lookup (M.tokenKey ns x) = none := h.entries.lookup_eq_none.2 hx
    rw [Fdb.getJson, hnone]
  | some r =>
    obtain ⟨doc, hdoc, hjson⟩ := h.lookup_fdb hx
    rw [Fdb.getJson, hdoc]
    dsimp only
    rw [hjson]

/-- **`get_tokens`** is the ledger's. -/
theorem Implements.getTokens (now : DateTime) (h : Implements M b db L) (hfit : FitsRead M service ns hashes b) :
    (b.store M.toStoreConfig now service).getTokens ns hashes db = (Ledger.store M now).getTokens ns hashes L := by
  cases b with
  | redis => exact Redis.getTokens_eq h now ns hashes
  | dynamo => exact Dynamo.getTokens_eq h hfit now
  | fdb => exact Fdb.getTokens_eq h ns hashes

/-- What `check_tokens` makes of decoded records: the flag that `to_fields` writes is the record's. -/
theorem zip_spent (M : MarkedStore ρ) (L : Ledger ρ) (ns : Namespace) (hashes : List String) :
    hashes.zip ((hashes.map fun x => L.records.lookup (M.tokenKey ns x)).map
      (Option.map (Dynamo.spentOf M.toStoreConfig))) =
      hashes.map fun x => (x, L.seals M (M.tokenKey ns x)) := by
  have hspent : Dynamo.spentOf M.toStoreConfig = M.codec.spent := by
    funext r
    rw [Dynamo.spentOf, M.codec.lookup_spent]
    cases M.codec.spent r <;> rfl
  have hzip := List.zip_map' (l := hashes) (f := id) (g := fun x => L.seals M (M.tokenKey ns x))
  rw [List.map_id] at hzip
  rw [hspent, List.map_map]
  exact hzip

/-- **`check_tokens`** is the ledger's. -/
theorem Implements.checkTokens (now : DateTime) (h : Implements M b db L) (hfit : FitsRead M service ns hashes b) :
    (b.store M.toStoreConfig now service).checkTokens ns hashes db = (Ledger.store M now).checkTokens ns hashes L := by
  cases b with
  | redis =>
    refine congrArg Except.ok (List.map_congr_left fun x _ => Prod.ext rfl ?_)
    dsimp only
    rw [Redis.hget, h.lookup_redis, Ledger.seals]
    cases L.records.lookup (M.tokenKey ns x) with
    | none => rfl
    | some r =>
      rw [Option.map_some, Option.bind_some, M.codec.lookup_spent]
      cases hs : M.codec.spent r <;> simp [hs]
  | dynamo =>
    have hget := congrArg (Except.map fun found => hashes.zip (found.map (Option.map (Dynamo.spentOf M.toStoreConfig))))
      (Dynamo.getTokens_eq h hfit now)
    exact hget.trans (congrArg Except.ok (zip_spent M L ns hashes))
  | fdb =>
    have hget := congrArg (Except.map fun found => hashes.zip (found.map (Option.map (Fdb.spentOf M.toStoreConfig))))
      (Fdb.getTokens_eq h ns hashes)
    exact hget.trans (congrArg Except.ok (zip_spent M L ns hashes))

end

end Webycash
