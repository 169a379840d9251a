import Webycash.Asset.Records
import Webycash.Storage.RedisScripts
/-!
# `batch_replace` on Redis: what is stored and what a failure leaves

Two results about every pipeline of replace ops. `stored_iff_aligned`: an op answered `Ok`
stores each output's own fields exactly when the outputs have the first one's field count
(the last may have fewer), because the script cuts `ARGV` with one stride.
`failed_unchanged_iff`: when a failed op leaves the store as it was. Both come with the op
that breaks the contract of `LedgerStore::batch_replace` (storage/src/lib.rs:206).
-/

namespace Webycash.Redis

open Stride

section

variable {ρ : Type} (cfg : StoreConfig ρ) (now : DateTime) (ns : Namespace)

/-- The store after the first `i` scripts of the pipeline. -/
def dbAt (ops : List (ReplaceOp ρ)) (i : Nat) (db : Db) : Db := (runReplace cfg now ns (ops.take i) db).2

theorem length_replies : ∀ (ops : List (ReplaceOp ρ)) (db : Db), (runReplace cfg now ns ops db).1.length = ops.length
  | [], _ => rfl
  | _ :: ops, db => by
    rw [runReplace, List.length_cons, length_replies ops, List.length_cons]

theorem dbAt_succ_cons (op : ReplaceOp ρ) (ops : List (ReplaceOp ρ)) (i : Nat) (db : Db) :
    dbAt cfg now ns (op :: ops) (i + 1) db = dbAt cfg now ns ops i (replaceLua (replaceCall cfg now ns op) db).2 := rfl

/-- One script further. -/
theorem dbAt_succ : ∀ {ops : List (ReplaceOp ρ)} {i : Nat} (hi : i < ops.length) (db : Db),
    dbAt cfg now ns ops (i + 1) db = (replaceLua (replaceCall cfg now ns ops[i]) (dbAt cfg now ns ops i db)).2
  | _ :: _, 0, _, _ => by simp [dbAt, runReplace]
  | op :: ops, i + 1, hi, db => by
    rw [dbAt_succ_cons, dbAt_succ_cons, dbAt_succ (by simpa using hi)]
    rfl

theorem dbAt_length (ops : List (ReplaceOp ρ)) (db : Db) :
    dbAt cfg now ns ops ops.length db = (runReplace cfg now ns ops db).2 := by rw [dbAt, List.take_length]

theorem replies_getElem? : ∀ (ops : List (ReplaceOp ρ)) (i : Nat) (hi : i < ops.length) (db : Db),
    (runReplace cfg now ns ops db).1[i]? =
      some (replaceLua (replaceCall cfg now ns ops[i]) (dbAt cfg now ns ops i db)).1
  | _ :: _, 0, _, _ => rfl
  | op :: ops, i + 1, hi, db => by
    have ih := replies_getElem? ops i (by simpa using hi) (replaceLua (replaceCall cfg now ns op) db).2
    rw [dbAt_succ_cons]
    exact ih

variable {cfg now ns}

/-- Some script of the pipeline raises. -/
def PipelineRaises (cfg : StoreConfig ρ) (now : DateTime) (ns : Namespace) (ops : List (ReplaceOp ρ))
    (db : Db) : Prop :=
  ∃ (i : Nat) (hi : i < ops.length), Raises cfg ns ops[i] (dbAt cfg now ns ops i db).tokens

theorem raised_mem_replies {ops : List (ReplaceOp ρ)} {db : Db} :
    Reply.raised ∈ (runReplace cfg now ns ops db).1 ↔ PipelineRaises cfg now ns ops db := by
  rw [List.mem_iff_getElem?]
  constructor
  · rintro ⟨i, hi⟩
    have hlt : i < ops.length := by
      rw [← length_replies cfg now ns ops db]
      exact (List.getElem?_eq_some_iff.1 hi).1
    rw [replies_getElem? cfg now ns ops i hlt, Option.some.injEq] at hi
    exact ⟨i, hlt, replaceLua_raised_iff.1 hi⟩
  · rintro ⟨i, hlt, h⟩
    exact ⟨i, by rw [replies_getElem? cfg now ns ops i hlt, replaceLua_raised_iff.2 h]⟩

theorem batchReplace_of_raises {ops : List (ReplaceOp ρ)} {db : Db} (h : PipelineRaises cfg now ns ops db) :
    (batchReplace cfg now ns ops db).1 = ops.map fun _ => .failed cfg.serviceError := by
  unfold batchReplace
  simp only [raised_mem_replies, h, if_true]

theorem batchReplace_of_not_raises {ops : List (ReplaceOp ρ)} {db : Db} (h : ¬ PipelineRaises cfg now ns ops db) :
    (batchReplace cfg now ns ops db).1 = (runReplace cfg now ns ops db).1.map Reply.toResult := by
  unfold batchReplace
  simp only [raised_mem_replies, h, if_false]

theorem batchReplace_db (ops : List (ReplaceOp ρ)) (db : Db) :
    (batchReplace cfg now ns ops db).2 = dbAt cfg now ns ops ops.length db := by
  rw [dbAt_length]
  unfold batchReplace
  simp only
  split <;> rfl

theorem toResult_eq_ok {reply : Reply} : reply.toResult = .ok ↔ reply = .ok := by
  cases reply <;> simp [Reply.toResult]

/-- An op is answered `Ok` when its own script is and none of the pipeline raises. -/
theorem batchReplace_ok_iff {ops : List (ReplaceOp ρ)} {db : Db} {i : Nat} (hi : i < ops.length) :
    (batchReplace cfg now ns ops db).1[i]? = some .ok ↔
      ¬ PipelineRaises cfg now ns ops db ∧ InputsReady cfg ns ops[i] (dbAt cfg now ns ops i db).tokens ∧
        Insertable cfg ns ops[i] (dbAt cfg now ns ops i db).tokens := by
  by_cases hR : PipelineRaises cfg now ns ops db
  · rw [batchReplace_of_raises hR, List.getElem?_map, List.getElem?_eq_getElem hi]
    simp [hR]
  · rw [batchReplace_of_not_raises hR, List.getElem?_map, replies_getElem? cfg now ns ops i hi, Option.map_some,
      Option.some.injEq,
      toResult_eq_ok, replaceLua_ok_iff]
    exact ⟨fun h => ⟨hR, h⟩, fun h => h.2⟩

theorem batchReplace_failed_iff {ops : List (ReplaceOp ρ)} {db : Db} {i : Nat} (hi : i < ops.length) :
    (∃ msg, (batchReplace cfg now ns ops db).1[i]? = some (.failed msg)) ↔
      ¬ (batchReplace cfg now ns ops db).1[i]? = some .ok := by
  have hlen : (batchReplace cfg now ns ops db).1.length = ops.length := by
    by_cases hR : PipelineRaises cfg now ns ops db
    · rw [batchReplace_of_raises hR, List.length_map]
    · rw [batchReplace_of_not_raises hR, List.length_map, length_replies]
  rw [List.getElem?_eq_getElem (hlen ▸ hi)]
  cases (batchReplace cfg now ns ops db).1[i] <;> simp

/-! ## Stored fields -/

/-- All outputs but the last have the first one's field count, the last at most that. -/
def LayoutAligned (cfg : StoreConfig ρ) (op : ReplaceOp ρ) : Prop :=
  Aligned (fieldsPerOutput cfg op.outputs) (op.outputs.map cfg.codec.entries)

instance decidableLayoutAligned (op : ReplaceOp ρ) : Decidable (LayoutAligned cfg op) := decidableAligned _ _

/-- After an accepted op output `i` holds the pairs of its slice. -/
theorem lookup_output {op : ReplaceOp ρ} {db : Db} (hr : InputsReady cfg ns op db.tokens)
    (hins : Insertable cfg ns op db.tokens) {i : Nat} (hi : i < op.outputs.length) :
    (replaceLua (replaceCall cfg now ns op) db).2.tokens.lookup (cfg.tokenKey ns (cfg.codec.publicHash op.outputs[i])) =
      some (FMap.ofPairs (outputSlice cfg op i)) := by
  rcases replaceLua_cases cfg now ns op db with ⟨h, -⟩ | ⟨-, m, reply, -, -, -, -, hend, he⟩
  · exact absurd hr h
  · have hok : (replaceLua (replaceCall cfg now ns op) db).1 = .ok := replaceLua_ok_iff.2 ⟨hr, hins⟩
    rw [he] at hok
    subst hok
    cases hend with
    | done hm =>
      rw [he]
      simp only [afterOutputs]
      rw [List.take_of_length_le (by rw [hm, ← List.length_map Prod.fst, outputPuts_keys])]
      refine FMap.lookup_putAll_of_mem (by rw [outputPuts_keys]; exact hins.1) ?_ _
      have := outputPuts_getElem (fieldsPerOutput cfg op.outputs) (flatEntries cfg op) 0 (outputKeys cfg ns op) i
        (by rw [length_outputKeys]; exact hi)
      simpa [outputKeys, outputSlice] using this

/-- **Alignment is exactly what makes the slices the outputs' own fields.** -/
theorem slices_own_iff_aligned (op : ReplaceOp ρ) :
    (∀ (i : Nat) (hi : i < op.outputs.length), FMap.ofPairs (outputSlice cfg op i) =
      cfg.codec.fieldMap op.outputs[i]) ↔
      LayoutAligned cfg op := by
  constructor
  · intro h
    refine aligned_of_covers (fun l hl => ?_) fun i hi => ?_
    · obtain ⟨o, -, rfl⟩ := List.mem_map.1 hl
      exact cfg.codec.entries_ne_nil o
    · -- a slice of `l` pairs binds at most `l` names, and the output has as many names as fields
      have hi' : i < op.outputs.length := by simpa using hi
      have hcard := congrArg (fun m : Fields => m.keys.card) (h i hi')
      simp only [HashRecord.fieldMap, FMap.card_keys_ofPairs (cfg.codec.names_nodup _)] at hcard
      rw [List.getElem_map, cfg.codec.length_entries, ← hcard]
      exact FMap.card_keys_ofPairs_le _
  · intro h i hi
    have := slice_flatten h i (by simpa using hi)
    rw [List.getElem_map] at this
    rw [outputSlice, flatEntries, this, cfg.codec.ofPairs_entries]

/-- What `get_tokens` answers for a key that holds a record's own fields. -/
theorem getTokens_of_fieldMap {db : Db} {o : ρ} {t : DateTime}
    (h : db.tokens.lookup (cfg.tokenKey ns (cfg.codec.publicHash o)) = some (cfg.codec.fieldMap o)) :
    getTokens cfg t ns [cfg.codec.publicHash o] db =
      .ok [cfg.codec.fromFields t (cfg.codec.publicHash o) (cfg.codec.fieldMap o)] := by
  have hne : cfg.codec.fieldMap o ≠ ∅ := fun he => by
    have := cfg.codec.lookup_amount o
    rw [he] at this
    simp at this
  simp [getTokens, hgetall, h, hne]

/-- **Stored output fields.** For every pipeline and every op of it answered `Ok`: right after
its script each output's key holds exactly the field map `to_fields` writes, and `get_tokens`
gives back every output whose codec round-trips, if and only if the op's outputs are aligned. -/
theorem stored_iff_aligned (ops : List (ReplaceOp ρ)) (db : Db) (i : Nat) (hi : i < ops.length)
    (hok : (batchReplace cfg now ns ops db).1[i]? = some .ok) :
    (∀ o ∈ ops[i].outputs,
      (dbAt cfg now ns ops (i + 1) db).tokens.lookup (cfg.tokenKey ns (cfg.codec.publicHash o)) =
        some (cfg.codec.fieldMap o) ∧
      ∀ t, cfg.codec.fromFields t (cfg.codec.publicHash o) (cfg.codec.fieldMap o) = some o →
        getTokens cfg t ns [cfg.codec.publicHash o] (dbAt cfg now ns ops (i + 1) db) = .ok [some o]) ↔
      LayoutAligned cfg ops[i] := by
  obtain ⟨-, hr, hins⟩ := (batchReplace_ok_iff hi).1 hok
  rw [← slices_own_iff_aligned, dbAt_succ cfg now ns hi]
  constructor
  · intro h j hj
    have := (h ops[i].outputs[j] (List.getElem_mem hj)).1
    rw [lookup_output hr hins hj, Option.some.injEq] at this
    exact this
  · intro h o ho
    obtain ⟨j, hj, rfl⟩ := List.mem_iff_getElem.1 ho
    have hlook : (replaceLua (replaceCall cfg now ns ops[i]) (dbAt cfg now ns ops i db)).2.tokens.lookup
        (cfg.tokenKey ns (cfg.codec.publicHash ops[i].outputs[j])) = some (cfg.codec.fieldMap ops[i].outputs[j]) := by
      rw [lookup_output hr hins hj, h j hj]
    exact ⟨hlook, fun t ht => by rw [getTokens_of_fieldMap hlook, ht]⟩

/-! ## What a failure leaves -/

/-- The marked inputs change the store: an unspent key reads `spent = 1` afterwards. -/
theorem spent_afterOutputs {op : ReplaceOp ρ} {t : Tokens} {m : Nat} {k : String} (hk : k ∈ inputKeys cfg ns op)
    (hr : InputsReady cfg ns op t) (hfresh : ∀ k ∈ (outputKeys cfg ns op).take m, k ∉ t) :
    Spent (afterOutputs cfg now ns op m t) k := by
  have hout : k ∉ ((outputPuts (fieldsPerOutput cfg op.outputs) (flatEntries cfg op) 0
    (outputKeys cfg ns op)).take m).map
      Prod.fst := by
    rw [List.map_take, outputPuts_keys]
    exact fun h => hfresh k h (hr k hk).1
  rw [Spent, hget, afterOutputs, FMap.lookup_putAll_of_notMem hout, lookup_markInputs, if_pos hk]
  simp [lookup_spentFields]

theorem afterOutputs_zero_nil {op : ReplaceOp ρ} (hin : op.inputs = []) (t : Tokens) :
    afterOutputs cfg now ns op 0 t = t := by
  simp [afterOutputs, inputKeys, hin, markInputs]

theorem first_slice_ne_nil {op : ReplaceOp ρ} (h : op.outputs ≠ []) : outputSlice cfg op 0 ≠ [] := by
  obtain ⟨o, os, ho⟩ := List.exists_cons_of_ne_nil h
  have hfpo : fieldsPerOutput cfg op.outputs = (cfg.codec.entries o).length := by
    rw [ho, cfg.codec.length_entries]
    rfl
  rw [outputSlice, slice_zero, hfpo, flatEntries, ho, List.map_cons, List.flatten_cons, List.take_left]
  exact cfg.codec.entries_ne_nil o

/-- **When a script leaves no trace.** Some input was not ready; or there are no inputs, and
either the first output was refused or there is nothing to write but an audit row already there. -/
theorem replaceLua_unchanged_iff {op : ReplaceOp ρ} {db : Db} :
    (replaceLua (replaceCall cfg now ns op) db).2 = db ↔
      ¬ InputsReady cfg ns op db.tokens ∨
      (op.inputs = [] ∧ ((∃ k, (outputKeys cfg ns op).head? = some k ∧ k ∈ db.tokens) ∨
        (op.outputs = [] ∧ db.audit.lookup (cfg.keys.replacementKey cfg.name ns op.record.id) =
          some (.replacement op.record)))) := by
  rcases replaceLua_cases cfg now ns op db with ⟨hr, e, he⟩ | ⟨hr, m, reply, hm, hnd, hfresh, hne, hend, he⟩
  · rw [he]
    simp [hr]
  rw [he]
  by_cases hin : op.inputs = []
  swap
  · -- an input was marked
    obtain ⟨h, hs, hin'⟩ := List.exists_cons_of_ne_nil hin
    have hk : cfg.tokenKey ns h ∈ inputKeys cfg ns op := by simp [inputKeys, hin']
    simp only [hr, not_true_eq_false, hin, false_and, or_self, iff_false]
    intro heq
    have hsp : Spent (afterOutputs cfg now ns op m db.tokens) (cfg.tokenKey ns h) := spent_afterOutputs hk hr hfresh
    rw [show afterOutputs cfg now ns op m db.tokens = db.tokens from congrArg Db.tokens heq] at hsp
    exact (hr _ hk).2 hsp
  simp only [hr, not_true_eq_false, hin, true_and, false_or]
  have hkeys : ∀ {k : String}, m ≠ 0 → (outputKeys cfg ns op).head? = some k → k ∉ db.tokens ∧
      k ∈ afterOutputs cfg now ns op m db.tokens := by
    intro k h0 hk
    obtain ⟨ks, hks⟩ : ∃ ks, outputKeys cfg ns op = k :: ks := ⟨_, List.eq_cons_of_mem_head? hk⟩
    have hmem : k ∈ (outputKeys cfg ns op).take m := by
      obtain ⟨m', rfl⟩ := Nat.exists_eq_succ_of_ne_zero h0
      simp [hks]
    refine ⟨hfresh k hmem, FMap.mem_putAll.2 (Or.inr ?_)⟩
    rwa [List.map_take, outputPuts_keys]
  constructor
  · intro heq
    have htok : afterOutputs cfg now ns op m db.tokens = db.tokens := congrArg Db.tokens heq
    have h0 : m = 0 ∨ outputKeys cfg ns op = [] := by
      by_contra hcon
      rw [not_or] at hcon
      obtain ⟨k, ks, hks⟩ := List.exists_cons_of_ne_nil hcon.2
      obtain ⟨hk₁, hk₂⟩ := hkeys (k := k) hcon.1 (by rw [hks]; rfl)
      exact hk₁ (htok ▸ hk₂)
    cases hend with
    | done hlen =>
      have hnil : op.outputs = [] := by
        rcases h0 with h0 | h0
        · rw [h0] at hlen
          simpa [outputKeys] using hlen.symm
        · simpa [outputKeys] using h0
      refine Or.inr ⟨hnil, ?_⟩
      have haud := congrArg (fun d : Db => d.audit.lookup (cfg.keys.replacementKey cfg.name ns op.record.id)) heq
      simpa using haud.symm
    | refused k hk hmem =>
      obtain rfl : m = 0 := h0.resolve_right fun h => by simp [h] at hk
      refine Or.inl ⟨k, by rw [List.head?_eq_getElem?]; exact hk, ?_⟩
      simpa using hmem
    | noFields k hk _ _ hs =>
      obtain rfl : m = 0 := h0.resolve_right fun h => by simp [h] at hk
      refine absurd hs (first_slice_ne_nil fun hnil => ?_)
      simp [outputKeys, hnil] at hk
  · rintro (⟨k, hk, hmem⟩ | ⟨hnil, haud⟩)
    · obtain rfl : m = 0 := by
        by_contra h0
        exact (hkeys h0 hk).1 hmem
      have hreply : reply ≠ .ok := by
        rintro rfl
        cases hend with
        | done hlen => simp [List.eq_nil_of_length_eq_zero hlen.symm] at hk
      rw [if_neg hreply, afterOutputs_zero_nil hin]
    · have hkeys0 : outputKeys cfg ns op = [] := by simp [outputKeys, hnil]
      have hm0 : m = 0 := by simpa [hkeys0] using hm
      have hreply : reply = .ok := by
        cases hend with
        | done => rfl
        | refused k hk => simp [hkeys0] at hk
        | noFields k hk => simp [hkeys0] at hk
      subst hreply hm0
      rw [afterOutputs_zero_nil hin, if_pos rfl]
      congr
      refine Finmap.ext_lookup fun j => ?_
      rw [FMap.lookup_insert_ite]
      split
      · rename_i h; rw [h, haud]
      · rfl

/-- The state and op before one script for which a `Failed` answer is harmless. -/
def HarmlessTurn (cfg : StoreConfig ρ) (ns : Namespace) (raises : Prop) (op : ReplaceOp ρ) (db : Db) : Prop :=
  ¬ InputsReady cfg ns op db.tokens ∨ (Insertable cfg ns op db.tokens ∧ ¬ raises) ∨
  (op.inputs = [] ∧ ((∃ k, (outputKeys cfg ns op).head? = some k ∧ k ∈ db.tokens) ∨
    (op.outputs = [] ∧ db.audit.lookup (cfg.keys.replacementKey cfg.name ns op.record.id) =
      some (.replacement op.record))))

/-- **A failed replace and the store.** For every store and every list of ops: each op answered
`Failed` leaves the store as its script found it, if and only if at its turn every op either
finds an input not ready, or can insert all its outputs while no script of the pipeline
raises, or has no inputs and is stopped at its first output (or has nothing to write). -/
theorem failed_unchanged_iff (ops : List (ReplaceOp ρ)) (db : Db) :
    (∀ (i : Nat) (_ : i < ops.length) (msg : String), (batchReplace cfg now ns ops db).1[i]? = some (.failed msg) →
      dbAt cfg now ns ops (i + 1) db = dbAt cfg now ns ops i db) ↔
    ∀ (i : Nat) (hi : i < ops.length),
      HarmlessTurn cfg ns (PipelineRaises cfg now ns ops db) ops[i] (dbAt cfg now ns ops i db) := by
  refine forall_congr' fun i => forall_congr' fun hi => ?_
  rw [← forall_exists_index (p := fun msg => (batchReplace cfg now ns ops db).1[i]? = some (.failed msg))
    (q := fun _ => dbAt cfg now ns ops (i + 1) db = dbAt cfg now ns ops i db), batchReplace_failed_iff hi,
    batchReplace_ok_iff hi, dbAt_succ cfg now ns hi, replaceLua_unchanged_iff, HarmlessTurn]
  by_cases hr : InputsReady cfg ns ops[i] (dbAt cfg now ns ops i db).tokens
  · by_cases hins : Insertable cfg ns ops[i] (dbAt cfg now ns ops i db).tokens <;>
      by_cases hR : PipelineRaises cfg now ns ops db <;> simp [hr, hins, hR]
  · simp [hr]

end

/-! ## Two ops the contract does not survive -/

/-- The store that holds exactly these records, as `insert_tokens` leaves them. -/
def dbOf {ρ : Type} (cfg : StoreConfig ρ) (rs : List ρ) : Db :=
  { Db.empty with tokens := FMap.ofPairs (rs.map fun r => (cfg.recordKey r, cfg.codec.fieldMap r)) }

namespace Sample

def hash (c : Char) : String := String.ofList (List.replicate 64 c)
def contract : ContractId := ⟨"rgb20-usdc"⟩
def issuer : PgpFingerprint := ⟨"aabbccddeeff00112233445566778899aabbccdd"⟩
def ns : Namespace := .scopedTo contract issuer

def lock : HtlcState := ⟨hash '1', 1800, hash '2', hash '3'⟩

def cfg : StoreConfig RgbFungibleRecord where
  name := "rgb-fungible"
  keys := .namespacedKeys
  codec := rgbFungibleCodec .atEpoch (.ofState lock)
  chrono := .atEpoch
  serviceError := "Wrong number of args calling Redis command from script"

/-- An unspent RGB20 record worth `n` wats. -/
def record (c : Char) (n : Int) (htlc : Option HtlcState) : RgbFungibleRecord :=
  ⟨hash c, I64.wrap n, false, ⟨0⟩, none, .replaced, contract, issuer, htlc⟩

def replaceOp (inputs : List String) (outputs : List RgbFungibleRecord) : ReplaceOp RgbFungibleRecord where
  inputs := inputs
  outputs := outputs
  record := ⟨"op-1", inputs, outputs.map RgbFungibleRecord.publicHash, 0, ⟨0⟩⟩

/-- One input split into a plain and a locked output. -/
def mixedOp : ReplaceOp RgbFungibleRecord := replaceOp [hash 'a'] [record 'b' 1 none, record 'c' 2 (some lock)]

/-- The same split with two plain outputs. -/
def plainOp : ReplaceOp RgbFungibleRecord := replaceOp [hash 'a'] [record 'b' 1 none, record 'c' 2 none]

/-- The second output repeats the first. -/
def repeatedOp : ReplaceOp RgbFungibleRecord := replaceOp [hash 'a'] [record 'b' 1 none, record 'b' 2 none]

end Sample

open Webycash.Redis.Sample

/-- The op is answered `Ok`, yet the locked output is stored without its `spent` field: the
stride of the plain first output is one pair short. -/
theorem mixed_outputs_lose_field :
    (batchReplace cfg ⟨0⟩ ns [mixedOp] (dbOf cfg [record 'a' 3 none])).1 = [.ok] ∧
    (batchReplace cfg ⟨0⟩ ns [mixedOp] (dbOf cfg [record 'a' 3 none])).2.tokens.lookup
      (cfg.tokenKey ns (hash 'c')) ≠ some (cfg.codec.fieldMap (record 'c' 2 (some lock))) ∧
    hget (batchReplace cfg ⟨0⟩ ns [mixedOp] (dbOf cfg [record 'a' 3 none])).2.tokens
      (cfg.tokenKey ns (hash 'c')) "spent" = none := by
  decide +kernel

/-- Two plain outputs are aligned and stored as they are. -/
theorem plain_outputs_stored :
    (batchReplace cfg ⟨0⟩ ns [plainOp] (dbOf cfg [record 'a' 3 none])).1[0]? = some .ok ∧
    (∀ o ∈ plainOp.outputs,
      (dbAt cfg ⟨0⟩ ns [plainOp] 1 (dbOf cfg [record 'a' 3 none])).tokens.lookup
        (cfg.tokenKey ns (cfg.codec.publicHash o)) = some (cfg.codec.fieldMap o) ∧
      ∀ t, cfg.codec.fromFields t (cfg.codec.publicHash o) (cfg.codec.fieldMap o) = some o →
        getTokens cfg t ns [cfg.codec.publicHash o] (dbAt cfg ⟨0⟩ ns [plainOp] 1 (dbOf cfg [record 'a' 3 none])) =
          .ok [some o]) := by
  have hok : (batchReplace cfg ⟨0⟩ ns [plainOp] (dbOf cfg [record 'a' 3 none])).1[0]? = some .ok :=
    by decide +kernel
  exact ⟨hok, (stored_iff_aligned [plainOp] (dbOf cfg [record 'a' 3 none]) 0 (by decide) hok).2 (by decide +kernel)⟩

/-- The op fails on its repeated output, with its input spent and its first output inserted. -/
theorem repeated_output_leaves_traces :
    (batchReplace cfg ⟨0⟩ ns [repeatedOp] (dbOf cfg [record 'a' 3 none])).1 =
      [.failed ("output token already exists: " ++ cfg.tokenKey ns (hash 'b'))] ∧
    Spent (dbAt cfg ⟨0⟩ ns [repeatedOp] 1 (dbOf cfg [record 'a' 3 none])).tokens (cfg.tokenKey ns (hash 'a')) ∧
    cfg.tokenKey ns (hash 'b') ∈ (dbAt cfg ⟨0⟩ ns [repeatedOp] 1 (dbOf cfg [record 'a' 3 none])).tokens ∧
    dbAt cfg ⟨0⟩ ns [repeatedOp] 1 (dbOf cfg [record 'a' 3 none]) ≠
      dbAt cfg ⟨0⟩ ns [repeatedOp] 0 (dbOf cfg [record 'a' 3 none]) := by
  decide +kernel

end Webycash.Redis
