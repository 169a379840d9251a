import Webycash.Lib.Spend
import Webycash.Storage.Burn
import Webycash.Storage.RedisAmounts
/-!
# Double spends across operations

Any number of clients send replaces and burns to one store; what they share are the atomic steps,
one script or transaction per op, in any order. `no_double_spend` is the accounting of every such
order: each key is consumed by at most one op that succeeded, and is spent exactly when there is
one. DynamoDB and FoundationDB need nothing for it. `REPLACE_LUA` marks its inputs before it looks
at its outputs, so on Redis an op with an output that cannot be inserted spends its inputs and
fails (`failed_replace_spends`).
-/

namespace Webycash

/-- One atomic step of some client. -/
inductive SpendOp (ρ : Type)
  | replace (now : DateTime) (ns : Namespace) (op : ReplaceOp ρ)
  | burn (now : DateTime) (ns : Namespace) (hash : String) (record : BurnRecord)

section

variable {ρ : Type} (cfg : StoreConfig ρ)

/-- The keys the op wants to consume. -/
def SpendOp.inputKeys : SpendOp ρ → List String
  | .replace _ ns op => Webycash.inputKeys cfg ns op
  | .burn _ ns hash _ => [cfg.tokenKey ns hash]

/-- Whether the op succeeded, and the store after it. -/
def SpendOp.exec (b : Backend) (service : Dynamo.Env) (db : b.Db) : SpendOp ρ → Bool × b.Db
  | .replace now ns op =>
    let (results, db') := (b.store cfg now service).batchReplace ns [op] db
    (decide (results = [.ok]), db')
  | .burn now ns hash record =>
    let (answer, db') := (b.store cfg now service).batchBurn ns [(hash, record)] db
    (decide (answer = .ok ()), db')

/-- All outputs of an op have the same field names. -/
def SameFieldNames (op : ReplaceOp ρ) : Prop :=
  ∀ o ∈ op.outputs, ∀ o' ∈ op.outputs,
    ((cfg.codec.toFields o).map Prod.fst).Perm ((cfg.codec.toFields o').map Prod.fst)

/-- The outputs come unspent, with one set of field names; and on Redis, where all inputs are
unspent, every output has a key of its own that is not stored yet. -/
def SpendOp.Sound (b : Backend) (db : b.Db) : SpendOp ρ → Prop
  | .replace _ ns op => SameFieldNames cfg op ∧ (∀ o ∈ op.outputs, cfg.codec.spent o = false) ∧
    (b = .redis → (b.seals db).Open (Webycash.inputKeys cfg ns op) → (b.seals db).Fresh (outputKeys cfg ns op))
  | .burn _ _ _ _ => True

instance decidableSameFieldNames (op : ReplaceOp ρ) : Decidable (SameFieldNames cfg op) :=
  inferInstanceAs (Decidable (∀ o ∈ op.outputs, ∀ o' ∈ op.outputs, List.Perm _ _))

instance decidableSound (b : Backend) (db : b.Db) : ∀ a : SpendOp ρ, Decidable (a.Sound cfg b db)
  | .replace _ _ _ => inferInstanceAs (Decidable (_ ∧ (∀ o ∈ _, _ = _) ∧ (_ → _ → _)))
  | .burn _ _ _ _ => isTrue trivial

/-- A step of the store, labelled with the op and its outcome. -/
def SpendStep (b : Backend) (service : Dynamo.Env) (db : b.Db) (event : SpendOp ρ × Bool) (db' : b.Db) : Prop :=
  event.1.exec cfg b service db = (event.2, db') ∧ event.1.Sound cfg b db

variable {cfg} {now : DateTime} {ns : Namespace} {op : ReplaceOp ρ}

/-! ## One op -/

namespace Redis

variable {db : Db}

/-- Outputs with one set of names are aligned, so every slice holds something. -/
theorem slicesFilled_of_sameFieldNames (h : SameFieldNames cfg op) : SlicesFilled cfg op := by
  have hlen : ∀ l ∈ op.outputs.map cfg.codec.entries, l.length = fieldsPerOutput cfg op.outputs := by
    intro l hl
    obtain ⟨o, ho, rfl⟩ := List.mem_map.1 hl
    cases hout : op.outputs with
    | nil => simp [hout] at ho
    | cons o' os =>
      have hperm := (h o ho o' (by simp [hout])).length_eq
      simpa [fieldsPerOutput, cfg.codec.length_entries] using hperm
  intro i hi hnil
  have hi' : i < (op.outputs.map cfg.codec.entries).length := by simpa using hi
  have hslice : outputSlice cfg op i = (op.outputs.map cfg.codec.entries)[i] :=
    Stride.slice_flatten (Stride.aligned_of_forall_length hlen) i hi'
  rw [hslice, List.getElem_map] at hnil
  exact cfg.codec.entries_ne_nil _ hnil

theorem replace_spends (hnames : SameFieldNames cfg op) (hun : ∀ o ∈ op.outputs, cfg.codec.spent o = false)
    (hfresh : (seals db.tokens).Open (inputKeys cfg ns op) → (seals db.tokens).Fresh (outputKeys cfg ns op)) :
    Seals.Spends (seals db.tokens) (seals (batchReplace cfg now ns [op] db).2.tokens) (inputKeys cfg ns op)
      (decide ((batchReplace cfg now ns [op] db).1 = [.ok])) := by
  by_cases hok : (batchReplace cfg now ns [op] db).1 = [.ok]
  · rw [decide_eq_true hok]
    obtain ⟨hopen, hnew, -⟩ := batchReplace_single_ok_iff.1 hok
    refine .of_exchanged (batchReplace_exchanged hok) hopen hnew fun k hk => ?_
    obtain ⟨o, ho, rfl⟩ := List.mem_map.1 hk
    obtain ⟨i, hi, rfl⟩ := List.getElem_of_mem ho
    rw [Ne, seals_eq_closed, Spent, hget, (lookup_accepted hok).2.2 i hi]
    exact slice_unspent hun i
  · -- a replace that fails has failed at its inputs
    rw [decide_eq_false hok]
    have hnot : ¬ (seals db.tokens).Open (inputKeys cfg ns op) := fun hopen =>
      hok (batchReplace_single_ok_iff.2 ⟨hopen, hfresh hopen, slicesFilled_of_sameFieldNames hnames⟩)
    have hdb : (batchReplace cfg now ns [op] db).2 = db := by
      rw [batchReplace_single_db]
      rcases replaceLua_cases cfg now ns op db with ⟨-, e, he⟩ | ⟨hr, -⟩
      · rw [he]
      · exact absurd (inputsReady_iff.1 hr) hnot
    rw [hdb]
    exact .failed fun _ => Iff.rfl

theorem burn_spends {hash : String} {record : BurnRecord} :
    Seals.Spends (seals db.tokens) (seals (batchBurn cfg now ns [(hash, record)] db).2.tokens) [cfg.tokenKey ns hash]
      (decide ((batchBurn cfg now ns [(hash, record)] db).1 = .ok ())) := by
  rw [batchBurn_eq_closeEach, Closer.closeEach_singleton]
  exact (closer cfg now ns).spends (hash, record) db

end Redis

namespace Dynamo

variable {db : Db}

theorem replace_spends (hun : ∀ o ∈ op.outputs, cfg.codec.spent o = false) :
    Seals.Spends (seals db.tokens) (seals (batchReplace cfg now ns [op] db).2.tokens) (inputKeys cfg ns op)
      (decide ((batchReplace cfg now ns [op] db).1 = [.ok])) := by
  by_cases hok : (batchReplace cfg now ns [op] db).1 = [.ok]
  · rw [decide_eq_true hok]
    obtain ⟨-, -, hopen, hnew⟩ := batchReplace_single_ok_iff.1 hok
    refine .of_exchanged (batchReplace_exchanged hok) hopen hnew fun k hk => ?_
    obtain ⟨item, hitem⟩ : ∃ item, FMap.lastPut (outputPuts cfg ns op) k = some item :=
      Option.ne_none_iff_exists'.1 fun hn => FMap.lastPut_eq_none_iff.1 hn (by rwa [outputPuts_keys])
    obtain ⟨o, ho, he⟩ := List.mem_map.1 (FMap.lastPut_mem hitem)
    obtain rfl : itemFor cfg ns o = item := congrArg Prod.snd he
    have hexec : (execReplace cfg now ns op db).1 = .ok () := by
      rw [batchReplace_single] at hok
      exact ReplaceResult.ofExcept_eq_ok.1 hok
    rw [batchReplace_single, seals, execReplace_tokens hexec, lookup_replaced, hitem, Option.some_or, Option.map_some,
      lookup_spent_itemFor, hun o ho]
    decide
  · rw [decide_eq_false hok]
    have hdb : (batchReplace cfg now ns [op] db).2 = db := by
      rw [batchReplace_single] at hok ⊢
      exact execReplace_of_not_ok fun h => hok (ReplaceResult.ofExcept_eq_ok.2 h)
    rw [hdb]
    exact .failed fun _ => Iff.rfl

theorem burn_spends {hash : String} {record : BurnRecord} :
    Seals.Spends (seals db.tokens) (seals (batchBurn cfg now ns [(hash, record)] db).2.tokens) [cfg.tokenKey ns hash]
      (decide ((batchBurn cfg now ns [(hash, record)] db).1 = .ok ())) := by
  rw [batchBurn_eq_closeUntil, Closer.closeUntil_singleton]
  exact (closer cfg now ns).spends (hash, record) db

end Dynamo

namespace Fdb

variable {db : Db}

theorem replace_spends (hun : ∀ o ∈ op.outputs, cfg.codec.spent o = false) :
    Seals.Spends (seals db.tokens) (seals (batchReplace cfg now ns [op] db).2.tokens) (inputKeys cfg ns op)
      (decide ((batchReplace cfg now ns [op] db).1 = [.ok])) := by
  by_cases hok : (batchReplace cfg now ns [op] db).1 = [.ok]
  · rw [decide_eq_true hok]
    obtain ⟨-, hopen, hnew⟩ := batchReplace_single_ok_iff.1 hok
    refine .of_exchanged (batchReplace_exchanged hok) hopen hnew fun k hk => ?_
    have hexec : (execReplace cfg now ns op db).1 = .ok () := by
      rw [batchReplace_single] at hok
      exact ReplaceResult.ofExcept_eq_ok.1 hok
    obtain ⟨doc, hdoc⟩ : ∃ doc, FMap.lastPut (op.outputs.map (entryOf cfg)) k = some doc :=
      Option.ne_none_iff_exists'.1 fun hn => FMap.lastPut_eq_none_iff.1 hn (by rwa [entries_keys])
    obtain ⟨o, ho, he⟩ := List.mem_map.1 (FMap.lastPut_mem hdoc)
    obtain rfl : cfg.codec.toJson o = doc := congrArg Prod.snd he
    rw [batchReplace_single, seals, execReplace_tokens hexec, FMap.lookup_putAll, hdoc, Option.some_or, Option.map_some,
      alreadySpent, cfg.codec.json_spent, hun o ho]
    decide
  · rw [decide_eq_false hok]
    have hdb : (batchReplace cfg now ns [op] db).2 = db := by
      rw [batchReplace_single] at hok ⊢
      exact execReplace_of_not_ok fun h => hok (ReplaceResult.ofExcept_eq_ok.2 h)
    rw [hdb]
    exact .failed fun _ => Iff.rfl

theorem burn_spends {hash : String} {record : BurnRecord} :
    Seals.Spends (seals db.tokens) (seals (batchBurn cfg now ns [(hash, record)] db).2.tokens) [cfg.tokenKey ns hash]
      (decide ((batchBurn cfg now ns [(hash, record)] db).1 = .ok ())) := by
  rw [batchBurn_eq_closeUntil, Closer.closeUntil_singleton]
  exact (closer cfg now ns).spends (hash, record) db

end Fdb

/-! ## Any op, any order -/

/-- **One step is a spend**, on every backend. -/
theorem SpendStep.spends {b : Backend} {service : Dynamo.Env} {db db' : b.Db} {event : SpendOp ρ × Bool}
    (h : SpendStep cfg b service db event db') :
    Seals.Spends (b.seals db) (b.seals db') (event.1.inputKeys cfg) event.2 := by
  obtain ⟨a, ok⟩ := event
  obtain ⟨hexec, hsound⟩ := h
  cases a with
  | replace now ns op =>
    obtain ⟨hnames, hun, hfresh⟩ := hsound
    obtain ⟨rfl, rfl⟩ := Prod.mk.inj hexec
    cases b with
    | redis => exact Redis.replace_spends hnames hun (hfresh rfl)
    | dynamo => exact Dynamo.replace_spends hun
    | fdb => exact Fdb.replace_spends hun
  | burn now ns hash record =>
    obtain ⟨rfl, rfl⟩ := Prod.mk.inj hexec
    cases b with
    | redis => exact Redis.burn_spends
    | dynamo => exact Dynamo.burn_spends
    | fdb => exact Fdb.burn_spends

/-- What the executor does is a step. -/
theorem spendStep_exec {b : Backend} {service : Dynamo.Env} {db : b.Db} {a : SpendOp ρ} {ok : Bool}
    (hs : a.Sound cfg b db)
    (hok : (a.exec cfg b service db).1 = ok) : SpendStep cfg b service db (a, ok) (a.exec cfg b service db).2 :=
  ⟨Prod.ext hok rfl, hs⟩

/-- **No double spend.** In every order of replaces and burns of any number of clients, from every
store: a key that was spent is consumed by no op that succeeds, every key by at most one, and the
spent keys are those that were and those one successful op consumed. -/
theorem no_double_spend (cfg : StoreConfig ρ) (b : Backend) (service : Dynamo.Env) (db₀ db : b.Db)
    (events : List (SpendOp ρ × Bool)) (h : Run (SpendStep cfg b service) db₀ events db) (k : String) :
    (b.seals db₀ k = some true → Seals.spenders (fun e => e.1.inputKeys cfg) Prod.snd events k = []) ∧
    (Seals.spenders (fun e => e.1.inputKeys cfg) Prod.snd events k).length ≤ 1 ∧
    (b.seals db k = some true ↔
      b.seals db₀ k = some true ∨ (Seals.spenders (fun e => e.1.inputKeys cfg) Prod.snd events k).length = 1) :=
  Seals.Spends.history (fun _ _ _ hs => hs.spends) h k

end

/-! ## A race for one token -/

open Redis.Sample

/-- Split the token, burn it, burn a part. -/
def splitA : SpendOp RgbFungibleRecord := .replace ⟨0⟩ ns plainOp
def burnToken (c : Char) : SpendOp RgbFungibleRecord := .burn ⟨0⟩ ns (hash c) ⟨"burn-1", hash c, 0, ⟨0⟩⟩

/-- Replace the token by one output named twice. -/
def twinSplit : SpendOp RgbFungibleRecord :=
  .replace ⟨0⟩ ns (replaceOp [hash 'a'] [record 'b' 1 none, record 'b' 1 none])

/-- The store of the race, and what each op leaves. -/
def raceStart : Redis.Db := Redis.dbOf cfg [record 'a' 3 none]
def afterSplit : Redis.Db := (splitA.exec cfg .redis .calm raceStart).2
def afterLate : Redis.Db := ((burnToken 'a').exec cfg .redis .calm afterSplit).2
def afterPart : Redis.Db := ((burnToken 'b').exec cfg .redis .calm afterLate).2

/-- Distinct inputs, one set of field names, an output key nobody else uses: the op fails, and its
input is spent without an op that succeeded. -/
theorem failed_replace_spends :
    SameFieldNames cfg (replaceOp [hash 'a'] [record 'b' 1 none, record 'b' 1 none]) ∧
    (twinSplit.inputKeys cfg).Nodup ∧
    Redis.seals raceStart.tokens (cfg.tokenKey ns (hash 'a')) = some false ∧
    (twinSplit.exec cfg .redis .calm raceStart).1 = false ∧
    ¬ (Redis.seals (twinSplit.exec cfg .redis .calm raceStart).2.tokens (cfg.tokenKey ns (hash 'a')) = some true ↔
      (Seals.spenders (fun e => e.1.inputKeys cfg) Prod.snd [(twinSplit, false)]
        (cfg.tokenKey ns (hash 'a'))).length = 1) := by
  decide +kernel

/-- The split wins against the burn of the same token, and a part is burned after it. -/
theorem race_for_one_token :
    Run (SpendStep cfg .redis .calm) raceStart [(splitA, true), (burnToken 'a', false),
      (burnToken 'b', true)] afterPart ∧
    Redis.seals afterPart.tokens (cfg.tokenKey ns (hash 'a')) = some true ∧
    (Seals.spenders (fun e => e.1.inputKeys cfg) Prod.snd [(splitA, true), (burnToken 'a', false),
      (burnToken 'b', true)] (cfg.tokenKey ns (hash 'a'))).length ≤ 1 := by
  have hsound : splitA.Sound cfg .redis raceStart :=
    @of_decide_eq_true _ (decidableSound cfg .redis raceStart splitA) (by decide +kernel)
  have hrun : Run (SpendStep cfg .redis .calm) raceStart [(splitA, true), (burnToken 'a', false),
      (burnToken 'b', true)] afterPart :=
    .cons (spendStep_exec hsound (by decide +kernel))
      (.cons (spendStep_exec trivial (by decide +kernel)) (.cons (spendStep_exec trivial (by decide +kernel)) (.nil _)))
  have hspent : Redis.seals afterPart.tokens (cfg.tokenKey ns (hash 'a')) = some true := by decide +kernel
  exact And.intro hrun (And.intro hspent
    (no_double_spend cfg .redis .calm raceStart afterPart _ hrun (cfg.tokenKey ns (hash 'a'))).2.1)

end Webycash
