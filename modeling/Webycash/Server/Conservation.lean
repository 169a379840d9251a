import Webycash.Lib.Run
import Webycash.Server.Plans
import Webycash.Storage.RedisAmounts
/-!
# Value under `replace` (Redis)

`replace` compares the amounts written in the tokens of the request; the ledger keeps amounts by
the hash of the secret alone, and nothing compares the two. `replace_conserves_iff` says exactly
which accepted requests conserve the stored value, and that a run of such requests keeps the
unspent total of every namespace.
-/

namespace Webycash

open Redis

section

variable {σ ρ : Type}

/-- Whatever op the request hands over is fair; an empty request hands over none. -/
def FairReplace (A : SplittableAsset σ ρ) (cfg : StoreConfig ρ) (env : RequestEnv) (req : ReplaceRequest)
    (db : Db) : Prop :=
  ∀ ns op, planReplace A (Redis.store cfg env.now) env req db = .ok (some (ns, op)) → FairOp cfg ns op db.tokens

theorem fairReplace_of_plan {A : SplittableAsset σ ρ} {cfg : StoreConfig ρ} {env : RequestEnv}
    {req : ReplaceRequest} {db : Db} {ns : Namespace} {op : ReplaceOp ρ}
    (h : planReplace A (Redis.store cfg env.now) env req db = .ok (some (ns, op))) :
    FairReplace A cfg env req db ↔ FairOp cfg ns op db.tokens := by
  refine ⟨fun hf => hf ns op h, fun hf ns' op' h' => ?_⟩
  rw [h] at h'
  cases h'
  exact hf

theorem fairReplace_of_none {A : SplittableAsset σ ρ} {cfg : StoreConfig ρ} {env : RequestEnv}
    {req : ReplaceRequest} {db : Db}
    (h : planReplace A (Redis.store cfg env.now) env req db = .ok none) : FairReplace A cfg env req db := by
  intro ns op h'
  rw [h] at h'
  cases h'

instance decidableFairReplace (A : SplittableAsset σ ρ) (cfg : StoreConfig ρ) (env : RequestEnv)
    (req : ReplaceRequest) (db : Db) :
    Decidable (FairReplace A cfg env req db) :=
  match h : planReplace A (Redis.store cfg env.now) env req db with
  | .ok (some (ns, op)) => decidable_of_iff (FairOp cfg ns op db.tokens) (fairReplace_of_plan h).symm
  | .ok none => isTrue (fairReplace_of_none h)
  | .error _ => isTrue fun _ _ h' => by rw [h] at h'; cases h'

/-- An accepted replace that is fair where it is made. -/
def FairStep (A : SplittableAsset σ ρ) (cfg : StoreConfig ρ) (db : Db) (label : RequestEnv × ReplaceRequest)
    (db' : Db) : Prop :=
  (∃ body, replace A (Redis.store cfg label.1.now) label.1 label.2 db = (.ok body, db')) ∧
    FairReplace A cfg label.1 label.2 db

variable {A : SplittableAsset σ ρ} {keys : KeyStrategy} {chrono : Codec} {serviceError : String} {env : RequestEnv}
  {req : ReplaceRequest} {db db' : Db} {body : String}

/-- Every accepted replace either does nothing or had its planned op accepted. -/
theorem replace_ok {cfg : StoreConfig ρ} (h : replace A (Redis.store cfg env.now) env req db = (.ok body, db')) :
    (planReplace A (Redis.store cfg env.now) env req db = .ok none ∧ db' = db) ∨
    ∃ ns op, planReplace A (Redis.store cfg env.now) env req db = .ok (some (ns, op)) ∧
      (batchReplace cfg env.now ns [op] db).1 = [.ok] ∧ db' = (batchReplace cfg env.now ns [op] db).2 := by
  unfold replace commitReplace at h
  split at h
  · cases h
  · rename_i hplan
    cases h
    exact Or.inl ⟨hplan, rfl⟩
  · rename_i ns op hplan
    refine Or.inr ⟨ns, op, hplan, ?_, (Prod.mk.inj h).2.symm⟩
    have hans : replaceAnswer "no result from batch_replace" (batchReplace cfg env.now ns [op] db).1 = .ok body :=
      (Prod.mk.inj h).1
    by_cases hR : PipelineRaises cfg env.now ns [op] db
    · rw [batchReplace_of_raises hR] at hans
      cases hans
    · rw [batchReplace_of_not_raises hR] at hans ⊢
      simp only [runReplace, List.map_cons, List.map_nil] at hans ⊢
      revert hans
      cases (replaceLua (replaceCall cfg env.now ns op) db).1.toResult with
      | ok => intro _; rfl
      | failed e => intro hans; cases hans

theorem conserved_refl (t : Tokens) : Conserved t t := by
  have hs : spentBy t t = ∅ := Finset.filter_eq_empty_iff.2 fun _ _ h => h.1.2 h.2
  rw [Conserved, hs, insertedBy, Finset.sdiff_self]

/-- **One accepted replace conserves exactly when it is fair.** -/
theorem conserved_replace_iff
    (h : replace A (Redis.store (A.storeConfig keys chrono serviceError) env.now) env req db = (.ok body, db')) :
    Conserved db.tokens db'.tokens ↔ FairReplace A (A.storeConfig keys chrono serviceError) env req db := by
  rcases replace_ok h with ⟨hplan, rfl⟩ | ⟨ns, op, hplan, hok, rfl⟩
  · exact iff_of_true (conserved_refl _) (fairReplace_of_none hplan)
  · rw [fairReplace_of_plan hplan]
    exact conserved_iff hok

/-- **One fair replace keeps every total.** -/
theorem FairStep.unspentTotal {label : RequestEnv × ReplaceRequest}
    (h : FairStep A (A.storeConfig keys chrono serviceError) db label db') (ns : Namespace) :
    unspentTotal (A.storeConfig keys chrono serviceError) ns db'.tokens =
      unspentTotal (A.storeConfig keys chrono serviceError) ns db.tokens := by
  obtain ⟨⟨body, hrep⟩, hfair⟩ := h
  rcases replace_ok hrep with ⟨-, rfl⟩ | ⟨ns', op, hplan, hok, rfl⟩
  · rfl
  · rw [fairReplace_of_plan hplan] at hfair
    obtain ⟨ins, outs, recs, hp, -⟩ := planReplace_ok hplan
    exact unspentTotal_of_fair hok hfair (fun o ho => (hp.outputs_spec o ho).1) hp.plain hp.inputs_plain
      (fun o ho => (hp.outputs_spec o ho).2.1) ns

/-- Aligned outputs are fair exactly when the declared total is what the distinct inputs hold. -/
theorem fairOp_iff_declared {ns : Namespace} {op : ReplaceOp ρ}
    (hplan : planReplace A (Redis.store (A.storeConfig keys chrono serviceError) env.now) env req db =
      .ok (some (ns, op)))
    (hal : LayoutAligned (A.storeConfig keys chrono serviceError) op) :
    FairOp (A.storeConfig keys chrono serviceError) ns op db.tokens ↔
      ∑ k ∈ (inputKeys (A.storeConfig keys chrono serviceError) ns op).toFinset, amountAt db.tokens k =
        op.record.totalAmountWats.val := by
  obtain ⟨ins, outs, recs, hp, -, hsum⟩ := planReplace_ok hplan
  have hamounts : op.outputs.map (fun o => (A.codec.amountWats o).val) = outs.map fun s => (A.amount s).wats.val := by
    have := congrArg (List.map fun x : String × I64 × Namespace × Bool => x.2.1.val) hp.outputs
    simpa [List.map_map, Function.comp_def, HashRecord.face, A.record_amount] using this
  rw [FairOp, sum_sliceAmount_of_aligned hal, hsum, ← hamounts]
  rfl

/-- **Conservation of value.** For every flavour and every store: an accepted replace conserves
the stored value if and only if the amounts its distinct inputs hold add up to the amounts its
outputs find in their slices, which for aligned outputs is the declared total; and a run of such
replaces keeps the unspent total of every namespace. -/
theorem replace_conserves_iff (A : SplittableAsset σ ρ) (keys : KeyStrategy) (chrono : Codec)
    (serviceError : String) :
    (∀ (env : RequestEnv) (req : ReplaceRequest) (db : Db) (body : String) (db' : Db),
      replace A (Redis.store (A.storeConfig keys chrono serviceError) env.now) env req db = (.ok body, db') →
      (Conserved db.tokens db'.tokens ↔ FairReplace A (A.storeConfig keys chrono serviceError) env req db) ∧
      ∀ ns op, planReplace A (Redis.store (A.storeConfig keys chrono serviceError) env.now) env req db =
        .ok (some (ns, op)) →
        LayoutAligned (A.storeConfig keys chrono serviceError) op →
        (FairReplace A (A.storeConfig keys chrono serviceError) env req db ↔
          ∑ k ∈ (inputKeys (A.storeConfig keys chrono serviceError) ns op).toFinset, amountAt db.tokens k =
            op.record.totalAmountWats.val)) ∧
    (∀ (db db' : Db) (labels : List (RequestEnv × ReplaceRequest)),
      Run (FairStep A (A.storeConfig keys chrono serviceError)) db labels db' → ∀ ns : Namespace,
      unspentTotal (A.storeConfig keys chrono serviceError) ns db'.tokens =
        unspentTotal (A.storeConfig keys chrono serviceError) ns db.tokens) := by
  refine ⟨fun env req db body db' h => ⟨conserved_replace_iff h, fun ns op hplan hal => ?_⟩,
    fun db db' labels h ns => ?_⟩
  · rw [fairReplace_of_plan hplan]
    exact fairOp_iff_declared hplan hal
  · exact Run.const (f := fun d : Db => unspentTotal (A.storeConfig keys chrono serviceError) ns d.tokens)
      (fun _ _ _ hs => hs.unspentTotal ns) h

end

/-! ## A webcash server that was lied to -/

namespace Sample

def webcashCfg : StoreConfig WebcashRecord := (webcash .atEpoch).storeConfig .webcashLegacyKeys .atEpoch "service error"

/-- The ledger after one token worth 1 was mined. -/
def mined : Db :=
  (miningReport (webcash .atEpoch) (serveConfig (token "1" 'a')) (Redis.store webcashCfg ⟨0⟩) env
    (.ok ⟨preimageOf (token "1" 'a'), some true⟩) Db.empty).2

end Sample

open Sample

/-- The ledger after the token was replaced, declared as worth `amount`. -/
def afterReplace (req : ReplaceRequest) : Response × Db :=
  replace (webcash .atEpoch) (Redis.store webcashCfg ⟨0⟩) env req mined

/-- A token of 1 is mined and replaced as if it were worth 1000. -/
theorem inflating_replace :
    (afterReplace (swap [token "1000" 'a'] [token "1000" 'b'])).1 = success ∧
    ¬ Conserved mined.tokens (afterReplace (swap [token "1000" 'a'] [token "1000" 'b'])).2.tokens ∧
    unspentTotal webcashCfg .unscoped mined.tokens = 100000000 ∧
    unspentTotal webcashCfg .unscoped (afterReplace (swap [token "1000" 'a'] [token "1000" 'b'])).2.tokens =
      100000000000 := by
  decide +kernel

/-- An honest split of the same token. -/
def honestSplit : ReplaceRequest := swap [token "1" 'a'] [token "0.4" 'b', token "0.6" 'c']

/-- The honest split conserves. -/
theorem honest_split_conserves :
    (afterReplace honestSplit).1 = success ∧ FairReplace (webcash .atEpoch) webcashCfg env honestSplit mined ∧
    Conserved mined.tokens (afterReplace honestSplit).2.tokens := by
  have hok : (afterReplace honestSplit).1 = success := by decide +kernel
  have hfair : FairReplace (webcash .atEpoch) webcashCfg env honestSplit mined := by decide +kernel
  have hrun : afterReplace honestSplit = (success, (afterReplace honestSplit).2) := answered hok
  have hcons := (replace_conserves_iff (webcash .atEpoch) .webcashLegacyKeys .atEpoch "service error").1 env honestSplit
    mined _ _ hrun
  exact And.intro hok (And.intro hfair (hcons.1.2 hfair))

end Webycash
