import Webycash.Legacy.Replace
import Webycash.Lib.Run
import Webycash.Server.Route
import Webycash.Storage.Amounts
/-!
# Amounts in circulation are positive

The handlers of the splittable flavours compare totals and look at no amount by itself; the older
server does (`Legacy.Replace.parseTokens`). A token of amount zero passes every check, and a
replace of nothing by such tokens inserts records without having an input
(`zero_tokens_circulate`). `only_positive_circulates`: it takes a request that names one.
-/

namespace Webycash

section

variable {σ ρ : Type}

/-- Each token of the list that parses is worth something. -/
def PositiveTokens (A : SplittableAsset σ ρ) (tokens : List String) : Prop :=
  ∀ t ∈ tokens, ∀ s, A.parseSecret t = .ok s → 0 < (A.amount s).wats.val

/-- None of the tokens the request has made is of amount zero: the `new_webcashes` of a replace,
`webcash` and `subsidy` of a report's preimage, the outputs of an issuance. -/
def NamesPositive (A : SplittableAsset σ ρ) (cfg : ServeConfig) : Request → Prop
  | .replace req => ∀ parsed, req.body = .ok parsed → PositiveTokens A parsed.newWebcashes
  | .miningReport body =>
    ∀ report preimage, body = .ok report → cfg.decodePreimage report.preimage = .ok preimage →
    PositiveTokens A (preimage.webcash ++ preimage.subsidy)
  | .issue req => ∀ parsed, req.body = .ok parsed → PositiveTokens A parsed.outputs
  | _ => True

/-- A replace that consumes nothing. -/
def NoInputs (q : Request) : Prop := ∃ req parsed, q = .replace req ∧ req.body = .ok parsed ∧
    parsed.webcashes = []

variable {A : SplittableAsset σ ρ} {cfg : ServeConfig} {env : RequestEnv}

theorem positiveTokens_iff {tokens : List String} :
    PositiveTokens A tokens ↔ ∀ t ∈ tokens, ∀ s ∈ (A.parseSecret t).toOption, 0 < (A.amount s).wats.val := by
  refine forall₂_congr fun t _ => ?_
  cases A.parseSecret t <;> simp [Except.toOption]

theorem PositiveTokens.parsed {tokens : List String} {ss : List σ} (h : PositiveTokens A tokens)
    (hp : List.Forall₂ (fun t s => A.parseSecret t = .ok s) tokens ss) : ∀ s ∈ ss, 0 < (A.amount s).wats.val := by
  intro s hs
  obtain ⟨t, ht, hts⟩ := mem_of_parsed hp hs
  exact h t ht s hts

/-- The records built from positive secrets are positive. -/
theorem positive_records {now : DateTime} {origin : RecordOrigin} {ss : List σ}
    (h : ∀ s ∈ ss, 0 < (A.amount s).wats.val) :
    ∀ r ∈ ss.map (A.recordFromSecret now · origin), 0 < (A.codec.amountWats r).val := by
  intro r hr
  obtain ⟨s, hs, rfl⟩ := List.mem_map.1 hr
  rw [A.record_amount]
  exact h s hs

/-! ## The plans -/

theorem mintBatch_positive {body : Except String MiningReportBody} {rs : List ρ}
    (hpos : NamesPositive A cfg (.miningReport body)) (h : mintBatch A cfg env body = some rs) :
    ∀ r ∈ rs, 0 < (A.codec.amountWats r).val := by
  obtain ⟨bits, hplan⟩ := mintBatch_eq_some.1 h
  obtain ⟨report, preimage, ss, hbody, hpre, rfl, hparse⟩ := planMint_ok hplan
  exact positive_records ((hpos report preimage hbody hpre).parsed hparse)

theorem issueBatch_positive {I : IssuedAsset σ} {check : List σ → Except String Unit} {req : IssueRequest}
    {nonces : NonceCache} {rs : List ρ} (hpos : NamesPositive A cfg (.issue req))
    (h : issueBatch A.toAsset I check cfg env req nonces = some rs) :
    ∀ r ∈ rs, 0 < (A.codec.amountWats r).val := by
  obtain ⟨issuer, parsed, ss, hauth, rfl, hparse, -⟩ := planIssue_ok (Prod.ext (toOption_eq_some.1 h) rfl)
  exact positive_records ((hpos parsed (authorise_ok hauth).1).parsed hparse)

variable {δ : Type} {store : LedgerStore δ ρ} {req : ReplaceRequest} {db : δ}

theorem planReplace_positive {ns : Namespace} {op : ReplaceOp ρ} (hpos : NamesPositive A cfg (.replace req))
    (h : planReplace A store env req db = .ok (some (ns, op))) :
    ∀ o ∈ op.outputs, 0 < (A.codec.amountWats o).val := by
  obtain ⟨ins, outs, recs, hp, -⟩ := planReplace_ok h
  obtain ⟨parsed, hbody, -, hparse⟩ := hp.tokens
  intro o ho
  have hface : A.codec.face o ∈ op.outputs.map A.codec.face := List.mem_map.2 ⟨o, ho, rfl⟩
  rw [hp.outputs] at hface
  obtain ⟨x, hx, he⟩ := List.mem_map.1 hface
  simp only [HashRecord.face, Prod.mk.injEq, A.record_amount] at he
  rw [← he.2.1]
  exact (hpos parsed hbody).parsed hparse x hx

/-- Something is named by a replace that reaches the store. -/
theorem planReplace_names_token {ns : Namespace} {op : ReplaceOp ρ} {parsed : ReplaceBody}
    (hbody : req.body = .ok parsed) (h : planReplace A store env req db = .ok (some (ns, op))) :
    ¬ (parsed.webcashes = [] ∧ parsed.newWebcashes = []) := by
  unfold planReplace at h
  rw [hbody] at h
  obtain ⟨parsed', hok, h⟩ := Except.bind_ok_iff.1 h
  obtain rfl : parsed = parsed' := Except.ok.inj hok
  obtain ⟨_, -, h⟩ := Except.bind_ok_iff.1 h
  split at h
  · cases h
  · assumption

/-- **Conservation does the rest.** A replace of nothing by positive tokens has no plan. -/
theorem planReplace_no_inputs_positive {ns : Namespace} {op : ReplaceOp ρ} {parsed : ReplaceBody}
    (hpos : NamesPositive A cfg (.replace req)) (hbody : req.body = .ok parsed) (hnil : parsed.webcashes = []) :
    planReplace A store env req db ≠ .ok (some (ns, op)) := by
  intro h
  obtain ⟨ins, outs, recs, hp, hins, houts⟩ := planReplace_ok h
  obtain ⟨parsed', hbody', hinParse, houtParse⟩ := hp.tokens
  obtain rfl : parsed = parsed' := Except.ok.inj (hbody.symm.trans hbody')
  rw [hnil] at hinParse
  cases hinParse
  have hsum : (outs.map fun s => (A.amount s).wats.val).sum = 0 := houts ▸ hins
  cases outs with
  | nil => exact planReplace_names_token hbody h ⟨hnil, List.forall₂_nil_right_iff.1 houtParse⟩
  | cons s outs =>
    have hall := (hpos parsed hbody).parsed houtParse
    have hrest : 0 ≤ (outs.map fun s => (A.amount s).wats.val).sum := by
      refine List.sum_nonneg fun x hx => ?_
      obtain ⟨y, hy, rfl⟩ := List.mem_map.1 hx
      exact (hall y (List.mem_cons_of_mem _ hy)).le
    have hhead := hall s List.mem_cons_self
    rw [List.map_cons, List.sum_cons] at hsum
    omega

end

/-! ## Servers -/

/-- A server of a splittable flavour. -/
structure PositiveServer (σ ρ : Type) (b : Backend) extends LedgerServer σ ρ b where
  splittable : SplittableAsset σ ρ
  cfg : ServeConfig
  amounts : AmountCodec asset.codec
  mints : ∀ {c nonces rs}, batch c nonces = some rs → c.request.Mints
  batch_positive : ∀ {c nonces rs}, NamesPositive splittable cfg c.request → batch c nonces = some rs →
    ∀ r ∈ rs, 0 < (asset.codec.amountWats r).val
  plan_positive : ∀ {c req db ns op}, NamesPositive splittable cfg (.replace req) →
    plan c req db = .ok (some (ns, op)) →
    ∀ o ∈ op.outputs, 0 < (asset.codec.amountWats o).val
  plan_no_inputs : ∀ {c req parsed db ns op}, NamesPositive splittable cfg (.replace req) →
    req.body = .ok parsed →
    parsed.webcashes = [] → plan c req db ≠ .ok (some (ns, op))

section

variable {σ ρ : Type} (keys : KeyStrategy) (chrono : Codec) (serviceError : String) (cfg : ServeConfig) (b : Backend)

/-- `serve`. -/
def positiveSplittable (A : SplittableAsset σ ρ) (H : AmountCodec A.codec) : PositiveServer σ ρ b where
  toLedgerServer := splittableServer keys chrono serviceError cfg b A
  splittable := A
  cfg := cfg
  amounts := H
  mints {c nonces rs} h := by
    obtain ⟨env, service, q⟩ := c
    cases q <;> trivial
  batch_positive {c nonces rs} hpos h := by
    obtain ⟨env, service, q⟩ := c
    cases q with
    | miningReport body => exact mintBatch_positive hpos h
    | _ => cases h
  plan_positive hpos h := planReplace_positive hpos h
  plan_no_inputs hpos hbody hnil := planReplace_no_inputs_positive hpos hbody hnil

/-- `serve_issued`. -/
def positiveIssued (A : SplittableAsset σ ρ) (I : IssuedAsset σ) (H : AmountCodec A.codec) :
    PositiveServer σ ρ b where
  toLedgerServer := issuedServer keys chrono serviceError cfg b A I
  splittable := A
  cfg := cfg
  amounts := H
  mints {c nonces rs} h := by
    obtain ⟨env, service, q⟩ := c
    cases q <;> trivial
  batch_positive {c nonces rs} hpos h := by
    obtain ⟨env, service, q⟩ := c
    cases q with
    | miningReport body => exact mintBatch_positive hpos h
    | issue req => exact issueBatch_positive hpos h
    | _ => cases h
  plan_positive hpos h := planReplace_positive hpos h
  plan_no_inputs hpos hbody hnil := planReplace_no_inputs_positive hpos hbody hnil

end

namespace PositiveServer

variable {σ ρ : Type} {b : Backend} (S : PositiveServer σ ρ b)

/-- A request that names no token of amount zero is served, whatever the answer. -/
def Step (s : ServerState b.Db) (c : Call) (s' : ServerState b.Db) : Prop :=
  NamesPositive S.splittable S.cfg c.request ∧ s' = (S.serve c s).2

/-- The amount under every key is positive. -/
def Positive (db : b.Db) : Prop := ∀ k w, b.watsAt db k = some w → 0 < w.val

variable {S} {s s' : ServerState b.Db} {c : Call}

/-- **One request.** -/
theorem Step.positive (h : S.Step s c s') (hs : Positive s.db) : Positive s'.db := by
  obtain ⟨hpos, rfl⟩ := h
  have heff := S.effect c s
  have hbatch : ∀ {rs}, S.batch c s.nonces = some rs → ∀ r ∈ rs, 0 < (S.asset.codec.amountWats r).val :=
    fun h => S.batch_positive hpos h
  generalize c.request = q at heff hpos
  generalize (S.serve c s).2.db = db' at heff ⊢
  intro k w hw
  cases heff with
  | idle => exact hs k w hw
  | @exchange req ns op hplan =>
    rcases Backend.watsAt_replace S.amounts hw with h | ⟨o, ho, rfl⟩
    · exact hs k w h
    · exact S.plan_positive hpos hplan o ho
  | burn hplan =>
    rw [Backend.watsAt_burn] at hw
    exact hs k w hw
  | insert hrs =>
    rcases Backend.watsAt_insert S.amounts hw with h | ⟨r, hr, rfl⟩
    · exact hs k w h
    · exact hbatch hrs r hr
  | mint state hrs =>
    rw [Backend.watsAt_updateMiningState] at hw
    rcases Backend.watsAt_insert S.amounts hw with h | ⟨r, hr, rfl⟩
    · exact hs k w h
    · exact hbatch hrs r hr

/-- A replace without inputs leaves the ledger alone. -/
theorem Step.no_inputs (h : S.Step s c s') (hnil : NoInputs c.request) : s'.db = s.db := by
  obtain ⟨hpos, rfl⟩ := h
  obtain ⟨req, parsed, hq, hbody, hempty⟩ := hnil
  have hmints : ∀ {rs}, S.batch c s.nonces = some rs → c.request.Mints := fun h => S.mints h
  have heff := S.effect c s
  rw [hq] at heff hpos hmints
  generalize (S.serve c s).2.db = db' at heff ⊢
  cases heff with
  | idle => rfl
  | exchange hplan => exact absurd hplan (S.plan_no_inputs hpos hbody hempty)
  | insert hrs => exact (hmints hrs).elim
  | mint state hrs => exact (hmints hrs).elim

/-- In every run from an empty ledger: each record the store serves is worth something, and a
replace that consumes nothing leaves the ledger as it is. -/
def OnlyPositive (S : PositiveServer σ ρ b) : Prop :=
  ∀ (nonces : NonceCache) (calls : List Call) (s : ServerState b.Db), Run S.Step ⟨nonces, b.empty⟩ calls s →
    (∀ (now : DateTime) (service : Dynamo.Env) (ns : Namespace) (hashes : List String)
      (found : List (Option ρ)) (r : ρ),
      (b.store S.storeConfig now service).getTokens ns hashes s.db = .ok found → some r ∈ found →
        0 < (S.asset.codec.amountWats r).val) ∧
    ∀ c s', S.Step s c s' → NoInputs c.request → s'.db = s.db

/-- **Whole runs.** -/
theorem onlyPositive (S : PositiveServer σ ρ b) : S.OnlyPositive := by
  intro nonces calls s hrun
  have hinv : Positive s.db := Run.invariant (I := fun s => Positive s.db) (fun _ _ _ hs h => hs.positive h) hrun
    fun k w hw => by
      dsimp only at hw
      rw [Backend.watsAt_empty] at hw
      cases hw
  refine ⟨fun now service ns hashes found r hfound hr => ?_, fun c s' hs hnil => hs.no_inputs hnil⟩
  obtain ⟨x, -, hx⟩ := Backend.getTokens_amount S.amounts hfound hr
  exact hinv _ _ hx

end PositiveServer

/-! ## The flavours -/

section

variable {chrono : Codec} {json : HtlcJson}

theorem amountCodec_webcash : AmountCodec (webcash chrono).codec where
  ofFields {now hash fields r} h := by
    simp only [webcash, webcashCodec, bind, pure, Option.bind_eq_some_iff, Option.some.injEq] at h
    obtain ⟨amount, hamount, rfl⟩ := h
    exact hamount
  ofDoc {doc r} h := by
    simp only [webcash, webcashCodec, bind, pure, Option.bind_eq_some_iff] at h
    obtain ⟨_, -, amount, hamount, _, -, _, -, _, -, _, -, hrec⟩ := h
    split at hrec
    · cases hrec
      exact hamount
    · cases hrec
  toDoc r := by simp [webcash, webcashCodec, docI64, docOf, Json.asInt, I64.ofInt?_val]

theorem amountCodec_voucher : AmountCodec (voucher chrono).codec where
  ofFields {now hash fields r} h := by
    simp only [voucher, voucherCodec, bind, pure, Option.bind_eq_some_iff, Option.some.injEq] at h
    obtain ⟨amount, hamount, -, -, -, -, rfl⟩ := h
    exact hamount
  ofDoc {doc r} h := by
    simp only [voucher, voucherCodec, bind, pure, Option.bind_eq_some_iff, Option.some.injEq] at h
    obtain ⟨-, -, amount, hamount, -, -, -, -, -, -, -, -, -, -, -, -, rfl⟩ := h
    exact hamount
  toDoc r := by simp [voucher, voucherCodec, issuedDoc, docI64, docOf, Json.asInt, I64.ofInt?_val]

theorem amountCodec_rgbFungible : AmountCodec (rgbFungible chrono json).codec where
  ofFields {now hash fields r} h := by
    simp only [rgbFungible, rgbFungibleCodec, bind, pure, Option.bind_eq_some_iff, Option.some.injEq] at h
    obtain ⟨amount, hamount, -, -, -, -, rfl⟩ := h
    exact hamount
  ofDoc {doc r} h := by
    simp only [rgbFungible, rgbFungibleCodec, bind, pure, Option.bind_eq_some_iff, Option.some.injEq] at h
    obtain ⟨-, -, amount, hamount, -, -, -, -, -, -, -, -, -, -, -, -, -, -, rfl⟩ := h
    exact hamount
  toDoc r := by
    cases hlock : r.htlcState <;>
      simp [rgbFungible, rgbFungibleCodec, issuedDoc, hlock, docI64, docOf, Json.asInt, I64.ofInt?_val]

end

/-- **Only positive amounts circulate** where no request names a token of amount zero: on every
splittable server and every store, whatever is issued, mined and replaced. -/
theorem only_positive_circulates (chrono : Codec) (json : HtlcJson) (keys : KeyStrategy) (serviceError : String)
    (cfg : ServeConfig) (b : Backend) :
    (positiveSplittable keys chrono serviceError cfg b (webcash chrono) amountCodec_webcash).OnlyPositive ∧
    (positiveIssued keys chrono serviceError cfg b (voucher chrono) issuedSecrets amountCodec_voucher).OnlyPositive ∧
    (positiveIssued keys chrono serviceError cfg b (rgbFungible chrono json) issuedSecrets
      amountCodec_rgbFungible).OnlyPositive :=
  ⟨PositiveServer.onlyPositive _, PositiveServer.onlyPositive _, PositiveServer.onlyPositive _⟩

namespace Sample

def positiveWebcash : PositiveServer SecretWebcash WebcashRecord .redis :=
  positiveSplittable .webcashLegacyKeys .atEpoch "service error" (serveConfig (token "1" 'a')) .redis (webcash .atEpoch)
    amountCodec_webcash

def minePositive : Call := ⟨env, .calm, .miningReport (.ok ⟨preimageOf (token "1" 'a'), some true⟩)⟩

def splitPositive : Call := ⟨env, .calm, .replace (swap [token "1" 'a'] [token "0.4" 'b', token "0.6" 'c'])⟩

def minedPositive : Response × ServerState Backend.redis.Db :=
  positiveWebcash.serve minePositive ⟨.default, Backend.redis.empty⟩

def splitAnswer : Response × ServerState Backend.redis.Db := positiveWebcash.serve splitPositive minedPositive.2

def hashOf (c : Char) : String := sha256HexOfAscii (hex c)

theorem minePositive_named : NamesPositive (webcash .atEpoch) (serveConfig (token "1" 'a')) minePositive.request := by
  intro report preimage hbody hpre
  cases hbody
  have hdecode : (serveConfig (token "1" 'a')).decodePreimage (preimageOf (token "1" 'a')) =
      .ok ⟨[token "1" 'a'], []⟩ := by
    simp [serveConfig]
  obtain rfl := Except.ok.inj (hdecode.symm.trans hpre)
  exact positiveTokens_iff.2 (by decide +kernel)

theorem splitPositive_named : NamesPositive (webcash .atEpoch) (serveConfig (token "1" 'a')) splitPositive.request := by
  intro parsed hbody
  cases hbody
  exact positiveTokens_iff.2 (by decide +kernel)

end Sample

open Sample

/-- A token of 1 is mined and split; the ledger serves the parts, and both are positive. -/
theorem mined_and_split_positive :
    Run positiveWebcash.Step ⟨.default, Backend.redis.empty⟩ [minePositive, splitPositive] splitAnswer.2 ∧
    minedPositive.1 = success ∧ splitAnswer.1 = success ∧
    ∃ found, (Backend.redis.store positiveWebcash.storeConfig ⟨0⟩ .calm).getTokens .unscoped [hashOf 'b',
      hashOf 'c'] splitAnswer.2.db =
      .ok found ∧ found.map (Option.map fun r => r.amountWats.val) = [some 40000000, some 60000000] ∧
        ∀ r, some r ∈ found → 0 < r.amountWats.val := by
  have hrun : Run positiveWebcash.Step ⟨.default, Backend.redis.empty⟩ [minePositive,
      splitPositive] splitAnswer.2 :=
    .cons ⟨minePositive_named, rfl⟩ (.cons ⟨splitPositive_named, rfl⟩ (.nil _))
  have hserved : (((Backend.redis.store positiveWebcash.storeConfig ⟨0⟩ .calm).getTokens .unscoped
    [hashOf 'b', hashOf 'c']
      splitAnswer.2.db).toOption.map (List.map (Option.map fun r => r.amountWats.val))) = some [some 40000000,
        some 60000000] := by
    decide +kernel
  obtain ⟨found, hfound, hamounts⟩ := Option.map_eq_some_iff.1 hserved
  have hfound := toOption_eq_some.1 hfound
  have hpositive := (only_positive_circulates .atEpoch (.ofState ⟨hex 'a', 0, hex 'b', hex 'c'⟩)
    .webcashLegacyKeys "service error" (serveConfig (token "1" 'a')) .redis).1
    .default _ _ hrun
  exact ⟨hrun, by decide +kernel, by decide +kernel, found, hfound, hamounts,
    fun r hr => hpositive.1 ⟨0⟩ .calm .unscoped _ found r hfound hr⟩

/-! ## A token of amount zero -/

namespace Sample

/-- Nothing is swapped for a token of amount zero. -/
def swapNothing : Call := ⟨env, .calm, .replace (swap [] [token "0" 'a'])⟩

def zeroHash : String := (SecretWebcash.toPublic ⟨⟨0⟩, hex 'a'⟩).hash

def swappedNothing : Response × ServerState Backend.redis.Db :=
  positiveWebcash.serve swapNothing ⟨.default, Backend.redis.empty⟩

end Sample

open Sample

/-- The empty ledger accepts the swap and serves a record of amount zero. -/
theorem zero_tokens_circulate :
    NoInputs swapNothing.request ∧ swappedNothing.1 = success ∧ swappedNothing.2.db ≠ Backend.redis.empty ∧
    ((Backend.redis.store positiveWebcash.storeConfig ⟨0⟩ .calm).getTokens .unscoped [zeroHash]
      swappedNothing.2.db).toOption.map
      (List.map (Option.map WebcashRecord.amountWats)) = some [some 0] := by
  have hnone : NoInputs swapNothing.request := ⟨_, _, rfl, rfl, rfl⟩
  have haccepted : swappedNothing.1 = success := by decide +kernel
  have hserved : ((Backend.redis.store positiveWebcash.storeConfig ⟨0⟩ .calm).getTokens .unscoped [zeroHash]
      swappedNothing.2.db).toOption.map (List.map (Option.map WebcashRecord.amountWats)) = some [some 0] := by
    decide +kernel
  refine ⟨hnone, haccepted, fun hempty => ?_, hserved⟩
  rw [hempty] at hserved
  exact absurd hserved (by decide +kernel)

end Webycash
