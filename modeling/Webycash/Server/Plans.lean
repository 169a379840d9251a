import Webycash.Server.Handlers
/-!
# What the checks of a request guarantee

One lemma per plan: what is known about the store calls a handler makes once its checks have
passed. `Planned` is shared by the two replace handlers.
-/

namespace Webycash

section

variable {σ ρ δ : Type}

/-! ## Loops over tokens -/

/-- The running total of `sumTokens` adds up the parsed amounts. -/
theorem sumTokens_ok {A : SplittableAsset σ ρ} {invalid overflow : String} :
    ∀ {tokens : List String} {total sum : Amount}
    {ss : List σ}, sumTokens A invalid overflow tokens total = .ok (ss, sum) →
    sum.wats.val = total.wats.val + (ss.map fun s => (A.amount s).wats.val).sum ∧
      List.Forall₂ (fun t s => A.parseSecret t = .ok s) tokens ss
  | [], total, sum, ss, h => by
    cases h
    simp
  | token :: tokens, total, sum, ss, h => by
    unfold sumTokens at h
    obtain ⟨s, hs, h⟩ := Except.bind_ok_iff.1 h
    rw [orElse_ok_iff] at hs
    split at h
    · cases h
    · rename_i total' ht
      obtain ⟨⟨ss', sum'⟩, hrec, h⟩ := Except.bind_ok_iff.1 h
      cases h
      obtain ⟨hsum, hparse⟩ := sumTokens_ok hrec
      refine ⟨?_, .cons hs hparse⟩
      rw [hsum, Amount.val_checkedAdd ht, List.map_cons, List.sum_cons, Int.add_assoc]

/-- A parsed secret comes from one of the tokens. -/
theorem mem_of_parsed {A : Asset σ ρ} {tokens : List String} {ss : List σ} {s : σ}
    (h : List.Forall₂ (fun t s => A.parseSecret t = .ok s) tokens ss) (hs : s ∈ ss) :
    ∃ t ∈ tokens, A.parseSecret t = .ok s := by
  induction h with
  | nil => cases hs
  | @cons t s' ts ss' hp _ ih =>
    rcases List.mem_cons.1 hs with rfl | hs
    · exact ⟨t, List.mem_cons_self, hp⟩
    · obtain ⟨t', ht', hp'⟩ := ih hs
      exact ⟨t', List.mem_cons_of_mem _ ht', hp'⟩

theorem parsed_of_mem {A : Asset σ ρ} {tokens : List String} {ss : List σ} {t : String} {s : σ}
    (h : List.Forall₂ (fun t s => A.parseSecret t = .ok s) tokens ss) (ht : t ∈ tokens)
    (hs : A.parseSecret t = .ok s) :
    s ∈ ss := by
  induction h with
  | nil => cases ht
  | @cons t' s' ts ss' hp _ ih =>
    rcases List.mem_cons.1 ht with rfl | ht
    · rw [hp] at hs
      cases hs
      exact List.mem_cons_self
    · exact List.mem_cons_of_mem _ (ih ht)

theorem concreteInputs_ok : ∀ {hs : List String} {found : List (Option ρ)} {recs : List ρ},
    concreteInputs hs found = .ok recs → ∀ j < hs.length, ∀ x, found[j]? = some x → ∃ r, x = some r ∧
      recs[j]? = some r
  | [], _, _, _, j, hj, _, _ => absurd hj (Nat.not_lt_zero j)
  | h :: hs, [], _, _, j, _, x, hx => by simp at hx
  | h :: hs, none :: rest, _, e, _, _, _, _ => by cases e
  | h :: hs, some r :: rest, recs, e, j, hj, x, hx => by
    obtain ⟨rs, hrec, e⟩ := Except.bind_ok_iff.1 e
    cases e
    cases j with
    | zero => exact ⟨r, by simpa using hx.symm, rfl⟩
    | succ j => exact concreteInputs_ok hrec j (by simpa using hj) x (by simpa using hx)

/-- The records of parsed tokens. -/
theorem buildRecords_ok {A : Asset σ ρ} {now : DateTime} {origin : RecordOrigin} {invalid : String} :
    ∀ {tokens : List String} {rs : List ρ}, buildRecords A now origin invalid tokens = .ok rs →
    ∃ ss, rs = ss.map (A.recordFromSecret now · origin) ∧
      List.Forall₂ (fun t s => A.parseSecret t = .ok s) tokens ss
  | [], rs, h => by
    cases h
    exact ⟨[], rfl, .nil⟩
  | token :: tokens, rs, h => by
    obtain ⟨s, hs, h⟩ := Except.bind_ok_iff.1 h
    obtain ⟨rs', hrec, h⟩ := Except.bind_ok_iff.1 h
    cases h
    obtain ⟨ss, rfl, hall⟩ := buildRecords_ok hrec
    exact ⟨s :: ss, rfl, .cons (orElse_ok_iff.1 hs) hall⟩

/-- The outputs of an issuance, parsed one by one, all name its issuer. -/
theorem issuedOutputs_ok {A : Asset σ ρ} {I : IssuedAsset σ} {issuer : PgpFingerprint} : ∀ {tokens : List String}
    {ss : List σ}, issuedOutputs A I issuer tokens = .ok ss →
    List.Forall₂ (fun t s => A.parseSecret t = .ok s) tokens ss ∧ ∀ s ∈ ss, I.issuer s = issuer
  | [], ss, h => by
    cases h
    simp
  | token :: tokens, ss, h => by
    obtain ⟨s, hs, h⟩ := Except.bind_ok_iff.1 h
    obtain ⟨_, hi, h⟩ := Except.bind_ok_iff.1 h
    obtain ⟨ss', hrec, h⟩ := Except.bind_ok_iff.1 h
    cases h
    obtain ⟨hparse, hissuer⟩ := issuedOutputs_ok hrec
    refine ⟨.cons (orElse_ok_iff.1 hs) hparse, fun x hx => ?_⟩
    rcases List.mem_cons.1 hx with rfl | hx
    · exact require_ok_iff.1 hi
    · exact hissuer x hx

/-! ## Replace -/

/-- What both replace handlers have made sure of when they call `batch_replace`. -/
structure Planned (A : Asset σ ρ) (store : LedgerStore δ ρ) (env : RequestEnv) (req : ReplaceRequest) (db : δ)
    (ns : Namespace) (op : ReplaceOp ρ) (ins outs : List σ) (recs : List ρ) : Prop where
  tokens : ∃ parsed, req.body = .ok parsed ∧
    List.Forall₂ (fun t s => A.parseSecret t = .ok s) parsed.webcashes ins ∧
    List.Forall₂ (fun t s => A.parseSecret t = .ok s) parsed.newWebcashes outs
  inputs : op.inputs = ins.map A.publicHash
  outputs : op.outputs.map A.codec.face = outs.map fun s => A.codec.face (A.recordFromSecret env.now s .replaced)
  plain : KeyStrategy.PlainNamespace ns
  namespaces : ∀ s ∈ ins ++ outs, Namespace.ofEnvelope (A.namespaceEnvelope s) = ns
  reads : ∃ found, store.getTokens ns op.inputs db = .ok found ∧
    ∀ j < op.inputs.length, ∀ x, found[j]? = some x → ∃ r, x = some r ∧ recs[j]? = some r
  validated : A.validateReplaceRequest req.hook recs outs env.serverNowUnix = .ok ()

/-- What the plan says about the records it hands over. -/
theorem Planned.outputs_spec {A : Asset σ ρ} {store : LedgerStore δ ρ} {env : RequestEnv}
    {req : ReplaceRequest} {db : δ} {ns : Namespace} {op : ReplaceOp ρ} {ins outs : List σ} {recs : List ρ}
    (h : Planned A store env req db ns op ins outs recs) :
    ∀ o ∈ op.outputs, A.codec.spent o = false ∧ ':' ∉ (A.codec.publicHash o).toList ∧
      ∃ x ∈ outs, A.codec.publicHash o = A.publicHash x := by
  intro o ho
  have hface : A.codec.face o ∈ op.outputs.map A.codec.face := List.mem_map.2 ⟨o, ho, rfl⟩
  rw [h.outputs] at hface
  obtain ⟨x, hx, he⟩ := List.mem_map.1 hface
  simp only [HashRecord.face, Prod.mk.injEq, A.record_hash, A.record_unspent] at he
  exact ⟨he.2.2.2.symm, he.1 ▸ A.hash_plain x, x, hx, he.1.symm⟩

/-- The records go to the namespace of the call. -/
theorem Planned.outputs_namespace {A : Asset σ ρ} {store : LedgerStore δ ρ} {env : RequestEnv}
    {req : ReplaceRequest} {db : δ} {ns : Namespace} {op : ReplaceOp ρ} {ins outs : List σ} {recs : List ρ}
    (h : Planned A store env req db ns op ins outs recs) :
    ∀ o ∈ op.outputs, A.codec.namespaceOf o = ns := by
  intro o ho
  have hface : A.codec.face o ∈ op.outputs.map A.codec.face := List.mem_map.2 ⟨o, ho, rfl⟩
  rw [h.outputs] at hface
  obtain ⟨x, hx, he⟩ := List.mem_map.1 hface
  simp only [HashRecord.face, Prod.mk.injEq, A.record_namespace] at he
  rw [← he.2.2.1, h.namespaces x (List.mem_append_right _ hx)]

theorem Planned.inputs_plain {A : Asset σ ρ} {store : LedgerStore δ ρ} {env : RequestEnv}
    {req : ReplaceRequest} {db : δ} {ns : Namespace} {op : ReplaceOp ρ} {ins outs : List σ} {recs : List ρ}
    (h : Planned A store env req db ns op ins outs recs) :
    ∀ x ∈ op.inputs, ':' ∉ x.toList := by
  intro x hx
  rw [h.inputs] at hx
  obtain ⟨s, -, rfl⟩ := List.mem_map.1 hx
  exact A.hash_plain s

/-- **`replace` past its checks.** The declared amounts of inputs and outputs have one sum, the
one the audit record names. -/
theorem planReplace_ok {A : SplittableAsset σ ρ} {store : LedgerStore δ ρ} {env : RequestEnv}
    {req : ReplaceRequest} {db : δ}
    {ns : Namespace} {op : ReplaceOp ρ} (h : planReplace A store env req db = .ok (some (ns, op))) :
    ∃ ins outs recs, Planned A.toAsset store env req db ns op ins outs recs ∧
      op.record.totalAmountWats.val = (ins.map fun s => (A.amount s).wats.val).sum ∧
      op.record.totalAmountWats.val = (outs.map fun s => (A.amount s).wats.val).sum := by
  unfold planReplace at h
  obtain ⟨parsed, hbody, h⟩ := Except.bind_ok_iff.1 h
  obtain ⟨_, -, h⟩ := Except.bind_ok_iff.1 h
  split at h
  · cases h
  rename_i hne
  obtain ⟨⟨ins, inputTotal⟩, hins, h⟩ := Except.bind_ok_iff.1 h
  obtain ⟨⟨outs, outputTotal⟩, houts, h⟩ := Except.bind_ok_iff.1 h
  obtain ⟨_, htotal, h⟩ := Except.bind_ok_iff.1 h
  obtain ⟨_, hns, h⟩ := Except.bind_ok_iff.1 h
  obtain ⟨found, hfound, h⟩ := Except.bind_ok_iff.1 h
  obtain ⟨recs, hrecs, h⟩ := Except.bind_ok_iff.1 h
  obtain ⟨_, hval, h⟩ := Except.bind_ok_iff.1 h
  obtain ⟨outputs, haug, h⟩ := Except.bind_ok_iff.1 h
  cases h
  rw [require_ok_iff] at htotal hns
  rw [orElse_ok_iff] at hfound hval haug
  obtain ⟨hisum, hins'⟩ := sumTokens_ok hins
  obtain ⟨hosum, houts'⟩ := sumTokens_ok houts
  refine ⟨ins, outs, recs, ⟨⟨parsed, hbody, hins', houts'⟩, rfl, ?_, ?_, hns,
    ⟨found, hfound, ?_⟩, hval⟩, ?_⟩
  · rw [A.augment_face haug, List.map_map]
    rfl
  · -- some token was parsed, and every parsed token has a plain namespace
    obtain ⟨s, hs⟩ : ∃ s, s ∈ ins ++ outs := by
      refine List.exists_mem_of_ne_nil _ fun hnil => hne ?_
      rw [List.append_eq_nil_iff] at hnil
      rw [hnil.1] at hins'
      rw [hnil.2] at houts'
      exact ⟨List.forall₂_nil_right_iff.1 hins', List.forall₂_nil_right_iff.1 houts'⟩
    obtain ⟨text, -, htext⟩ := mem_of_parsed (List.rel_append hins' houts') hs
    exact hns s hs ▸ A.parse_plain htext
  · exact concreteInputs_ok hrecs
  · have h0 : Amount.zero.wats.val = 0 := rfl
    rw [h0, Int.zero_add] at hisum hosum
    exact ⟨hisum, by rw [← hosum, ← htotal]⟩

/-- A replace without inputs runs in no scope: the namespace is read off the first input. -/
theorem planReplace_no_inputs {A : SplittableAsset σ ρ} {store : LedgerStore δ ρ} {env : RequestEnv}
    {req : ReplaceRequest}
    {db : δ} {ns : Namespace} {op : ReplaceOp ρ} (h : planReplace A store env req db = .ok (some (ns, op)))
    (hin : op.inputs = []) : ns = .unscoped := by
  unfold planReplace at h
  obtain ⟨parsed, -, h⟩ := Except.bind_ok_iff.1 h
  obtain ⟨_, -, h⟩ := Except.bind_ok_iff.1 h
  split at h
  · cases h
  obtain ⟨⟨ins, inputTotal⟩, -, h⟩ := Except.bind_ok_iff.1 h
  obtain ⟨⟨outs, outputTotal⟩, -, h⟩ := Except.bind_ok_iff.1 h
  obtain ⟨_, -, h⟩ := Except.bind_ok_iff.1 h
  obtain ⟨_, -, h⟩ := Except.bind_ok_iff.1 h
  obtain ⟨found, -, h⟩ := Except.bind_ok_iff.1 h
  obtain ⟨recs, -, h⟩ := Except.bind_ok_iff.1 h
  obtain ⟨_, -, h⟩ := Except.bind_ok_iff.1 h
  obtain ⟨outputs, -, h⟩ := Except.bind_ok_iff.1 h
  cases h
  obtain rfl : ins = [] := List.map_eq_nil_iff.1 hin
  rfl

/-- **`replace_collectible` past its checks.** One input, one output. -/
theorem planReplaceCollectible_ok {A : CollectibleAsset σ ρ} {I : IssuedAsset σ} {store : LedgerStore δ ρ}
    {env : RequestEnv} {req : ReplaceRequest} {db : δ} {ns : Namespace} {op : ReplaceOp ρ}
    (hI : ∀ s, A.namespaceEnvelope s = envelopeOf (I.contractId s) (I.issuer s))
    (h : planReplaceCollectible A I store env req db = .ok (some (ns, op))) :
    ∃ input output rec₀, Planned A.toAsset store env req db ns op [input] [output] [rec₀] := by
  unfold planReplaceCollectible at h
  obtain ⟨parsed, hbody, h⟩ := Except.bind_ok_iff.1 h
  obtain ⟨_, -, h⟩ := Except.bind_ok_iff.1 h
  split at h
  swap
  · cases h
  rename_i tokenIn tokenOut htin htout
  obtain ⟨input, hin, h⟩ := Except.bind_ok_iff.1 h
  obtain ⟨output, hout, h⟩ := Except.bind_ok_iff.1 h
  obtain ⟨_, hsame, h⟩ := Except.bind_ok_iff.1 h
  obtain ⟨_, -, h⟩ := Except.bind_ok_iff.1 h
  obtain ⟨found, hfound, h⟩ := Except.bind_ok_iff.1 h
  obtain ⟨rec₀, hrec, h⟩ := Except.bind_ok_iff.1 h
  obtain ⟨_, hval, h⟩ := Except.bind_ok_iff.1 h
  obtain ⟨outputs, haug, h⟩ := Except.bind_ok_iff.1 h
  cases h
  rw [require_ok_iff] at hsame
  rw [orElse_ok_iff] at hin hout hfound hval haug
  have htokens : ∃ parsed, req.body = .ok parsed ∧
      List.Forall₂ (fun t s => A.parseSecret t = .ok s) parsed.webcashes [input] ∧
      List.Forall₂ (fun t s => A.parseSecret t = .ok s) parsed.newWebcashes [output] :=
    ⟨parsed, hbody, htin ▸ .cons hin .nil, htout ▸ .cons hout .nil⟩
  refine ⟨input, output, rec₀, htokens, rfl, ?_, A.parse_plain hin, ?_, ⟨found, hfound, ?_⟩, hval⟩
  · rw [A.augment_face haug]
    rfl
  · intro s hs
    rcases List.mem_cons.1 hs with rfl | hs
    · rfl
    · obtain rfl : s = output := by simpa using hs
      rw [hI, hI, hsame.1, hsame.2]
  · intro j hj x hx
    obtain rfl : j = 0 := by simpa using hj
    unfold firstFound at hrec
    split at hrec
    · cases hrec
      exact ⟨rec₀, by simpa using hx.symm, rfl⟩
    · cases hrec

/-! ## Mint and burn -/

/-- **`mining_report` past its checks.** -/
theorem planMint_ok {A : SplittableAsset σ ρ} {cfg : ServeConfig} {env : RequestEnv}
    {body : Except String MiningReportBody}
    {bits : Nat} {records : List ρ} (h : planMint A cfg env body = .ok (bits, records)) :
    ∃ report preimage ss, body = .ok report ∧ cfg.decodePreimage report.preimage = .ok preimage ∧
      records = ss.map (A.recordFromSecret env.now · .mined) ∧
      List.Forall₂ (fun t s => A.parseSecret t = .ok s) (preimage.webcash ++ preimage.subsidy) ss := by
  unfold planMint at h
  obtain ⟨report, hbody, h⟩ := Except.bind_ok_iff.1 h
  obtain ⟨_, -, h⟩ := Except.bind_ok_iff.1 h
  split at h
  · cases h
  obtain ⟨_, -, h⟩ := Except.bind_ok_iff.1 h
  obtain ⟨preimage, hpre, h⟩ := Except.bind_ok_iff.1 h
  obtain ⟨records', hrec, h⟩ := Except.bind_ok_iff.1 h
  cases h
  obtain ⟨ss, hss, hall⟩ := buildRecords_ok hrec
  exact ⟨report, preimage, ss, hbody, orElse_ok_iff.1 hpre, hss, hall⟩

/-- **A burn past its checks.** -/
theorem planBurn_ok {A : Asset σ ρ} {amountWats : σ → I64} {env : RequestEnv} {body : Except String BurnBody}
    {ns : Namespace}
    {hash : String} {record : BurnRecord} (h : planBurn A amountWats env body = .ok (ns, hash, record)) :
    ∃ parsed s, body = .ok parsed ∧ A.parseSecret parsed.webcash = .ok s ∧
      ns = .ofEnvelope (A.namespaceEnvelope s) ∧
      hash = A.publicHash s := by
  unfold planBurn at h
  obtain ⟨parsed, hbody, h⟩ := Except.bind_ok_iff.1 h
  obtain ⟨_, -, h⟩ := Except.bind_ok_iff.1 h
  obtain ⟨s, hs, h⟩ := Except.bind_ok_iff.1 h
  cases h
  exact ⟨parsed, s, hbody, orElse_ok_iff.1 hs, rfl, rfl⟩

/-! ## Issue -/

/-- What an accepted signature stands for: the bytes of the body, as they came, verify under the
key registered for the fingerprint. -/
def SignedBy (cfg : ServeConfig) (req : IssueRequest) (fp : PgpFingerprint) : Prop :=
  ∃ registry sigHex sig key, cfg.issuers = some registry ∧ req.signature = some sigHex ∧
    Hex.decode (asBytes sigHex) = .ok sig ∧ registry.keys.lookup (registry.toLowercase fp.hex) = some key ∧
    registry.verifies key req.raw sig = true

theorem verify_ok {registry : IssuerRegistry} {fp : PgpFingerprint} {body sig : List UInt8}
    (h : registry.verify fp body sig = .ok ()) :
    ∃ key, registry.keys.lookup (registry.toLowercase fp.hex) = some key ∧
      registry.verifies key body sig = true := by
  unfold IssuerRegistry.verify at h
  split at h
  · cases h
  · rename_i key hkey
    split_ifs at h with hlen hsig
    exact ⟨key, hkey, hsig⟩

/-- **Who may issue.** -/
theorem authorise_ok {cfg : ServeConfig} {req : IssueRequest} {issuer : PgpFingerprint} {parsed : IssueBody}
    (h : authorise cfg req = .ok (issuer, parsed)) : req.body = .ok parsed ∧ SignedBy cfg req issuer := by
  unfold authorise at h
  split at h
  · cases h
  · rename_i registry hreg
    split at h
    · cases h
    · rename_i sigHex hsig
      obtain ⟨sig, hhex, h⟩ := Except.bind_ok_iff.1 h
      obtain ⟨parsed', hbody, h⟩ := Except.bind_ok_iff.1 h
      obtain ⟨_, -, h⟩ := Except.bind_ok_iff.1 h
      obtain ⟨_, hver, h⟩ := Except.bind_ok_iff.1 h
      cases h
      obtain ⟨key, hkey, hok⟩ := verify_ok (orElse_ok_iff.1 hver)
      exact ⟨hbody, registry, sigHex, sig, key, hreg, hsig, orElse_ok_iff.1 hhex, hkey, hok⟩

/-- **An issuance past its checks.** -/
theorem planIssue_ok {A : Asset σ ρ} {I : IssuedAsset σ} {checkContracts : List σ → Except String Unit}
    {cfg : ServeConfig} {env : RequestEnv} {req : IssueRequest} {nonces nonces' : NonceCache} {records : List ρ}
    (h : planIssue A I checkContracts cfg env req nonces = (.ok records, nonces')) :
    ∃ issuer parsed ss, authorise cfg req = .ok (issuer, parsed) ∧
      records = ss.map (A.recordFromSecret env.now · .replaced) ∧
      List.Forall₂ (fun t s => A.parseSecret t = .ok s) parsed.outputs ss ∧ ∀ s ∈ ss, I.issuer s = issuer := by
  unfold planIssue at h
  split at h
  · cases h
  · rename_i issuer parsed hauth
    split at h
    · cases h
    · obtain ⟨ss, hss, h⟩ := Except.bind_ok_iff.1 (Prod.mk.inj h).1
      obtain ⟨_, -, h⟩ := Except.bind_ok_iff.1 h
      cases h
      exact ⟨issuer, parsed, ss, hauth, rfl, issuedOutputs_ok hss⟩

end

/-! ## A server that mints without work, for fixed inputs -/

namespace Sample

/-- A secret of one repeated hex digit. -/
def hex (c : Char) : String := String.ofList (List.replicate 64 c)

/-- A wire token worth `amount`. -/
def token (amount : String) (c : Char) : String := "e" ++ amount ++ ":secret:" ++ hex c

/-- The preimage a miner submits for one token. -/
def preimageOf (tok : String) : String :=
  "\x7b\"webcash\": [\"" ++ tok ++ "\"], \"subsidy\": [], \"timestamp\": 0\x7d"

/-- Difficulty zero, 1 webcash per report. The decoder knows the preimage of one token. -/
def serveConfig (tok : String) : ServeConfig where
  mining := ⟨.fixed 0, ⟨100000000, Amount.scale.lo, Amount.scale.hi⟩, 0, some 100000000, false⟩
  issuers := none
  decodePreimage text := if text = preimageOf tok then .ok ⟨[tok], []⟩
    else .error "expected value at line 1 column 1"

def env : RequestEnv := ⟨⟨0⟩, "9f1c"⟩

def swap (ins outs : List String) : ReplaceRequest := ⟨.ok ⟨ins, outs, some true⟩, ⟨.ok [], .ok []⟩⟩

end Sample

end Webycash
