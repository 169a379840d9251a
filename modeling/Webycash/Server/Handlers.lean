import Webycash.Asset.Assets
import Webycash.Lib.Checks
import Webycash.Server.Gate
/-!
# The request handlers that write (`server-core/src/lib.rs`, `mod handlers`)

Every handler checks its request, reads the store if it must, and then makes its store calls.
The first part is a `plan…` function, so a handler is its plan followed by the calls. A request
holds what `serde_json` made of its body (or the text of the error); base64 and JSON decoding of
a mining preimage is the field `decodePreimage`.

| here | there |
| --- | --- |
| `planReplace`, `replace`       | lib.rs:571 |
| `planMint`, `miningReport`     | lib.rs:751 |
| `planIssue`, `issue`, `issueCollectible` | lib.rs:863, lib.rs:1243 |
| `planReplaceCollectible`, `replaceCollectible` | lib.rs:1055 |
| `planBurn`, `burn`, `burnCollectible` | lib.rs:1325, lib.rs:1193 |
-/

namespace Webycash

inductive Response
  | ok (body : String)
  | serverError (msg : String)
  | notFound
  deriving DecidableEq

/-- The answer of every write that went through. -/
def success : Response := .ok "\x7b\"status\": \"success\"\x7d"

theorem answered {δ : Type} {result : Response × δ} {answer : Response} (h : result.1 = answer) :
    result = (answer, result.2) := by
  obtain ⟨a, db⟩ := result
  cases h
  rfl

/-- The clock and the fresh id of one request. -/
structure RequestEnv where
  now : DateTime
  uuid : String

/-- `duration_since(UNIX_EPOCH)…as_secs()`, zero before the epoch. -/
def RequestEnv.serverNowUnix (env : RequestEnv) : Nat := (env.now.nanos / 1000000000).toNat

/-- `.map_err(|e| …)?` of the handlers. -/
def orElse {ε α : Type} (msg : ε → String) : Except ε α → Except String α
  | .ok a => .ok a
  | .error e => .error (msg e)

/-- A check that ends the request with `msg`. -/
def require (p : Prop) [Decidable p] (msg : String) : Except String Unit := if p then .ok () else .error msg

theorem orElse_ok_iff {ε α : Type} {msg : ε → String} {x : Except ε α} {a : α} :
    orElse msg x = .ok a ↔ x = .ok a := by
  cases x <;> simp [orElse]

theorem require_ok_iff {p : Prop} [Decidable p] {msg : String} : require p msg = .ok () ↔ p := by
  unfold require
  split <;> simp_all

/-! ## Requests -/

structure ReplaceBody where
  webcashes : List String
  newWebcashes : List String
  legalese : Option Bool

structure ReplaceRequest where
  body : Except String ReplaceBody
  hook : HookBody

structure MiningReportBody where
  preimage : String
  legalese : Option Bool

structure MiningPreimage where
  webcash : List String
  subsidy : List String

structure IssueBody where
  issuerFp : String
  outputs : List String
  nonce : String
  legalese : Option Bool

/-- The header, the bytes that are signed, and what they decode to. -/
structure IssueRequest where
  signature : Option String
  raw : List UInt8
  body : Except String IssueBody

structure BurnBody where
  webcash : String
  legalese : Option Bool

structure ServeConfig where
  mining : MiningConfig
  issuers : Option IssuerRegistry
  decodePreimage : String → Except String MiningPreimage

/-- `legalese.as_ref().is_some_and(|l| l.terms)`. -/
def requireTerms (legalese : Option Bool) : Except String Unit :=
  require (legalese = some true) "legalese.terms must be true"

section

variable {σ ρ δ : Type}

/-! ## `replace` -/

/-- Parse tokens one by one, adding up their amounts. -/
def sumTokens (A : SplittableAsset σ ρ) (invalid overflow : String) : List String → Amount →
    Except String (List σ × Amount)
  | [], total => .ok ([], total)
  | token :: tokens, total => do
    let s ← orElse (fun e => invalid ++ e.display) (A.parseSecret token)
    match total.checkedAdd (A.amount s) with
    | none => .error overflow
    | some total' => do
      let (ss, sum) ← sumTokens A invalid overflow tokens total'
      return (s :: ss, sum)

/-- Every looked-up record must be there. -/
def concreteInputs : List String → List (Option ρ) → Except String (List ρ)
  | h :: hs, found :: rest => do
    match found with
    | none => .error ("input token not found: " ++ h)
    | some r => do
      let rs ← concreteInputs hs rest
      return r :: rs
  | _, _ => .ok []

/-- All checks of `replace`; `none` is the accepted empty request. -/
def planReplace (A : SplittableAsset σ ρ) (store : LedgerStore δ ρ) (env : RequestEnv)
    (req : ReplaceRequest) (db : δ) :
    Except String (Option (Namespace × ReplaceOp ρ)) := do
  let parsed ← req.body
  let _ ← requireTerms parsed.legalese
  if parsed.webcashes = [] ∧ parsed.newWebcashes = [] then return none
  else do
    let (ins, inputTotal) ← sumTokens A "invalid input token: " "input amount overflow" parsed.webcashes .zero
    let (outs, outputTotal) ← sumTokens A "invalid output token: " "output amount overflow" parsed.newWebcashes .zero
    let _ ← require (inputTotal = outputTotal)
      ("amount mismatch: inputs=" ++ inputTotal.display ++ " outputs=" ++ outputTotal.display)
    let ns := Namespace.ofEnvelope (ins.head?.bind A.namespaceEnvelope)
    let _ ← require (∀ s ∈ ins ++ outs, Namespace.ofEnvelope (A.namespaceEnvelope s) = ns)
      "namespace mismatch: all inputs and outputs must share the same (contract_id, issuer_fp)"
    let hashes := ins.map A.publicHash
    let found ← orElse ("storage: " ++ ·) (store.getTokens ns hashes db)
    let recs ← concreteInputs hashes found
    let _ ← orElse AssetError.display (A.validateReplaceRequest req.hook recs outs env.serverNowUnix)
    let outputs ← orElse AssetError.display
      (A.augmentOutputRecords req.hook (outs.map (A.recordFromSecret env.now · .replaced)) env.serverNowUnix)
    return some (ns, ⟨hashes, outputs,
      ⟨env.uuid, hashes, outputs.map A.codec.publicHash, inputTotal.wats, env.now⟩⟩)

/-- The answer to the first result of `batch_replace`. -/
def replaceAnswer (noResult : String) : List ReplaceResult → Response
  | .ok :: _ => success
  | .failed e :: _ => .serverError ("replace failed: " ++ e)
  | [] => .serverError noResult

/-- Carry out a plan. -/
def commitReplace (store : LedgerStore δ ρ) (noResult : String)
    (plan : Except String (Option (Namespace × ReplaceOp ρ))) (db : δ) : Response × δ :=
  match plan with
  | .error e => (.serverError e, db)
  | .ok none => (success, db)
  | .ok (some (ns, op)) =>
    let (results, db') := store.batchReplace ns [op] db
    (replaceAnswer noResult results, db')

def replace (A : SplittableAsset σ ρ) (store : LedgerStore δ ρ) (env : RequestEnv)
    (req : ReplaceRequest) (db : δ) :
    Response × δ :=
  commitReplace store "no result from batch_replace" (planReplace A store env req db) db

/-! ## `replace_collectible` -/

/-- The record of the only input. -/
def firstFound (hash : String) : List (Option ρ) → Except String ρ
  | some r :: _ => .ok r
  | _ => .error ("input token not found: " ++ hash)

def planReplaceCollectible (A : CollectibleAsset σ ρ) (I : IssuedAsset σ) (store : LedgerStore δ ρ)
    (env : RequestEnv) (req : ReplaceRequest) (db : δ) : Except String (Option (Namespace × ReplaceOp ρ)) := do
  let parsed ← req.body
  let _ ← requireTerms parsed.legalese
  match parsed.webcashes, parsed.newWebcashes with
  | [tokenIn], [tokenOut] => do
    let input ← orElse (fun e => "invalid input: " ++ e.display) (A.parseSecret tokenIn)
    let output ← orElse (fun e => "invalid output: " ++ e.display) (A.parseSecret tokenOut)
    let _ ← require (I.issuer input = I.issuer output ∧ I.contractId input = I.contractId output)
      "namespace mismatch (input/output)"
    let _ ← orElse (fun e => "rejected: " ++ e.display) (A.validateTransfer input output)
    let ns := Namespace.ofEnvelope (A.namespaceEnvelope input)
    let hash := A.publicHash input
    let found ← orElse ("storage: " ++ ·) (store.getTokens ns [hash] db)
    let rec₀ ← firstFound hash found
    let _ ← orElse AssetError.display (A.validateReplaceRequest req.hook [rec₀] [output] env.serverNowUnix)
    let outputs ← orElse AssetError.display
      (A.augmentOutputRecords req.hook [A.recordFromSecret env.now output .replaced] env.serverNowUnix)
    return some (ns, ⟨[hash], outputs, ⟨env.uuid, [hash], outputs.map A.codec.publicHash, 0, env.now⟩⟩)
  | _, _ => .error "non-splittable replace requires exactly 1 input and 1 output"

def replaceCollectible (A : CollectibleAsset σ ρ) (I : IssuedAsset σ) (store : LedgerStore δ ρ) (env : RequestEnv)
    (req : ReplaceRequest) (db : δ) : Response × δ :=
  commitReplace store "no result" (planReplaceCollectible A I store env req db) db

/-! ## `mining_report` -/

/-- Parse tokens into records. -/
def buildRecords (A : Asset σ ρ) (now : DateTime) (origin : RecordOrigin) (invalid : String) :
    List String → Except String (List ρ)
  | [] => .ok []
  | token :: tokens => do
    let s ← orElse (fun e => invalid ++ e.display) (A.parseSecret token)
    let rs ← buildRecords A now origin invalid tokens
    return A.recordFromSecret now s origin :: rs

/-- The checks of `mining_report`: the target and the records to insert. -/
def planMint (A : SplittableAsset σ ρ) (cfg : ServeConfig) (env : RequestEnv)
    (body : Except String MiningReportBody) :
    Except String (Nat × List ρ) := do
  let report ← body
  let _ ← requireTerms report.legalese
  match cfg.mining.currentDifficulty with
  | none => .error "mining is disabled on this server"
  | some bits => do
    let _ ← require (verifyPow report.preimage bits = true) ("proof-of-work below target (" ++
      toString bits ++ " bits)")
    let preimage ← orElse ("invalid preimage: " ++ ·) (cfg.decodePreimage report.preimage)
    let records ← buildRecords A.toAsset env.now .mined "invalid mined token: " (preimage.webcash ++ preimage.subsidy)
    return (bits, records)

/-- `u64::saturating_add(1)`. -/
def saturatingSucc (n : Nat) : Nat := saturatingAddU64 n 1

/-- The mining state after an accepted report. -/
def nextMiningState (codec : HashRecord ρ) (cfg : MiningConfig) (bits : Nat) (records : List ρ) (old : MiningState) :
    MiningState :=
  let added := I64.wrap (records.map fun r => (codec.amountWats r).val).sum
  { old with
    miningReportsCount := saturatingSucc old.miningReportsCount
    difficultyTargetBits := bits
    miningAmountWats := cfg.miningAmountWats
    subsidyAmountWats := cfg.subsidyAmountWats
    totalCirculationWats := old.totalCirculationWats.saturatingAdd added }

/-- `get_mining_state().await.ok().flatten().unwrap_or_default()`. -/
def currentMiningState (store : LedgerStore δ ρ) (db : δ) : MiningState :=
  match store.getMiningState db with
  | .ok (some s) => s
  | _ => .default

theorem currentMiningState_ok {store : LedgerStore δ ρ} {db : δ} {state : Option MiningState}
    (h : store.getMiningState db = .ok state) :
    currentMiningState store db = state.getD .default := by
  rw [currentMiningState, h]
  cases state <;> rfl

def miningReport (A : SplittableAsset σ ρ) (cfg : ServeConfig) (store : LedgerStore δ ρ) (env : RequestEnv)
    (body : Except String MiningReportBody) (db : δ) : Response × δ :=
  match planMint A cfg env body with
  | .error e => (.serverError e, db)
  | .ok (bits, records) =>
    match store.insertTokens records db with
    | (.error e, db₁) => (.serverError ("insert: " ++ e), db₁)
    | (.ok (), db₁) =>
      (success, (store.updateMiningState
        (nextMiningState A.codec cfg.mining bits records (currentMiningState store db₁)) db₁).2)

/-! ## `issue` -/

/-- Parse outputs that all name `issuer`. -/
def issuedOutputs (A : Asset σ ρ) (I : IssuedAsset σ) (issuer : PgpFingerprint) : List String →
    Except String (List σ)
  | [] => .ok []
  | token :: tokens => do
    let s ← orElse (fun e => "invalid output: " ++ e.display) (A.parseSecret token)
    let _ ← require (I.issuer s = issuer) "output issuer fingerprint must match envelope issuer_fp"
    let ss ← issuedOutputs A I issuer tokens
    return s :: ss

/-- `issue` also wants one contract id for all outputs. -/
def requireOneContract (I : IssuedAsset σ) (secrets : List σ) : Except String Unit :=
  require (∀ s ∈ secrets, (secrets.head?.map I.contractId) = some (I.contractId s))
    "all outputs must share one contract_id"

/-- The checks before the nonce is taken: registry, signature header, body, terms, signature. -/
def authorise (cfg : ServeConfig) (req : IssueRequest) : Except String (PgpFingerprint × IssueBody) :=
  match cfg.issuers with
  | none => .error "issuer registry not configured"
  | some registry =>
    match req.signature with
    | none => .error "missing X-Issuer-Signature header"
    | some sigHex => do
      let sig ← orElse (fun e => "signature hex: " ++ hexErrorText e) (Hex.decode (asBytes sigHex))
      let parsed ← req.body
      let _ ← requireTerms parsed.legalese
      let issuer : PgpFingerprint := ⟨registry.toLowercase parsed.issuerFp⟩
      let _ ← orElse (fun e => "auth: " ++ e.display) (registry.verify issuer req.raw sig)
      return (issuer, parsed)

/-- The checks of an issuance. The nonce is used up before the outputs are looked at. -/
def planIssue (A : Asset σ ρ) (I : IssuedAsset σ) (checkContracts : List σ → Except String Unit)
    (cfg : ServeConfig)
    (env : RequestEnv) (req : IssueRequest) (nonces : NonceCache) : Except String (List ρ) × NonceCache :=
  match authorise cfg req with
  | .error e => (.error e, nonces)
  | .ok (issuer, parsed) =>
    match nonces.checkAndInsert issuer parsed.nonce with
    | (.error e, nonces') => (.error ("nonce: " ++ e.display), nonces')
    | (.ok (), nonces') => (do
        let secrets ← issuedOutputs A I issuer parsed.outputs
        let _ ← checkContracts secrets
        return secrets.map (A.recordFromSecret env.now · .replaced), nonces')

/-- Insert the planned records. -/
def commitIssue (store : LedgerStore δ ρ) (plan : Except String (List ρ)) (db : δ) : Response × δ :=
  match plan with
  | .error e => (.serverError e, db)
  | .ok records =>
    match store.insertTokens records db with
    | (.error e, db₁) => (.serverError ("insert: " ++ e), db₁)
    | (.ok (), db₁) => (success, db₁)

def issue (A : SplittableAsset σ ρ) (I : IssuedAsset σ) (cfg : ServeConfig) (store : LedgerStore δ ρ)
    (env : RequestEnv) (req : IssueRequest) (nonces : NonceCache) (db : δ) : Response × NonceCache × δ :=
  let (plan, nonces') := planIssue A.toAsset I (requireOneContract I) cfg env req nonces
  let (answer, db') := commitIssue store plan db
  (answer, nonces', db')

/-- Without the check for one contract id. -/
def issueCollectible (A : CollectibleAsset σ ρ) (I : IssuedAsset σ) (cfg : ServeConfig) (store : LedgerStore δ ρ)
    (env : RequestEnv) (req : IssueRequest) (nonces : NonceCache) (db : δ) : Response × NonceCache × δ :=
  let (plan, nonces') := planIssue A.toAsset I (fun _ => .ok ()) cfg env req nonces
  let (answer, db') := commitIssue store plan db
  (answer, nonces', db')

/-! ## `burn` -/

/-- The checks of a burn: namespace, hash and audit record. -/
def planBurn (A : Asset σ ρ) (amountWats : σ → I64) (env : RequestEnv) (body : Except String BurnBody) :
    Except String (Namespace × String × BurnRecord) := do
  let parsed ← body
  let _ ← requireTerms parsed.legalese
  let s ← orElse (fun e => "invalid token: " ++ e.display) (A.parseSecret parsed.webcash)
  let hash := A.publicHash s
  return (.ofEnvelope (A.namespaceEnvelope s), hash, ⟨env.uuid, hash, amountWats s, env.now⟩)

def commitBurn (store : LedgerStore δ ρ) (plan : Except String (Namespace × String × BurnRecord)) (db : δ) :
    Response × δ :=
  match plan with
  | .error e => (.serverError e, db)
  | .ok (ns, hash, record) =>
    match store.batchBurn ns [(hash, record)] db with
    | (.ok (), db') => (success, db')
    | (.error e, db') => (.serverError ("burn failed: " ++ e), db')

def burn (A : SplittableAsset σ ρ) (store : LedgerStore δ ρ) (env : RequestEnv)
    (body : Except String BurnBody) (db : δ) :
    Response × δ := commitBurn store (planBurn A.toAsset (fun s => (A.amount s).wats) env body) db

def burnCollectible (A : CollectibleAsset σ ρ) (store : LedgerStore δ ρ) (env : RequestEnv)
    (body : Except String BurnBody)
    (db : δ) : Response × δ := commitBurn store (planBurn A.toAsset (fun _ => 0) env body) db

end

end Webycash
