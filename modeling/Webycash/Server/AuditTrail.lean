import Webycash.Server.Mint
import Webycash.Server.Route
import Webycash.Storage.Audit
import Webycash.Storage.Worth
/-!
# The audit trail of a server

What an operator can read off the audit rows, over whole runs of requests from an empty ledger.
`audit_trail_complete`: an accepted burn, and an accepted replace that names a token, has its row for
good (an empty replace is accepted and writes nothing), every row was left by such a request, and whatever is
spent is on record, except for the inputs of a replace that Redis refused half-way. `audit_trail_exact`: where
no such replace occurs and nothing is inserted over a stored record, the rows are the whole account of the
ledger.
-/

namespace Webycash

section

variable {σ ρ δ : Type}

/-- The row of a plan describes the op it comes with. -/
structure Recorded (A : Asset σ ρ) (env : RequestEnv) (op : ReplaceOp ρ) : Prop where
  id : op.record.id = env.uuid
  inputs : op.record.inputHashes = op.inputs
  outputs : op.record.outputHashes = op.outputs.map A.codec.publicHash

theorem planReplace_recorded {A : SplittableAsset σ ρ} {store : LedgerStore δ ρ} {env : RequestEnv}
    {req : ReplaceRequest} {db : δ}
    {ns : Namespace} {op : ReplaceOp ρ} (h : planReplace A store env req db = .ok (some (ns, op))) :
    Recorded A.toAsset env op := by
  unfold planReplace at h
  obtain ⟨parsed, -, h⟩ := Except.bind_ok_iff.1 h
  obtain ⟨_, -, h⟩ := Except.bind_ok_iff.1 h
  split at h
  · cases h
  obtain ⟨⟨ins, inputTotal⟩, -, h⟩ := Except.bind_ok_iff.1 h
  obtain ⟨⟨outs, outputTotal⟩, -, h⟩ := Except.bind_ok_iff.1 h
  obtain ⟨_, -, h⟩ := Except.bind_ok_iff.1 h
  obtain ⟨_, -, h⟩ := Except.bind_ok_iff.1 h
  obtain ⟨found, -, h⟩ := Except.bind_ok_iff.1 h
  obtain ⟨recs, -, h⟩ := Except.bind_ok_iff.1 h
  obtain ⟨_, -, h⟩ := Except.bind_ok_iff.1 h
  obtain ⟨outputs, -, h⟩ := Except.bind_ok_iff.1 h
  cases h
  exact ⟨rfl, rfl, rfl⟩

theorem planReplaceCollectible_recorded {A : CollectibleAsset σ ρ} {I : IssuedAsset σ}
    {store : LedgerStore δ ρ} {env : RequestEnv}
    {req : ReplaceRequest} {db : δ} {ns : Namespace} {op : ReplaceOp ρ}
    (h : planReplaceCollectible A I store env req db = .ok (some (ns, op))) : Recorded A.toAsset env op := by
  unfold planReplaceCollectible at h
  obtain ⟨parsed, -, h⟩ := Except.bind_ok_iff.1 h
  obtain ⟨_, -, h⟩ := Except.bind_ok_iff.1 h
  split at h
  swap
  · cases h
  obtain ⟨input, -, h⟩ := Except.bind_ok_iff.1 h
  obtain ⟨output, -, h⟩ := Except.bind_ok_iff.1 h
  obtain ⟨_, -, h⟩ := Except.bind_ok_iff.1 h
  obtain ⟨_, -, h⟩ := Except.bind_ok_iff.1 h
  obtain ⟨found, -, h⟩ := Except.bind_ok_iff.1 h
  obtain ⟨rec₀, -, h⟩ := Except.bind_ok_iff.1 h
  obtain ⟨_, -, h⟩ := Except.bind_ok_iff.1 h
  obtain ⟨outputs, -, h⟩ := Except.bind_ok_iff.1 h
  cases h
  exact ⟨rfl, rfl, rfl⟩

theorem planBurn_recorded {A : Asset σ ρ} {amountWats : σ → I64} {env : RequestEnv}
    {body : Except String BurnBody} {ns : Namespace}
    {hash : String} {record : BurnRecord} (h : planBurn A amountWats env body = .ok (ns, hash, record)) :
    record.id = env.uuid ∧ record.publicHash = hash := by
  unfold planBurn at h
  obtain ⟨parsed, -, h⟩ := Except.bind_ok_iff.1 h
  obtain ⟨_, -, h⟩ := Except.bind_ok_iff.1 h
  obtain ⟨s, -, h⟩ := Except.bind_ok_iff.1 h
  cases h
  exact ⟨rfl, rfl⟩

end

/-- A server whose replaces and burns are their plans carried out, with rows that describe them. -/
structure AuditedServer (σ ρ : Type) (b : Backend) extends LedgerServer σ ρ b where
  noResult : String
  recorded : ∀ {c req db ns op}, plan c req db = .ok (some (ns, op)) → Recorded asset c.env op
  replaces : ∀ {c s req}, c.request = .replace req → serve c s = withDb s
    (commitReplace (b.store (asset.storeConfig keys chrono serviceError) c.env.now c.service) noResult
      (plan c req s.db) s.db)
  burns : ∀ {c s body}, c.request = .burn body → serve c s = withDb s
    (commitBurn (b.store (asset.storeConfig keys chrono serviceError) c.env.now c.service)
      (planBurn asset burnAmount c.env body) s.db)
  mints : ∀ {c nonces rs}, batch c nonces = some rs → c.request.Mints

section

variable {σ ρ : Type} (keys : KeyStrategy) (chrono : Codec) (serviceError : String) (cfg : ServeConfig) (b : Backend)

variable {keys chrono serviceError cfg b} in
theorem splittableServer_mints {A : SplittableAsset σ ρ} {c : Call} {nonces : NonceCache} {rs : List ρ}
    (h : (splittableServer keys chrono serviceError cfg b A).batch c nonces = some rs) : c.request.Mints := by
  obtain ⟨env, service, q⟩ := c
  cases q <;> trivial

variable {keys chrono serviceError cfg b} in
theorem issuedServer_mints {A : SplittableAsset σ ρ} {I : IssuedAsset σ} {c : Call}
    {nonces : NonceCache} {rs : List ρ}
    (h : (issuedServer keys chrono serviceError cfg b A I).batch c nonces = some rs) : c.request.Mints := by
  obtain ⟨env, service, q⟩ := c
  cases q <;> trivial

variable {keys chrono serviceError cfg b} in
theorem collectibleServer_mints {A : CollectibleAsset σ ρ} {I : IssuedAsset σ}
    {hI : ∀ s, A.namespaceEnvelope s = envelopeOf (I.contractId s) (I.issuer s)} {c : Call}
    {nonces : NonceCache} {rs : List ρ}
    (h : (collectibleServer keys chrono serviceError cfg b A I hI).batch c nonces = some rs) : c.request.Mints := by
  obtain ⟨env, service, q⟩ := c
  cases q <;> trivial

def auditedSplittable (A : SplittableAsset σ ρ) : AuditedServer σ ρ b where
  toLedgerServer := splittableServer keys chrono serviceError cfg b A
  noResult := "no result from batch_replace"
  recorded h := planReplace_recorded h
  replaces {c s req} h := by
    obtain ⟨env, service, q⟩ := c
    cases h
    rfl
  burns {c s body} h := by
    obtain ⟨env, service, q⟩ := c
    cases h
    rfl
  mints h := splittableServer_mints h

def auditedIssued (A : SplittableAsset σ ρ) (I : IssuedAsset σ) : AuditedServer σ ρ b where
  toLedgerServer := issuedServer keys chrono serviceError cfg b A I
  noResult := "no result from batch_replace"
  recorded h := planReplace_recorded h
  replaces {c s req} h := by
    obtain ⟨env, service, q⟩ := c
    cases h
    rfl
  burns {c s body} h := by
    obtain ⟨env, service, q⟩ := c
    cases h
    rfl
  mints h := issuedServer_mints h

def auditedCollectible (A : CollectibleAsset σ ρ) (I : IssuedAsset σ)
    (hI : ∀ s, A.namespaceEnvelope s = envelopeOf (I.contractId s) (I.issuer s)) : AuditedServer σ ρ b where
  toLedgerServer := collectibleServer keys chrono serviceError cfg b A I hI
  noResult := "no result"
  recorded h := planReplaceCollectible_recorded h
  replaces {c s req} h := by
    obtain ⟨env, service, q⟩ := c
    cases h
    rfl
  burns {c s body} h := by
    obtain ⟨env, service, q⟩ := c
    cases h
    rfl
  mints h := collectibleServer_mints h

end

/-- The ids of the requests are distinct and hold no separator, as version 4 UUIDs do. -/
def FreshIds (calls : List Call) : Prop :=
  (calls.map (·.env.uuid)).Nodup ∧ ∀ c ∈ calls, ':' ∉ c.env.uuid.toList

theorem FreshIds.left {calls more : List Call} (h : FreshIds (calls ++ more)) : FreshIds calls :=
  ⟨(h.1.sublist ((List.sublist_append_left calls more).map _)), fun c hc => h.2 c (List.mem_append_left _ hc)⟩

namespace AuditedServer

variable {σ ρ : Type} {b : Backend} (S : AuditedServer σ ρ b)

/-- The row the request leaves where it is accepted, and the keys that are spent and made for it. -/
inductive Leaves (c : Call) (s : ServerState b.Db) : String → AuditRow → List String → List String → Prop
  | replace {req : ReplaceRequest} {ns : Namespace} {op : ReplaceOp ρ} (hq : c.request = .replace req)
    (hplan : S.plan c req s.db = .ok (some (ns, op))) :
    Leaves c s ((AuditRow.replacement op.record).key S.storeConfig ns)
      (.replacement op.record) (inputKeys S.storeConfig ns op) (outputKeys S.storeConfig ns op)
  | burn {body : Except String BurnBody} {ns : Namespace} {hash : String} {record : BurnRecord}
      (hq : c.request = .burn body)
    (hplan : planBurn S.asset S.burnAmount c.env body = .ok (ns, hash, record)) :
    Leaves c s ((AuditRow.burn record).key S.storeConfig ns) (.burn record) [S.storeConfig.tokenKey ns hash] []

/-- A request is served. -/
def Step (s : ServerState b.Db) (c : Call) (s' : ServerState b.Db) : Prop := s' = (S.serve c s).2

/-- The replace is refused and has spent all its inputs. -/
def Torn (c : Call) (s : ServerState b.Db) (ins : List String) : Prop :=
  b = .redis ∧ (∃ req ns op, c.request = .replace req ∧ S.plan c req s.db = .ok (some (ns, op)) ∧
    ins = inputKeys S.storeConfig ns op) ∧ (S.serve c s).1 ≠ success ∧
      (b.seals s.db).Closes (b.seals (S.serve c s).2.db) ins

variable {S} {c : Call} {s : ServerState b.Db} {key : String} {row : AuditRow} {ins outs : List String}

theorem Leaves.key_id (h : S.Leaves c s key row ins outs) : (∃ ns, key = row.key S.storeConfig ns) ∧
    row.id = c.env.uuid := by
  cases h with
  | replace _ hplan => exact ⟨⟨_, rfl⟩, (S.recorded hplan).id⟩
  | burn _ hplan => exact ⟨⟨_, rfl⟩, (planBurn_recorded hplan).1⟩

/-- **The row describes the move.** -/
theorem Leaves.describes (h : S.Leaves c s key row ins outs) :
    (∀ k, row.Uses S.storeConfig key k ↔ k ∈ ins) ∧ ∀ k, row.Makes S.storeConfig key k ↔ k ∈ outs := by
  cases h with
  | @replace req ns op _ hplan =>
    obtain ⟨-, hin, hout⟩ := S.recorded hplan
    have houts : op.record.outputHashes.map (S.storeConfig.tokenKey ns) = outputKeys S.storeConfig ns op := by
      rw [hout, List.map_map]
      rfl
    refine ⟨fun k => AuditRow.uses_iff.trans ?_, fun k => AuditRow.makes_iff.trans ?_⟩
    · rw [AuditRow.inputs, hin]
      rfl
    · rw [AuditRow.outputs, houts]
  | @burn body ns hash record _ hplan =>
    refine ⟨fun k => AuditRow.uses_iff.trans ?_, fun k => AuditRow.makes_iff⟩
    rw [AuditRow.inputs, (planBurn_recorded hplan).2]
    rfl

/-! ## One request -/

theorem serve_replace {req : ReplaceRequest} {ns : Namespace} {op : ReplaceOp ρ} (hq : c.request = .replace req)
    (hplan : S.plan c req s.db = .ok (some (ns, op))) :
    (S.serve c s).2.db = ((S.store c).batchReplace ns [op] s.db).2 ∧
      ((S.serve c s).1 = success ↔ ((S.store c).batchReplace ns [op] s.db).1 = [.ok]) := by
  have hserve : S.serve c s = withDb s (commitReplace (S.store c) S.noResult (.ok (some (ns, op))) s.db) := by
    rw [S.replaces hq, hplan]
    rfl
  obtain ⟨result, hone⟩ : ∃ result, ((S.store c).batchReplace ns [op] s.db).1 = [result] := Backend.replace_one
  rw [hserve, commitReplace]
  refine ⟨rfl, ?_⟩
  show replaceAnswer S.noResult ((S.store c).batchReplace ns [op] s.db).1 = success ↔ _
  rw [hone]
  cases result with
  | ok => simp [replaceAnswer]
  | failed e => simp [replaceAnswer, success]

theorem serve_burn {body : Except String BurnBody} {ns : Namespace} {hash : String} {record : BurnRecord}
    (hq : c.request = .burn body) (hplan : planBurn S.asset S.burnAmount c.env body = .ok (ns, hash, record)) :
    (S.serve c s).2.db = ((S.store c).batchBurn ns [(hash, record)] s.db).2 ∧
      ((S.serve c s).1 = success ↔ ((S.store c).batchBurn ns [(hash, record)] s.db).1 = .ok ()) := by
  have hserve : S.serve c s = withDb s (commitBurn (S.store c) (.ok (ns, hash, record)) s.db) := by
    rw [S.burns hq, hplan]
    rfl
  rw [hserve, commitBurn]
  generalize (S.store c).batchBurn ns [(hash, record)] s.db = result
  obtain ⟨answer, db⟩ := result
  cases answer with
  | error e => exact ⟨rfl, by simp [withDb, success]⟩
  | ok u => exact ⟨rfl, by simp [withDb]⟩

/-- An accepted request does what its row says. -/
theorem Leaves.entered (h : S.Leaves c s key row ins outs) (hnew : b.audited s.db key = none)
    (hok : (S.serve c s).1 = success) :
    Seals.Entered (b.seals s.db) (b.seals (S.serve c s).2.db) (b.audited s.db)
      (b.audited (S.serve c s).2.db) key row ins outs := by
  cases h with
  | @replace req ns op hq hplan =>
    obtain ⟨pins, pouts, recs, hp⟩ := S.planned hplan
    obtain ⟨hdb, hans⟩ := serve_replace hq hplan
    rw [hdb]
    exact Backend.replace_entered hp.outputs_namespace (fun o ho => (hp.outputs_spec o ho).1) (hans.1 hok)
  | @burn body ns hash record hq hplan =>
    obtain ⟨hdb, hans⟩ := serve_burn (s := s) hq hplan
    rw [hdb]
    exact Backend.burn_entered hnew (hans.1 hok)

/-- Everything a request can do to ledger and trail. -/
inductive Outcome (S : AuditedServer σ ρ b) (c : Call) (s : ServerState b.Db) : Prop
  | entered {key : String} {row : AuditRow} {ins outs : List String} (h : S.Leaves c s key row ins outs)
    (hok : (S.serve c s).1 = success)
  | refused {req : ReplaceRequest} {ns : Namespace} {op : ReplaceOp ρ} (hq : c.request = .replace req)
    (hplan : S.plan c req s.db = .ok (some (ns, op))) (hno : ((S.store c).batchReplace ns [op] s.db).1 ≠ [.ok])
  | inserted {rs : List ρ} (hbatch : S.batch c s.nonces = some rs)
    (hseals : b.seals (S.serve c s).2.db = b.seals ((S.store c).insertTokens rs s.db).2)
    (hrows : b.audited (S.serve c s).2.db = b.audited ((S.store c).insertTokens rs s.db).2)
  | idle (hdb : (S.serve c s).2.db = s.db)

theorem outcome (S : AuditedServer σ ρ b) (c : Call) (s : ServerState b.Db) : Outcome S c s := by
  have heff := S.effect c s
  generalize hq : c.request = q at heff
  generalize hdb : (S.serve c s).2.db = db' at heff
  cases heff with
  | idle => exact .idle hdb
  | @exchange req ns op hplan =>
    by_cases hok : ((S.store c).batchReplace ns [op] s.db).1 = [.ok]
    · exact .entered (.replace hq hplan) ((serve_replace hq hplan).2.2 hok)
    · exact .refused hq hplan hok
  | @burn body ns hash record hplan =>
    by_cases hok : ((S.store c).batchBurn ns [(hash, record)] s.db).1 = .ok ()
    · exact .entered (.burn hq hplan) ((serve_burn hq hplan).2.2 hok)
    · exact .idle (hdb.trans (Backend.burn_refused hok))
  | insert hbatch => exact .inserted hbatch (congrArg b.seals hdb) (congrArg b.audited hdb)
  | mint state hbatch =>
    refine .inserted hbatch ((congrArg b.seals hdb).trans ?_) ((congrArg b.audited hdb).trans ?_)
    · cases b <;> rfl
    · cases b <;> rfl

/-- A request that leaves no row leaves the trail alone. -/
theorem rows_kept (h : ∀ {key row ins outs}, S.Leaves c s key row ins outs → (S.serve c s).1 ≠ success)
    (key : String) :
    b.audited (S.serve c s).2.db key = b.audited s.db key := by
  cases S.outcome c s with
  | entered hleaves hok => exact absurd hok (h hleaves)
  | refused hq hplan hno =>
    rw [(serve_replace hq hplan).1]
    exact (Backend.replace_refused hno).1 key
  | inserted _ _ hrows =>
    rw [hrows]
    exact Backend.insert_audited key
  | idle hdb => rw [hdb]

/-- **What a request spends** it has on record, or it is torn. -/
theorem turned_spent {k : String} (hnew : ∀ {key row ins outs}, S.Leaves c s key row ins outs →
    b.audited s.db key = none)
    (hk : b.seals s.db k ≠ some true) (hk' : b.seals (S.serve c s).2.db k = some true) :
    (∃ key row ins outs, S.Leaves c s key row ins outs ∧ (S.serve c s).1 = success ∧ k ∈ ins) ∨
      ∃ ins, S.Torn c s ins ∧ k ∈ ins := by
  cases S.outcome c s with
  | entered hleaves hok =>
    have hin := ((hleaves.entered (hnew hleaves) hok).closed k hk').resolve_left hk
    exact Or.inl ⟨_, _, _, _, hleaves, hok, hin⟩
  | @refused req ns op hq hplan hno =>
    obtain ⟨hdb, hans⟩ := serve_replace hq hplan
    obtain ⟨ins, outs, recs, hp⟩ := S.planned hplan
    have hredis : b = .redis := by
      by_contra hb
      rw [hdb, show ((S.store c).batchReplace ns [op] s.db).2 = s.db from (Backend.replace_refused hno).2 hb] at hk'
      exact hk hk'
    have hchanged : ¬ b.AgreeAt s.db ((S.store c).batchReplace ns [op] s.db).2 k := fun hagree => by
      have hseal := hagree.seals
      rw [← hdb, hk'] at hseal
      exact hk hseal.symm
    have hcloses := (Backend.replace_changed hp.outputs_namespace hchanged).1
    have hin : k ∈ inputKeys S.storeConfig ns op :=
      (Backend.replace_closed (fun o ho => (hp.outputs_spec o ho).1) (hdb ▸ hk')).resolve_left hk
    exact Or.inr ⟨_, ⟨hredis, ⟨req, ns, op, hq, hplan, rfl⟩, fun hok => hno (hans.1 hok),
      hdb ▸ hcloses⟩, hin⟩
  | inserted hbatch hseals _ =>
    rw [hseals] at hk'
    exact absurd (Backend.insert_closed (LedgerServer.batch_unspent hbatch) hk') hk
  | idle hdb =>
    rw [hdb] at hk'
    exact absurd hk' hk

/-! ## Names of rows -/

/-- Every row was left under the id of one of the requests. -/
def KnownIds (S : AuditedServer σ ρ b) (calls : List Call) (s : ServerState b.Db) : Prop :=
  ∀ key row, b.audited s.db key = some row → (∃ ns, key = row.key S.storeConfig ns) ∧ ∃ c ∈ calls,
    row.id = c.env.uuid

variable {calls : List Call}

/-- A further request leaves its row under a new key. -/
theorem Leaves.new (h : S.Leaves c s key row ins outs) (hknown : S.KnownIds calls s) (hids : FreshIds (calls ++ [c])) :
    b.audited s.db key = none := by
  by_contra hne
  obtain ⟨row', hrow'⟩ := Option.ne_none_iff_exists'.1 hne
  obtain ⟨⟨ns', hkey'⟩, c', hc', hid'⟩ := hknown key row' hrow'
  obtain ⟨⟨ns, hkey⟩, hid⟩ := h.key_id
  have hplain : ∀ d ∈ calls ++ [c], ':' ∉ d.env.uuid.toList := hids.2
  have heq := AuditRow.id_eq_of_key (hid ▸ hplain c (by simp)) (hid' ▸ hplain c' (List.mem_append_left _ hc'))
    (hkey ▸ hkey')
  rw [hid, hid'] at heq
  have hnd := hids.1
  rw [List.map_append, List.nodup_append] at hnd
  exact hnd.2.2 _ (List.mem_map.2 ⟨c', hc', rfl⟩) _ (by simp) heq.symm

theorem KnownIds.serve (hknown : S.KnownIds calls s) (hids : FreshIds (calls ++ [c])) :
    S.KnownIds (calls ++ [c]) (S.serve c s).2 := by
  have hold : ∀ key row, b.audited s.db key = some row → (∃ ns, key = row.key S.storeConfig ns) ∧
      ∃ d ∈ calls ++ [c], row.id = d.env.uuid :=
    fun key row hrow => by
      obtain ⟨hkey, d, hd, hid⟩ := hknown key row hrow
      exact ⟨hkey, d, List.mem_append_left _ hd, hid⟩
  intro key row hrow
  by_cases hacc : ∃ key row ins outs, S.Leaves c s key row ins outs ∧ (S.serve c s).1 = success
  · obtain ⟨key', row', ins, outs, hleaves, hok⟩ := hacc
    rcases (hleaves.entered (hleaves.new hknown hids) hok).row_cases hrow with ⟨rfl, rfl⟩ | ⟨-, hrow⟩
    · obtain ⟨hkey, hid⟩ := hleaves.key_id
      exact ⟨hkey, c, by simp, hid⟩
    · exact hold key row hrow
  · rw [rows_kept fun hleaves hok => hacc ⟨_, _, _, _, hleaves, hok⟩] at hrow
    exact hold key row hrow

/-- A row stays, whatever else a request does. -/
theorem row_stays (hknown : S.KnownIds calls s) (hids : FreshIds (calls ++ [c])) (h : b.audited s.db key = some row) :
    b.audited (S.serve c s).2.db key = some row := by
  by_cases hacc : ∃ key row ins outs, S.Leaves c s key row ins outs ∧ (S.serve c s).1 = success
  · obtain ⟨key', row', ins, outs, hleaves, hok⟩ := hacc
    have hnew := hleaves.new hknown hids
    exact (hleaves.entered hnew hok).kept hnew h
  · rw [rows_kept fun hleaves hok => hacc ⟨_, _, _, _, hleaves, hok⟩, h]

theorem knownIds_of_run {nonces : NonceCache} (h : Run S.Step ⟨nonces, b.empty⟩ calls s)
    (hids : FreshIds calls) : S.KnownIds calls s := by
  refine Run.history (I := fun calls s => FreshIds calls → S.KnownIds calls s) ?_ ?_ h hids
  · intro _ key row hrow
    rw [Backend.audited_empty] at hrow
    cases hrow
  · rintro calls s c _ - ih rfl hids
    exact (ih hids.left).serve hids

theorem rows_stay {t : ServerState b.Db} {before after : List Call} (h : Run S.Step s after t)
    (hknown : S.KnownIds before s)
    (hids : FreshIds (before ++ after)) (hrow : b.audited s.db key = some row) : b.audited t.db key = some row := by
  induction h generalizing before with
  | nil => exact hrow
  | @cons s u t c after hs _ ih =>
    obtain rfl := hs
    have hids' : FreshIds ((before ++ [c]) ++ after) := by simpa using hids
    exact ih (hknown.serve hids'.left) hids' (row_stays hknown hids'.left hrow)

/-! ## Whole runs -/

/-- In a run from an empty ledger: every row was left by an accepted request and tells its move;
every accepted request has its row at the end; and what is spent is on record, or was spent by a
replace that was refused half-way. -/
def TrailComplete (S : AuditedServer σ ρ b) : Prop :=
  ∀ (nonces : NonceCache) (calls : List Call) (s : ServerState b.Db), Run S.Step ⟨nonces, b.empty⟩ calls s →
    FreshIds calls →
    (∀ key row, b.audited s.db key = some row → ∃ c s₁ s₂ ins outs,
      Run.At S.Step ⟨nonces, b.empty⟩ calls s c s₁ s₂ ∧
      S.Leaves c s₁ key row ins outs ∧ (S.serve c s₁).1 = success ∧
      Seals.Entered (b.seals s₁.db) (b.seals s₂.db) (b.audited s₁.db) (b.audited s₂.db) key row ins outs) ∧
    (∀ c s₁ s₂, Run.At S.Step ⟨nonces, b.empty⟩ calls s c s₁ s₂ → (S.serve c s₁).1 = success →
      ∀ key row ins outs, S.Leaves c s₁ key row ins outs → b.audited s.db key = some row) ∧
    ∀ k, b.seals s.db k = some true →
      (∃ key row, b.audited s.db key = some row ∧ row.Uses S.storeConfig key k) ∨
      ∃ c s₁ s₂ ins, Run.At S.Step ⟨nonces, b.empty⟩ calls s c s₁ s₂ ∧ S.Torn c s₁ ins ∧ k ∈ ins

theorem trailComplete (S : AuditedServer σ ρ b) : S.TrailComplete := by
  intro nonces calls s hrun hids
  -- at each request of the run its row is new, and once it is there it stays
  have hat : ∀ {before after : List Call} {c : Call} {s₁ s₂ : ServerState b.Db}, calls = before ++ c :: after →
      Run S.Step ⟨nonces, b.empty⟩ before s₁ → S.Step s₁ c s₂ → Run S.Step s₂ after s →
      (∀ {key row ins outs}, S.Leaves c s₁ key row ins outs → b.audited s₁.db key = none) ∧
        ∀ {key row}, b.audited s₂.db key = some row → b.audited s.db key = some row := by
    intro before after c s₁ s₂ hcalls hbefore hs hafter
    obtain rfl := hs
    have hids' : FreshIds ((before ++ [c]) ++ after) := by simpa [hcalls] using hids
    have hknown := knownIds_of_run hbefore hids'.left.left
    exact ⟨fun hleaves => hleaves.new hknown hids'.left, rows_stay hafter (hknown.serve hids'.left) hids'⟩
  refine ⟨fun key row hrow => ?_, ?_, fun k hk => ?_⟩
  · obtain ⟨before, c, after, s₁, s₂, hcalls, hbefore, hs, hafter, hno, hyes⟩ := hrun.exists_turn
      (P := fun s => b.audited s.db key = some row) (by simp [Backend.audited_empty]) hrow
    obtain ⟨hnew, -⟩ := hat hcalls hbefore hs hafter
    obtain rfl := hs
    by_cases hacc : ∃ key row ins outs, S.Leaves c s₁ key row ins outs ∧ (S.serve c s₁).1 = success
    · obtain ⟨key', row', ins, outs, hleaves, hok⟩ := hacc
      have hentered := hleaves.entered (hnew hleaves) hok
      rcases hentered.row_cases hyes with ⟨rfl, rfl⟩ | ⟨-, hold⟩
      · exact ⟨c, s₁, _, ins, outs, ⟨before, after, hcalls, hbefore, rfl, hafter⟩, hleaves, hok, hentered⟩
      · exact absurd hold hno
    · rw [rows_kept fun hleaves hok => hacc ⟨_, _, _, _, hleaves, hok⟩] at hyes
      exact absurd hyes hno
  · rintro c s₁ s₂ ⟨before, after, hcalls, hbefore, hs, hafter⟩ hok key row ins outs hleaves
    obtain ⟨hnew, hstays⟩ := hat hcalls hbefore hs hafter
    obtain rfl := hs
    exact hstays (hleaves.entered (hnew hleaves) hok).entered
  · obtain ⟨before, c, after, s₁, s₂, hcalls, hbefore, hs, hafter, hno, hyes⟩ := hrun.exists_turn
      (P := fun s => b.seals s.db k = some true) (by simp [Backend.seals_empty]) hk
    obtain ⟨hnew, hstays⟩ := hat hcalls hbefore hs hafter
    obtain rfl := hs
    rcases turned_spent hnew hno hyes with ⟨key, row, ins, outs, hleaves, hok, hin⟩ | ⟨ins, htorn, hin⟩
    · exact Or.inl ⟨key, row, hstays (hleaves.entered (hnew hleaves) hok).entered, (hleaves.describes.1 k).2 hin⟩
    · exact Or.inr ⟨c, s₁, _, ins, ⟨before, after, hcalls, hbefore, rfl, hafter⟩, htorn, hin⟩

/-- Nothing is inserted over a stored record (FoundationDB sees to that itself); and a replace that
finds its inputs unspent has new outputs, each with fields of its own to store, where the store is
Redis. -/
def Clean (S : AuditedServer σ ρ b) (c : Call) (s : ServerState b.Db) : Prop :=
  (b ≠ .fdb → ∀ rs, S.batch c s.nonces = some rs → ∀ r ∈ rs,
    b.seals s.db (S.storeConfig.recordKey r) = none) ∧
    (b = .redis → ∀ req ns op, c.request = .replace req → S.plan c req s.db = .ok (some (ns, op)) →
      (b.seals s.db).Open (inputKeys S.storeConfig ns op) →
      (b.seals s.db).Fresh (outputKeys S.storeConfig ns op) ∧ Redis.SlicesFilled S.storeConfig op)

/-- A clean request is served. -/
def CleanStep (S : AuditedServer σ ρ b) (s : ServerState b.Db) (c : Call) (s' : ServerState b.Db) : Prop :=
  S.Step s c s' ∧ S.Clean c s

/-- A clean replace is accepted or changes nothing. -/
theorem refused_clean (hclean : S.Clean c s) {req : ReplaceRequest} {ns : Namespace} {op : ReplaceOp ρ}
    (hq : c.request = .replace req)
    (hplan : S.plan c req s.db = .ok (some (ns, op))) (hno : ((S.store c).batchReplace ns [op] s.db).1 ≠ [.ok]) :
    (S.serve c s).2.db = s.db := by
  rw [(serve_replace hq hplan).1]
  cases b with
  | redis =>
    have hshut : ¬ (Redis.seals s.db.tokens).Open (inputKeys S.storeConfig ns op) := fun hopen =>
      hno (Redis.batchReplace_single_ok_iff.2 ⟨hopen, hclean.2 rfl req ns op hq hplan hopen⟩)
    exact Redis.replace_declined (Or.inl hshut)
  | dynamo => exact (Backend.replace_refused hno).2 (by decide)
  | fdb => exact (Backend.replace_refused hno).2 (by decide)

/-- **One clean request** leaves a row with its move, or at most inserts new records. -/
theorem clean_cases (hclean : S.Clean c s)
    (hnew : ∀ {key row ins outs}, S.Leaves c s key row ins outs → b.audited s.db key = none) :
    (∃ key row ins outs, S.Leaves c s key row ins outs ∧
      Seals.Entered (b.seals s.db) (b.seals (S.serve c s).2.db) (b.audited s.db)
        (b.audited (S.serve c s).2.db) key row ins outs) ∨
    ((∀ k, b.seals (S.serve c s).2.db k ≠ none → b.seals s.db k = none → c.request.Mints) ∧
      Seals.Opened (b.seals s.db) (b.seals (S.serve c s).2.db) (b.audited s.db) (b.audited (S.serve c s).2.db)) := by
  have hsame : (S.serve c s).2.db = s.db →
    ((∀ k, b.seals (S.serve c s).2.db k ≠ none → b.seals s.db k = none → c.request.Mints) ∧
      Seals.Opened (b.seals s.db) (b.seals (S.serve c s).2.db) (b.audited s.db) (b.audited (S.serve c s).2.db)) := by
    intro hdb
    rw [hdb]
    exact ⟨fun k hk hk' => absurd hk' hk, .refl _ _⟩
  cases S.outcome c s with
  | entered hleaves hok => exact Or.inl ⟨_, _, _, _, hleaves, hleaves.entered (hnew hleaves) hok⟩
  | refused hq hplan hno => exact Or.inr (hsame (refused_clean hclean hq hplan hno))
  | inserted hbatch hseals hrows =>
    rw [hseals, hrows]
    exact Or.inr ⟨fun _ _ _ => S.mints hbatch,
      Backend.insert_opened (LedgerServer.batch_unspent hbatch) fun hb => hclean.1 hb _ hbatch⟩
  | idle hdb => exact Or.inr (hsame hdb)

/-- On FoundationDB every request is clean. In a clean run from an empty ledger: the spent records are those the
rows use, no record is used or made by two rows, and the records that are there are those the rows make and
those that were minted. -/
def TrailExact (S : AuditedServer σ ρ b) : Prop :=
  (b = .fdb → ∀ c s, S.Clean c s) ∧ ∀ (nonces : NonceCache) (calls : List Call)
    (s : ServerState b.Db), Run S.CleanStep ⟨nonces, b.empty⟩ calls s → FreshIds calls →
    Seals.Account (fun key row => AuditRow.Uses S.storeConfig key row)
      (fun key row => AuditRow.Makes S.storeConfig key row) (b.seals s.db) (b.audited s.db) ∧
    ∀ k, b.seals s.db k ≠ none ↔ (∃ key row, b.audited s.db key = some row ∧
      row.Makes S.storeConfig key k) ∨
      ∃ c s₁ s₂, Run.At S.CleanStep ⟨nonces, b.empty⟩ calls s c s₁ s₂ ∧ c.request.Mints ∧
        b.seals s₁.db k = none ∧ b.seals s₂.db k ≠ none

theorem account_of_run {nonces : NonceCache} (h : Run S.CleanStep ⟨nonces, b.empty⟩ calls s)
    (hids : FreshIds calls) :
    Seals.Account (fun key row => AuditRow.Uses S.storeConfig key row)
      (fun key row => AuditRow.Makes S.storeConfig key row) (b.seals s.db) (b.audited s.db) := by
  refine Run.history (I := fun calls s => FreshIds calls →
    Seals.Account (fun key row => AuditRow.Uses S.storeConfig key row)
    (fun key row => AuditRow.Makes S.storeConfig key row) (b.seals s.db) (b.audited s.db)) ?_ ?_ h hids
  · intro _
    exact .empty (fun _ => Backend.seals_empty) Backend.audited_empty
  · rintro calls s c _ hrun ih ⟨rfl, hclean⟩ hids
    have hknown := knownIds_of_run (hrun.mono fun _ _ _ h => h.1) hids.left
    rcases clean_cases hclean fun hleaves => hleaves.new hknown hids with
      ⟨key, row, ins, outs, hleaves, hentered⟩ | ⟨-, hopened⟩
    · exact (ih hids.left).enter hentered (hleaves.new hknown hids) hleaves.describes.1 hleaves.describes.2
    · exact (ih hids.left).open hopened

/-- What a clean run finds it keeps. -/
theorem there_stays {t : ServerState b.Db} {before after : List Call} {k : String} (h : Run S.CleanStep s after t)
    (hknown : S.KnownIds before s) (hids : FreshIds (before ++ after)) (hk : b.seals s.db k ≠ none) :
    b.seals t.db k ≠ none := by
  induction h generalizing before with
  | nil => exact hk
  | @cons s u t c after hs _ ih =>
    obtain ⟨rfl, hclean⟩ := hs
    have hids' : FreshIds ((before ++ [c]) ++ after) := by simpa using hids
    refine ih (hknown.serve hids'.left) hids' ?_
    rcases clean_cases hclean fun hleaves => hleaves.new hknown hids'.left with ⟨_, _, _, _, -, hentered⟩ |
      ⟨-, hopened⟩
    · exact hentered.there hk
    · rwa [hopened.there k hk]

theorem trailExact (S : AuditedServer σ ρ b) : S.TrailExact := by
  refine ⟨fun hb c s => ⟨fun hne => absurd hb hne, fun hr => absurd (hb.symm.trans hr) (by decide)⟩, ?_⟩
  intro nonces calls s hrun hids
  have hacc := account_of_run hrun hids
  refine ⟨hacc, fun k => ⟨fun hk => ?_, ?_⟩⟩
  · obtain ⟨before, c, after, s₁, s₂, hcalls, hbefore, ⟨rfl, hclean⟩, hafter, hno, hyes⟩ :=
      hrun.exists_turn
      (P := fun s => b.seals s.db k ≠ none) (by simp [Backend.seals_empty]) hk
    have hids' : FreshIds ((before ++ [c]) ++ after) := by simpa [hcalls] using hids
    have hknown := knownIds_of_run (hbefore.mono fun _ _ _ h => h.1) hids'.left.left
    have hfree := not_not.1 hno
    rcases clean_cases hclean fun hleaves => hleaves.new hknown hids'.left with
      ⟨key, row, ins, outs, hleaves, hentered⟩ | ⟨hmint, -⟩
    · have hrow := rows_stay (hafter.mono fun _ _ _ h => h.1) (hknown.serve hids'.left) hids' hentered.entered
      exact Or.inl ⟨key, row, hrow, (hleaves.describes.2 k).2 (hentered.of_new hfree hyes)⟩
    · exact Or.inr ⟨c, s₁, _, ⟨before, after, hcalls, hbefore, ⟨rfl, hclean⟩, hafter⟩,
        hmint k hyes hfree, hfree, hyes⟩
  · rintro (⟨key, row, hrow, hmakes⟩ |
      ⟨c, s₁, s₂, ⟨before, after, hcalls, hbefore, hs, hafter⟩, -, -, hyes⟩)
    · exact hacc.made hrow hmakes
    · have hids' : FreshIds ((before ++ [c]) ++ after) := by simpa [hcalls] using hids
      have hknown := knownIds_of_run (hbefore.mono fun _ _ _ h => h.1) hids'.left.left
      have hknown₂ := hs.1 ▸ hknown.serve hids'.left
      exact there_stays hafter hknown₂ hids' hyes

end AuditedServer

section

variable (keys : KeyStrategy) (chrono : Codec) (json : HtlcJson) (serviceError : String)
  (cfg : ServeConfig) (b : Backend)

def auditedWebcash : AuditedServer SecretWebcash WebcashRecord b :=
  auditedSplittable keys chrono serviceError cfg b (webcash chrono)

def auditedVoucher : AuditedServer SecretIssued VoucherRecord b :=
  auditedIssued keys chrono serviceError cfg b (voucher chrono) issuedSecrets

def auditedRgbFungible : AuditedServer SecretIssued RgbFungibleRecord b :=
  auditedIssued keys chrono serviceError cfg b (rgbFungible chrono json) issuedSecrets

def auditedRgbCollectible : AuditedServer SecretCollectible RgbCollectibleRecord b :=
  auditedCollectible keys chrono serviceError cfg b (rgbCollectible chrono json) collectibleSecrets
    (rgbCollectible_enveloped chrono json)

/-- **The trail is complete.** For the four flavours, every backend and every run. -/
theorem audit_trail_complete : (auditedWebcash keys chrono serviceError cfg b).TrailComplete ∧
    (auditedVoucher keys chrono serviceError cfg b).TrailComplete ∧
    (auditedRgbFungible keys chrono json serviceError cfg b).TrailComplete ∧
    (auditedRgbCollectible keys chrono json serviceError cfg b).TrailComplete :=
  ⟨AuditedServer.trailComplete _, AuditedServer.trailComplete _, AuditedServer.trailComplete _,
    AuditedServer.trailComplete _⟩

/-- **The trail is the account of the ledger**, in every clean run. -/
theorem audit_trail_exact : (auditedWebcash keys chrono serviceError cfg b).TrailExact ∧
    (auditedVoucher keys chrono serviceError cfg b).TrailExact ∧
    (auditedRgbFungible keys chrono json serviceError cfg b).TrailExact ∧
    (auditedRgbCollectible keys chrono json serviceError cfg b).TrailExact :=
  ⟨AuditedServer.trailExact _, AuditedServer.trailExact _, AuditedServer.trailExact _, AuditedServer.trailExact _⟩

end

/-! ## A token that is mined and moved on -/

namespace Sample

def webcashBooks (b : Backend) : AuditedServer SecretWebcash WebcashRecord b :=
  auditedWebcash .webcashLegacyKeys .atEpoch "service error" (serveConfig (token "1" 'a')) b

/-- Replace the mined token, under an id of its own. -/
def moveOn : Call := ⟨⟨⟨0⟩, "9f1d"⟩, .calm, .replace (swap [token "1" 'a'] [token "1" 'b'])⟩

def minedOn (b : Backend) : ServerState b.Db := ((webcashBooks b).serve mineA ⟨.default, b.empty⟩).2

def movedOn (b : Backend) : ServerState b.Db := ((webcashBooks b).serve moveOn (minedOn b)).2

/-- The row of the move. -/
def moveRow : AuditRow :=
  .replacement ⟨"9f1d", [sha256HexOfAscii (hex 'a')], [sha256HexOfAscii (hex 'b')], I64.wrap 100000000, ⟨0⟩⟩

end Sample

open Sample

theorem freshIds_moveOn : FreshIds [mineA, moveOn] := by
  constructor
  · decide
  · decide

/-- On Redis the move is accepted, so its row is there. -/
theorem move_on_record : Run (webcashBooks .redis).Step ⟨.default, Backend.redis.empty⟩ [mineA, moveOn]
    (movedOn .redis) ∧
    Backend.redis.audited (movedOn .redis).db "audit:replace:9f1d" = some moveRow := by
  have hrun : Run (webcashBooks .redis).Step ⟨.default, Backend.redis.empty⟩ [mineA, moveOn] (movedOn .redis) :=
    .cons rfl (.cons rfl (.nil _))
  have hok : ((webcashBooks .redis).serve moveOn (minedOn .redis)).1 = success := by decide +kernel
  have hplan : ((webcashBooks .redis).plan moveOn (swap [token "1" 'a'] [token "1" 'b'])
    (minedOn .redis).db).toOption.join.map
      (fun p => (p.1, AuditRow.replacement p.2.record)) = some (.unscoped, moveRow) := by decide +kernel
  obtain ⟨⟨ns, op⟩, hjoin, hrow⟩ := Option.map_eq_some_iff.1 hplan
  obtain ⟨rfl, hrec⟩ := Prod.mk.inj hrow
  have hleaves : (webcashBooks .redis).Leaves moveOn (minedOn .redis) _ _ _ _ :=
    .replace rfl (toOption_eq_some.1 (Option.join_eq_some_iff.1 hjoin))
  have hcomplete := (audit_trail_complete .webcashLegacyKeys .atEpoch (.ofState ⟨"", 0, "", ""⟩) "service error"
    (serveConfig (token "1" 'a')) .redis).1 _ _ _ hrun freshIds_moveOn
  have hrow := hcomplete.2.1 moveOn (minedOn .redis) _ ⟨[mineA], [], rfl, .cons rfl (.nil _), rfl,
    .nil _⟩ hok _ _ _ _ hleaves
  rw [hrec] at hrow
  exact ⟨hrun, hrow⟩

/-- On FoundationDB the token is spent, so a row uses it. -/
theorem moved_token_accounted : Run (webcashBooks .fdb).CleanStep ⟨.default, Backend.fdb.empty⟩ [mineA, moveOn]
    (movedOn .fdb) ∧
    ∃ key row, Backend.fdb.audited (movedOn .fdb).db key = some row ∧
      row.Uses (webcashBooks .fdb).storeConfig key keyA := by
  have hspent : Fdb.seals (movedOn .fdb).db.tokens keyA = some true := by decide +kernel
  have hexact := (audit_trail_exact .webcashLegacyKeys .atEpoch (.ofState ⟨"", 0, "", ""⟩) "service error"
    (serveConfig (token "1" 'a')) .fdb).1
  have hrun : Run (webcashBooks .fdb).CleanStep ⟨.default, Backend.fdb.empty⟩ [mineA, moveOn] (movedOn .fdb) :=
    .cons ⟨rfl, hexact.1 rfl _ _⟩ (.cons ⟨rfl, hexact.1 rfl _ _⟩ (.nil _))
  exact ⟨hrun, (hexact.2 _ _ _ hrun freshIds_moveOn).1.closed hspent⟩

end Webycash
