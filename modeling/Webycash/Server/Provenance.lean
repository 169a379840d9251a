import Webycash.Server.Scope
/-!
# Issued value has an issuer

Where mining is off, a record of an issued flavour comes into the ledger in one of two ways: an
issuance whose body bytes verify under the key registered for the record's issuer, or a replace
that marks inputs of the same namespace spent. `value_has_issuer` is about whole runs of both
routers from an empty ledger. A replace without inputs runs in no scope and so makes no
issued record; one that fails half-way on Redis has marked its inputs before.
-/

namespace Webycash

/-- A server of an issued flavour: keys and tokens carry the issuer, what it inserts was mined or
issued, and a replace in some scope has inputs. -/
structure IssuerServer (σ ρ : Type) (cfg : ServeConfig) (b : Backend) extends LedgerServer σ ρ b where
  issued : IssuedAsset σ
  namespaced : keys = .namespacedKeys
  enveloped : ∀ s, asset.namespaceEnvelope s = envelopeOf (issued.contractId s) (issued.issuer s)
  issues : ∀ {c nonces rs}, batch c nonces = some rs → cfg.mining.mode ≠ .disabled ∨
    ∃ req issuer parsed ss, c.request = .issue req ∧ authorise cfg req = .ok (issuer, parsed) ∧
      rs = ss.map (asset.recordFromSecret c.env.now · .replaced) ∧
      List.Forall₂ (fun t s => asset.parseSecret t = .ok s) parsed.outputs ss ∧
        ∀ s ∈ ss, issued.issuer s = issuer
  has_inputs : ∀ {c req db ns op}, plan c req db = .ok (some (ns, op)) → op.inputs = [] → ns = .unscoped

section

variable {σ ρ : Type}

/-- Nothing is mined where mining is off. -/
theorem mintBatch_disabled {A : SplittableAsset σ ρ} {cfg : ServeConfig} {env : RequestEnv}
    {body : Except String MiningReportBody} {rs : List ρ} (h : mintBatch A cfg env body = some rs) :
    cfg.mining.mode ≠ .disabled := by
  intro hoff
  obtain ⟨bits, hplan⟩ := mintBatch_eq_some.1 h
  unfold planMint at hplan
  obtain ⟨report, -, hplan⟩ := Except.bind_ok_iff.1 hplan
  obtain ⟨_, -, hplan⟩ := Except.bind_ok_iff.1 hplan
  have hnone : cfg.mining.currentDifficulty = none := by rw [MiningConfig.currentDifficulty, hoff]
  rw [hnone] at hplan
  cases hplan

variable (chrono : Codec) (serviceError : String) (cfg : ServeConfig) (b : Backend)

/-- `serve_issued` over `NamespacedKeys`. -/
def issuerSplittable (A : SplittableAsset σ ρ) (I : IssuedAsset σ)
    (hI : ∀ s, A.namespaceEnvelope s = envelopeOf (I.contractId s) (I.issuer s)) : IssuerServer σ ρ cfg b where
  toLedgerServer := issuedServer .namespacedKeys chrono serviceError cfg b A I
  issued := I
  namespaced := issuedServer_keys ..
  enveloped := hI
  issues h := by
    dsimp only [issuedServer] at h
    split at h
    · exact Or.inl (mintBatch_disabled h)
    · rename_i req hq
      obtain ⟨issuer, parsed, ss, hissue⟩ := planIssue_ok (Prod.ext (toOption_eq_some.1 h) rfl)
      exact Or.inr ⟨req, issuer, parsed, ss, hq, hissue⟩
    · cases h
  has_inputs h := planReplace_no_inputs h

/-- `serve_collectible` over `NamespacedKeys`. -/
def issuerCollectible (A : CollectibleAsset σ ρ) (I : IssuedAsset σ)
    (hI : ∀ s, A.namespaceEnvelope s = envelopeOf (I.contractId s) (I.issuer s)) : IssuerServer σ ρ cfg b where
  toLedgerServer := collectibleServer .namespacedKeys chrono serviceError cfg b A I hI
  issued := I
  namespaced := collectibleServer_keys ..
  enveloped := hI
  issues h := by
    dsimp only [collectibleServer] at h
    split at h
    · rename_i req hq
      obtain ⟨issuer, parsed, ss, hissue⟩ := planIssue_ok (Prod.ext (toOption_eq_some.1 h) rfl)
      exact Or.inr ⟨req, issuer, parsed, ss, hq, hissue⟩
    · cases h
  has_inputs h hin := by
    obtain ⟨input, output, rec₀, hp⟩ := planReplaceCollectible_ok hI h
    rw [hp.inputs] at hin
    cases hin

end

namespace IssuerServer

variable {σ ρ : Type} {cfg : ServeConfig} {b : Backend} (S : IssuerServer σ ρ cfg b)

/-- The request is an issuance whose body bytes verify under the key registered for `fp`, and the
record is one of its outputs. -/
def Issues (c : Call) (fp : PgpFingerprint) (k : String) : Prop :=
  ∃ req parsed t x, c.request = .issue req ∧ SignedBy cfg req fp ∧ req.body = .ok parsed ∧
    t ∈ parsed.outputs ∧
    S.asset.parseSecret t = .ok x ∧ S.issued.issuer x = fp ∧
    k = S.storeConfig.tokenKey (.ofEnvelope (S.asset.namespaceEnvelope x)) (S.asset.publicHash x)

/-- The request is a replace within the namespace, the record is one of its outputs, and it has
inputs, which are all open before it and spent after it. -/
def Moves (c : Call) (ns : Namespace) (db db' : b.Db) (k : String) : Prop :=
  ∃ req op, c.request = .replace req ∧ S.plan c req db = .ok (some (ns, op)) ∧
    k ∈ outputKeys S.storeConfig ns op ∧
    op.inputs ≠ [] ∧ (b.seals db).Closes (b.seals db') (inputKeys S.storeConfig ns op)

/-- A request is served. -/
def Step (s : ServerState b.Db) (c : Call) (s' : ServerState b.Db) : Prop := s' = (S.serve c s).2

variable {S} {c : Call} {s : ServerState b.Db} {contract : ContractId} {fp : PgpFingerprint} {hash : String}

/-- A key that was written for a parsed token is of no other scope. -/
theorem scope_of_key {ns : Namespace} {h : String} (hplain : KeyStrategy.PlainNamespace ns)
    (hh : ':' ∉ h.toList) {x : σ} (hx : ns = .ofEnvelope (S.asset.namespaceEnvelope x))
    (he : S.storeConfig.tokenKey (.scopedTo contract fp) hash = S.storeConfig.tokenKey ns h) :
    ns = .scopedTo contract fp := by
  have howns : KeyStrategy.namespacedKeys.Owns S.asset.name (.scopedTo contract fp)
      (KeyStrategy.namespacedKeys.tokenKey S.asset.name ns h) := by
    rw [StoreConfig.tokenKey, StoreConfig.tokenKey, show S.storeConfig.keys = .namespacedKeys from S.namespaced] at he
    exact KeyStrategy.owns_iff.2 ⟨hash, he.symm⟩
  obtain ⟨hcontract, hissuer⟩ := KeyStrategy.texts_eq_of_owns hplain hh howns
  rw [hx, S.enveloped] at hcontract hissuer ⊢
  rw [show S.issued.contractId x = contract from congrArg ContractId.mk hcontract.symm,
    show S.issued.issuer x = fp from congrArg PgpFingerprint.mk hissuer.symm]
  rfl

/-- **One request.** Where a record of a scope is changed it is issued by its issuer, moved within
the scope, or spent. -/
theorem changed_record (hoff : cfg.mining.mode = .disabled)
    (h : ¬ b.AgreeAt s.db (S.serve c s).2.db (S.storeConfig.tokenKey (.scopedTo contract fp) hash)) :
    S.Issues c fp (S.storeConfig.tokenKey (.scopedTo contract fp) hash) ∨
      S.Moves c (.scopedTo contract fp) s.db (S.serve c s).2.db
        (S.storeConfig.tokenKey (.scopedTo contract fp) hash) ∨
      (b.seals s.db).Closes (b.seals (S.serve c s).2.db) [S.storeConfig.tokenKey (.scopedTo contract fp) hash] := by
  have hbatch : ∀ {rs}, S.batch c s.nonces = some rs →
      S.storeConfig.tokenKey (.scopedTo contract fp) hash ∈ rs.map S.storeConfig.recordKey →
      S.Issues c fp (S.storeConfig.tokenKey (.scopedTo contract fp) hash) := by
    intro rs hrs hmem
    rcases S.issues hrs with hon | ⟨req, issuer, parsed, ss, hq, hauth, rfl, hparse, hissuer⟩
    · exact absurd hoff hon
    rw [List.map_map] at hmem
    obtain ⟨x, hx, he⟩ := List.mem_map.1 hmem
    rw [Function.comp_apply, StoreConfig.recordKey] at he
    have hkey : S.storeConfig.tokenKey (.scopedTo contract fp) hash =
        S.storeConfig.tokenKey (.ofEnvelope (S.asset.namespaceEnvelope x)) (S.asset.publicHash x) := by
      rw [← he, ← S.asset.record_namespace c.env.now x .replaced, ← S.asset.record_hash c.env.now x .replaced]
      rfl
    obtain ⟨t, ht, htx⟩ := mem_of_parsed hparse hx
    have hscope := scope_of_key (S.asset.parse_plain htx) (S.asset.hash_plain x) rfl hkey
    have hfp : S.issued.issuer x = fp := by
      rw [S.enveloped] at hscope
      exact congrArg PgpFingerprint.mk (congrArg Namespace.issuerText hscope)
    obtain ⟨hbody, hsigned⟩ := authorise_ok hauth
    rw [← hissuer x hx, hfp] at hsigned
    exact ⟨req, parsed, t, x, hq, hsigned, hbody, ht, htx, hfp, hkey⟩
  have heff := S.effect c s
  generalize hq : c.request = q at heff
  generalize (S.serve c s).2.db = db' at heff h ⊢
  cases heff with
  | idle => exact absurd (Backend.agreeAt_refl _ _) h
  | @exchange req ns op hplan =>
    obtain ⟨ins, outs, recs, hp⟩ := S.planned hplan
    obtain ⟨hcloses, hin | ⟨hout, -⟩⟩ := Backend.replace_changed hp.outputs_namespace h
    · refine Or.inr (Or.inr fun i hi => ?_)
      rw [List.mem_singleton.1 hi]
      exact hcloses _ hin
    · obtain ⟨o, ho, he⟩ := List.mem_map.1 hout
      obtain ⟨-, hh, x, hx, -⟩ := hp.outputs_spec o ho
      obtain rfl := scope_of_key hp.plain hh (hp.namespaces x (List.mem_append_right _ hx)).symm he.symm
      refine Or.inr (Or.inl ⟨req, op, hq, hplan, hout, fun hin => ?_, hcloses⟩)
      cases S.has_inputs hplan hin
  | @burn body ns hash' record hplan =>
    obtain ⟨hkey, hcloses⟩ := Backend.burn_changed h
    exact Or.inr (Or.inr (hkey ▸ hcloses))
  | insert hrs => exact Or.inl (hbatch hrs (Backend.insert_changed h))
  | mint state hrs => exact Or.inl (hbatch hrs (Backend.mint_changed h))

/-- In a run from an empty ledger: a request that changes a record of a scope issues it, moves it or
spends it, and every record of a scope that is there was made by an issuance or a move of the
run. -/
def ValueHasIssuer (S : IssuerServer σ ρ cfg b) : Prop :=
  ∀ (nonces : NonceCache) (calls : List Call) (s : ServerState b.Db), Run S.Step ⟨nonces, b.empty⟩ calls s →
    ∀ (contract : ContractId) (fp : PgpFingerprint) (hash k : String),
      k = S.storeConfig.tokenKey (.scopedTo contract fp) hash →
      (∀ c s', S.Step s c s' → ¬ b.AgreeAt s.db s'.db k →
        S.Issues c fp k ∨ S.Moves c (.scopedTo contract fp) s.db s'.db k ∨
          (b.seals s.db).Closes (b.seals s'.db) [k]) ∧
      (b.seals s.db k ≠ none → ∃ before c after s₁ s₂, calls = before ++ c :: after ∧
        Run S.Step ⟨nonces, b.empty⟩ before s₁ ∧
        S.Step s₁ c s₂ ∧ Run S.Step s₂ after s ∧ b.seals s₁.db k = none ∧ b.seals s₂.db k ≠ none ∧
        (S.Issues c fp k ∨ S.Moves c (.scopedTo contract fp) s₁.db s₂.db k))

/-- **Whole runs.** -/
theorem valueHasIssuer (S : IssuerServer σ ρ cfg b) (hoff : cfg.mining.mode = .disabled) : S.ValueHasIssuer := by
  intro nonces calls s hrun contract fp hash k hkey
  subst hkey
  refine ⟨?_, fun hthere => ?_⟩
  · rintro c _ rfl h
    exact changed_record hoff h
  -- the ledger was empty, so some request of the run made the record
  · obtain ⟨before, c, after, s₁, s₂, rfl, hbefore, hs, hafter, hno, hyes⟩ := hrun.exists_turn
      (P := fun s => b.seals s.db (S.storeConfig.tokenKey (.scopedTo contract fp) hash) ≠ none)
      (not_not.2 Backend.seals_empty) hthere
    have hfree := not_not.1 hno
    have hmade := hs ▸ changed_record (c := c) (s := s₁) hoff fun hagree => hyes (by rw [hs, hagree.seals, hfree])
    refine ⟨before, c, after, s₁, s₂, rfl, hbefore, hs, hafter, hfree, hyes, ?_⟩
    rcases hmade with h | h | h
    · exact Or.inl h
    · exact Or.inr h
    · have hopen := (h _ (List.mem_singleton_self _)).1
      rw [hfree] at hopen
      cases hopen

end IssuerServer

/-- **Issued value has an issuer.** For the three issued flavours, every backend and every
configuration without mining, whatever the signature check is: in every run from an empty ledger,
each record ever present in a namespace was put there by an issuance signed for its issuer, or by
a replace that consumed records of the same namespace, and no other request makes one. -/
theorem value_has_issuer (chrono : Codec) (json : HtlcJson) (serviceError : String) (cfg : ServeConfig) (b : Backend)
    (hoff : cfg.mining.mode = .disabled) :
    (issuerSplittable chrono serviceError cfg b (voucher chrono) issuedSecrets fun _ => rfl).ValueHasIssuer ∧
    (issuerSplittable chrono serviceError cfg b (rgbFungible chrono json) issuedSecrets fun _ => rfl).ValueHasIssuer ∧
    (issuerCollectible chrono serviceError cfg b (rgbCollectible chrono json) collectibleSecrets fun _ =>
      rfl).ValueHasIssuer :=
  ⟨IssuerServer.valueHasIssuer _ hoff, IssuerServer.valueHasIssuer _ hoff, IssuerServer.valueHasIssuer _ hoff⟩

namespace Sample

def issuerVoucher : IssuerServer SecretIssued VoucherRecord issuerConfig .redis :=
  issuerSplittable .atEpoch "service error" issuerConfig .redis (voucher .atEpoch) issuedSecrets fun _ => rfl

/-- Move the issued voucher on. -/
def moveCall : Call := ⟨env, .calm, .replace (swap [voucherToken "1" 'a'] [voucherToken "1" 'b'])⟩

def issuedState : ServerState Redis.Db := (issuerVoucher.serve issueCall ⟨.default, .empty⟩).2

def movedState : ServerState Redis.Db := (issuerVoucher.serve moveCall issuedState).2

/-- The key of the voucher with a given secret. -/
def voucherKey (c : Char) : String := issuerVoucher.storeConfig.tokenKey cafeNs (sha256HexOfAscii (hex c))

end Sample

open Sample

/-- A voucher that is issued and one it is exchanged for. -/
theorem voucher_issued_and_moved :
    Run issuerVoucher.Step ⟨.default, .empty⟩ [issueCall, moveCall] movedState ∧
    issuerVoucher.Issues issueCall cafe (voucherKey 'a') ∧
    issuerVoucher.Moves moveCall cafeNs issuedState.db movedState.db (voucherKey 'b') := by
  have hrun : Redis.seals Redis.Db.empty.tokens (voucherKey 'a') = none ∧
      Redis.seals issuedState.db.tokens (voucherKey 'a') = some false ∧
      Redis.seals issuedState.db.tokens (voucherKey 'b') = none ∧
      Redis.seals movedState.db.tokens (voucherKey 'b') = some false := by decide +kernel
  have hall := (value_has_issuer .atEpoch (.ofState ⟨"", 0, "", ""⟩) "service error" issuerConfig .redis rfl).1
  have hchanged : ∀ {db db' : Redis.Db} {k : String}, Redis.seals db.tokens k = none →
    Redis.seals db'.tokens k = some false →
      ¬ Backend.redis.AgreeAt db db' k := fun hk hk' hagree => by
    have hsame := Backend.AgreeAt.seals hagree
    exact nomatch hk'.symm.trans (hsame.trans hk)
  have hopen : ∀ (db db' : Redis.Db) (k : String), Redis.seals db.tokens k = none →
      ¬ (Backend.redis.seals db).Closes (Backend.redis.seals db') [k] := fun db db' k hk h =>
    nomatch (h k (List.mem_singleton_self k)).1.symm.trans hk
  have hpath : Run issuerVoucher.Step ⟨.default, .empty⟩ [issueCall] issuedState := .cons rfl (.nil _)
  refine And.intro (.cons rfl (.cons rfl (.nil _))) (And.intro ?_ ?_)
  · have hissue := hall .default [] _ (.nil _) ⟨"cafe-2026"⟩ cafe (sha256HexOfAscii (hex 'a')) (voucherKey 'a') rfl
    have hnew : ¬ Backend.redis.AgreeAt Redis.Db.empty issuedState.db (voucherKey 'a') := hchanged hrun.1 hrun.2.1
    rcases hissue.1 issueCall issuedState rfl hnew with h | ⟨req, _, hq, -⟩ | h
    · exact h
    · cases hq
    · exact (hopen _ issuedState.db _ hrun.1 h).elim
  · have hmove := hall .default _ _ hpath ⟨"cafe-2026"⟩ cafe (sha256HexOfAscii (hex 'b')) (voucherKey 'b') rfl
    have hnew : ¬ Backend.redis.AgreeAt issuedState.db movedState.db (voucherKey 'b') := hchanged hrun.2.2.1 hrun.2.2.2
    rcases hmove.1 moveCall movedState rfl hnew with ⟨req, _, _, _, hq, -⟩ | h | h
    · cases hq
    · exact h
    · exact (hopen issuedState.db movedState.db (voucherKey 'b') hrun.2.2.1 h).elim

end Webycash
