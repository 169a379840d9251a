import Webycash.Lib.Run
import Webycash.Server.Htlc
import Webycash.Server.Route
import Webycash.Storage.Marks
/-!
# How locked records become spent

The hook runs the predicate of every locked input of a replace; `burn` and `burn_collectible`
never look at the lock (lib.rs:1325, lib.rs:1193). `locks_open_by_predicate` is about whole runs
of either RGB server on any backend: as long as no burn names an unspent locked record, a
locked record is spent by a replace that satisfied its predicate, and by nothing else.
-/

namespace Webycash

/-- A server of a flavour with locks: its replace hook runs the predicates. -/
structure LockServer (σ ρ : Type) (json : HtlcJson) (b : Backend) extends LedgerServer σ ρ b where
  locks : LockCodec asset.codec json
  hook : ∀ body recs outs now, asset.validateReplaceRequest body recs outs now =
    validateHtlc locks.htlcState body recs now

/-- The RGB20 server. -/
def rgb20 (chrono : Codec) (json : HtlcJson) (keys : KeyStrategy) (serviceError : String)
    (cfg : ServeConfig) (b : Backend) :
    LockServer SecretIssued RgbFungibleRecord json b where
  toLedgerServer := issuedServer keys chrono serviceError cfg b (rgbFungible chrono json) issuedSecrets
  locks := rgbFungibleLocks chrono json
  hook _ _ _ _ := rfl

/-- The RGB21 server. -/
def rgb21 (chrono : Codec) (json : HtlcJson) (keys : KeyStrategy) (serviceError : String)
    (cfg : ServeConfig) (b : Backend) :
    LockServer SecretCollectible RgbCollectibleRecord json b where
  toLedgerServer := collectibleServer keys chrono serviceError cfg b (rgbCollectible chrono json) collectibleSecrets
    (rgbCollectible_enveloped chrono json)
  locks := rgbCollectibleLocks chrono json
  hook _ _ _ _ := rfl

namespace LockServer

variable {σ ρ : Type} {json : HtlcJson} {b : Backend} (S : LockServer σ ρ json b)

/-- The request is a replace, an input of its plan is the key, and the witness the hook picks for
that input satisfies the lock's predicate at the server's clock. -/
def Opens (c : Call) (db : b.Db) (k : String) (state : HtlcState) : Prop :=
  ∃ req ns op j h witnesses entry path, c.request = .replace req ∧ S.plan c req db = .ok (some (ns, op)) ∧
    op.inputs[j]? = some h ∧ S.storeConfig.tokenKey ns h = k ∧ req.hook.witnesses = .ok witnesses ∧
    witnesses.find? (fun w => w.inputIndex = j) = some entry ∧
    executePredicate state entry.witness c.env.serverNowUnix = .ok path

/-- The request is a burn of a record that is unspent and locked. -/
def BurnsLocked (c : Call) (db : b.Db) : Prop :=
  ∃ body ns hash record state, c.request = .burn body ∧ planBurn S.asset S.burnAmount c.env body =
    .ok (ns, hash, record) ∧
    b.marks json db (S.storeConfig.tokenKey ns hash) = some (false, some state)

/-- A request is served, and does not burn a locked record. -/
def Step (s : ServerState b.Db) (c : Call) (s' : ServerState b.Db) : Prop :=
  s' = (S.serve c s).2 ∧ ¬ S.BurnsLocked c s.db

variable {S} {c : Call} {s s' : ServerState b.Db} {k : String} {state : HtlcState}

/-- An input that was read is under its key. -/
theorem opens_of_plan {req : ReplaceRequest} {ns : Namespace} {op : ReplaceOp ρ} {db : b.Db}
    (hq : c.request = .replace req)
    (hplan : S.plan c req db = .ok (some (ns, op))) (hk : k ∈ inputKeys S.storeConfig ns op)
    (hm : b.marks json db k = some (false, some state)) : S.Opens c db k state := by
  obtain ⟨h, hmem, rfl⟩ := List.mem_map.1 hk
  obtain ⟨j, hj, rfl⟩ := List.mem_iff_getElem.1 hmem
  obtain ⟨ins, outs, recs, hp⟩ := S.planned hplan
  obtain ⟨found, hget, hreads⟩ := hp.reads
  obtain ⟨hlen, hmarks⟩ := Backend.getTokens_marks S.locks hget
  have hfound : found[j]? = some found[j] := List.getElem?_eq_getElem (hlen ▸ hj)
  obtain ⟨r, hr, -⟩ := hreads j hj _ hfound
  have hread := hmarks j op.inputs[j] r (List.getElem?_eq_getElem hj) (hr ▸ hfound)
  have hlock : S.locks.htlcState r = some state := by
    have := hread.symm.trans hm
    simpa using (congrArg Prod.snd (Option.some.inj this))
  obtain ⟨witnesses, entry, hw, hf, path, hpath⟩ :=
    hp.opened (S.hook _ _ _ _ ▸ hp.validated) ⟨found, r, hget, hj, hr ▸ hfound, hlock⟩
  exact ⟨req, ns, op, j, _, witnesses, entry, path, hq, hplan, List.getElem?_eq_getElem hj, rfl, hw, hf, hpath⟩

/-- **One request.** A record that is spent afterwards was spent before, or was unspent under the
same lock, and then the request opened that lock. -/
theorem Step.marks {lock : Option HtlcState} (h : S.Step s c s') (hm : b.marks json s'.db k = some (true, lock)) :
    b.marks json s.db k = some (true, lock) ∨
      (b.marks json s.db k = some (false, lock) ∧ ∀ state, lock = some state → S.Opens c s.db k state) := by
  obtain ⟨rfl, hburn⟩ := h
  have heff := S.effect c s
  generalize hq : c.request = q at heff
  generalize (S.serve c s).2.db = db' at heff hm
  cases heff with
  | idle => exact Or.inl hm
  | @exchange req ns op hplan =>
    obtain ⟨ins, outs, recs, hp⟩ := S.planned hplan
    rcases Backend.marksOnly_replace s.db (fun o ho => (hp.outputs_spec o ho).1) k _ hm with h | ⟨hk, h⟩
    · exact Or.inl h
    · exact Or.inr ⟨h, fun state hl => opens_of_plan hq hplan hk (hl ▸ h)⟩
  | @burn body ns hash record hplan =>
    rcases Backend.marksOnly_burn s.db hash record k _ hm with h | ⟨hk, h⟩
    · exact Or.inl h
    · obtain rfl : k = S.storeConfig.tokenKey ns hash := List.mem_singleton.1 hk
      exact Or.inr ⟨h, fun state hl => absurd ⟨body, ns, hash, record, state, hq, hplan, hl ▸ h⟩ hburn⟩
  | insert hbatch =>
    rcases Backend.marksOnly_insert s.db (LedgerServer.batch_unspent hbatch) k _ hm with h | ⟨hk, -⟩
    · exact Or.inl h
    · cases hk
  | mint m hbatch =>
    rw [Backend.marks_updateMiningState] at hm
    rcases Backend.marksOnly_insert s.db (LedgerServer.batch_unspent hbatch) k _ hm with h | ⟨hk, -⟩
    · exact Or.inl h
    · cases hk

/-- What locks promise of the runs of a server from an empty ledger. The first part is about
every request of a run, the second about every record that ends up spent under a lock. -/
def LocksHold (S : LockServer σ ρ json b) : Prop :=
  ∀ (nonces : NonceCache) (calls : List Call) (s : ServerState b.Db), Run S.Step ⟨nonces, b.empty⟩ calls s →
    (∀ c s', S.Step s c s' → ∀ k state lock, b.marks json s.db k = some (false, some state) →
      b.marks json s'.db k = some (true, lock) → S.Opens c s.db k state) ∧
    (∀ k state, b.marks json s.db k = some (true, some state) → ∃ before c after s₁ s₂,
      calls = before ++ c :: after ∧
      Run S.Step ⟨nonces, b.empty⟩ before s₁ ∧ S.Step s₁ c s₂ ∧ Run S.Step s₂ after s ∧
      b.marks json s₁.db k = some (false, some state) ∧ S.Opens c s₁.db k state)

/-- **Whole runs.** -/
theorem locksHold (S : LockServer σ ρ json b) : S.LocksHold := by
  intro nonces calls s hrun
  refine ⟨fun c s' hs k state lock hopen hspent => ?_, ?_⟩
  · rcases hs.marks hspent with h | ⟨h, hopens⟩
    · rw [hopen] at h
      cases h
    · rw [hopen] at h
      exact hopens state (congrArg Prod.snd (Option.some.inj h)).symm
  -- an empty ledger holds no spent record, so some request of the run spent it
  · intro k state hm
    have hempty : b.marks json b.empty k ≠ some (true, some state) := by rw [Backend.marks_empty]; nofun
    obtain ⟨before, c, after, s₁, s₂, rfl, hbefore, hstep, hafter, hno, hspent⟩ :=
      hrun.exists_turn (P := fun s => b.marks json s.db k = some (true, some state)) hempty hm
    rcases hstep.marks hspent with h | ⟨h, hopens⟩
    · exact absurd h hno
    · exact ⟨before, c, after, s₁, s₂, rfl, hbefore, hstep, hafter, h, hopens state rfl⟩

end LockServer

/-- **Locks open by their predicate.** For both RGB servers, all three backends and every
configuration: in every run in which no burn names an unspent locked record, whenever a locked
record becomes spent the request was a replace whose witness satisfied the predicate at the
server's clock, and every record found spent under a lock was spent that way. -/
theorem locks_open_by_predicate (chrono : Codec) (json : HtlcJson) (keys : KeyStrategy) (serviceError : String)
    (cfg : ServeConfig) (b : Backend) :
    (rgb20 chrono json keys serviceError cfg b).LocksHold ∧ (rgb21 chrono json keys serviceError cfg b).LocksHold :=
  ⟨LockServer.locksHold _, LockServer.locksHold _⟩

/-! ## A lock that is burned -/

namespace Sample

def rgbServer : LockServer SecretIssued RgbFungibleRecord (.ofState lockState) .redis :=
  rgb20 .atEpoch (.ofState lockState) .namespacedKeys "service error" (serveConfig (rgbToken 'a')) .redis

/-- Mine a token, move it under the lock. -/
def mineCall : Call := ⟨env, .calm, .miningReport (.ok ⟨preimageOf (rgbToken 'a'), some true⟩)⟩

def lockCall : Call :=
  ⟨env, .calm, .replace ⟨.ok ⟨[rgbToken 'a'], [rgbToken 'b'], some true⟩,
    ⟨.ok [], .ok [⟨0, lockRequest⟩]⟩⟩⟩

def burnCall : Call := ⟨env, .calm, .burn (.ok ⟨rgbToken 'b', some true⟩)⟩

def claimCall : Call := ⟨env, .calm, .replace (claimTo 'c')⟩

def afterMine : ServerState Redis.Db := (rgbServer.serve mineCall ⟨.default, .empty⟩).2

def afterLock : ServerState Redis.Db := (rgbServer.serve lockCall afterMine).2

/-- The key of the locked record. -/
def lockedKey : String := rgbServer.storeConfig.tokenKey (.scopedTo contract issuer) (sha256HexOfAscii (hex 'b'))

end Sample

open Sample

/-- Mine, lock, burn: the locked record is spent before its deadline and without a preimage. -/
theorem burn_ignores_lock :
    Backend.redis.marks (.ofState lockState) afterLock.db lockedKey = some (false, some lockState) ∧
    (rgbServer.serve burnCall afterLock).1 = success ∧
    Backend.redis.marks (.ofState lockState) (rgbServer.serve burnCall afterLock).2.db lockedKey =
      some (true, some lockState) ∧
    ¬ rgbServer.Opens burnCall afterLock.db lockedKey lockState := by
  have hrun : Redis.marks (.ofState lockState) afterLock.db.tokens lockedKey = some (false, some lockState) ∧
      (rgbServer.serve burnCall afterLock).1 = success ∧
      Redis.marks (.ofState lockState) (rgbServer.serve burnCall afterLock).2.db.tokens lockedKey =
        some (true, some lockState) := by decide +kernel
  refine And.intro hrun.1 (And.intro hrun.2.1 (And.intro hrun.2.2 ?_))
  rintro ⟨req, _, _, _, _, _, _, _, hq, -⟩
  cases hq

/-- The same lock opened by its claim owner. -/
theorem claim_opens_lock :
    Run rgbServer.Step ⟨.default, .empty⟩ [mineCall, lockCall] afterLock ∧
    Redis.marks (.ofState lockState) (rgbServer.serve claimCall afterLock).2.db.tokens lockedKey =
      some (true, some lockState) ∧
    rgbServer.Opens claimCall afterLock.db lockedKey lockState := by
  have hnot : ∀ (c : Call) (db : Redis.Db), (∀ body, c.request ≠ .burn body) →
      ¬ rgbServer.BurnsLocked c db := by
    rintro c db h ⟨body, _, _, _, _, hq, -⟩
    exact h body hq
  have hstep : ∀ (c : Call) (s : ServerState Redis.Db), (∀ body, c.request ≠ .burn body) →
      rgbServer.Step s c (rgbServer.serve c s).2 := fun c s h => ⟨rfl, hnot c s.db h⟩
  have hpath : Run rgbServer.Step ⟨.default, .empty⟩ [mineCall, lockCall] afterLock :=
    .cons (hstep mineCall _ nofun) (.cons (hstep lockCall afterMine nofun) (.nil _))
  have hmarks : Redis.marks (.ofState lockState) afterLock.db.tokens lockedKey = some (false, some lockState) ∧
      Redis.marks (.ofState lockState) (rgbServer.serve claimCall afterLock).2.db.tokens lockedKey =
        some (true, some lockState) := by decide +kernel
  have hopens := ((locks_open_by_predicate .atEpoch (.ofState lockState) .namespacedKeys "service error"
    (serveConfig (rgbToken 'a')) .redis).1 .default _ afterLock hpath).1 claimCall _ (hstep claimCall afterLock
      nofun) lockedKey
    lockState (some lockState) hmarks.1 hmarks.2
  exact And.intro hpath (And.intro hmarks.2 hopens)

end Webycash
