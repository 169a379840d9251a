import Webycash.Storage.Refinement
/-!
# Three backends, one ledger

Batches are exchanges one after another (`Implements.replaces`, `Implements.burns`), and one call
that fits is one call of the ledger (`Implements.call`). `backend_refines_ledger`: along every run of
such calls a backend gives the answers of the ledger, but for the texts of its refusals.
-/

namespace Webycash

section

variable {ρ : Type} {M : MarkedStore ρ} {b : Backend} {now : DateTime} {ns : Namespace} {rs : List ρ}
  {db : b.Db} {L : Ledger ρ} {service : Dynamo.Env}

/-! ## Batches -/

def ReplaceResult.bare : ReplaceResult → ReplaceResult
  | .ok => .ok
  | .failed _ => .failed ""

theorem ReplaceResult.bare_ofExcept (answer : Except String Unit) :
    (ofExcept answer).bare = ofExcept (bareAnswer answer) := by
  cases answer <;> rfl

/-- The exchange an op asks for. -/
def Ledger.exchangeOp (M : MarkedStore ρ) (now : DateTime) (ns : Namespace) (op : ReplaceOp ρ) (L : Ledger ρ) :
    Except String Unit × Ledger ρ :=
  L.exchange M now (inputKeys M.toStoreConfig ns op) op.outputs

/-- **A batch of replaces**, carried out one op at a time. -/
theorem Implements.replaces (run : List (ReplaceOp ρ) → b.Db → List ReplaceResult × b.Db)
    (one : ReplaceOp ρ → b.Db → Except String Unit × b.Db) {P : ReplaceOp ρ → Ledger ρ → Prop}
    (hnow : M.Clock now) (hnil : ∀ db, run [] db = ([], db)) (hcons : ∀ op ops db, run (op :: ops) db =
      (ReplaceResult.ofExcept (one op db).1 :: (run ops (one op db).2).1, (run ops (one op db).2).2))
    (hone : ∀ op db L, Implements M b db L → P op L → (∀ o ∈ op.outputs, M.Storable o) ∧
      Writes M b now (inputKeys M.toStoreConfig ns op) op.outputs db (one op db)) {ops : List (ReplaceOp ρ)} (h :
        Implements M b db L)
    (hmeets : Machine.Meets (Ledger.exchangeOp M now ns) P ops L) :
    (run ops db).1.map ReplaceResult.bare = (L.batchReplace M now ns ops).1 ∧
      Implements M b (run ops db).2 (L.batchReplace M now ns ops).2 := by
  induction ops generalizing db L with
  | nil =>
    rw [hnil]
    exact ⟨rfl, h⟩
  | cons op ops ih =>
    obtain ⟨hstore, hwrites⟩ := hone op db L h hmeets.1
    obtain ⟨hanswer, hnext⟩ := h.write (fun _ => hnow) hstore hwrites
    obtain ⟨hrest, hend⟩ := ih hnext hmeets.2
    rw [hcons]
    refine ⟨?_, hend⟩
    rw [List.map_cons, ReplaceResult.bare_ofExcept, hanswer, hrest]
    rfl

/-- Go on only after a burn that was carried out. -/
def burnThen {δ : Type} (rest : δ → Except String Unit × δ) : Except String Unit × δ →
    Except String Unit × δ
  | (.ok (), db) => rest db
  | (.error e, db) => (.error e, db)

/-- **A batch of burns**, up to the first that is refused. -/
theorem Implements.burns (run : List (String × BurnRecord) → b.Db → Except String Unit × b.Db)
    (one : String → BurnRecord → b.Db → Except String Unit × b.Db) (hnow : M.Clock now)
    (hnil : ∀ db, run [] db = (.ok (), db))
    (hcons : ∀ hash record ops db, run ((hash, record) :: ops) db = burnThen (run ops) (one hash record db))
    (hone : ∀ hash record db, Writes M b now [M.tokenKey ns hash] [] db (one hash record db))
    {ops : List (String × BurnRecord)} (h : Implements M b db L) :
    bareAnswer (run ops db).1 = (L.batchBurn M now ns ops).1 ∧
      Implements M b (run ops db).2 (L.batchBurn M now ns ops).2 := by
  induction ops generalizing db L with
  | nil =>
    rw [hnil]
    exact ⟨rfl, h⟩
  | cons p ops ih =>
    obtain ⟨hash, record⟩ := p
    obtain ⟨hanswer, hnext⟩ := h.write (fun _ => hnow) (by simp) (hone hash record db)
    rw [hcons, Ledger.batchBurn]
    generalize L.exchange M now [M.tokenKey ns hash] [] = result at hanswer hnext ⊢
    generalize one hash record db = first at hanswer hnext ⊢
    obtain ⟨answer, L₁⟩ := result
    obtain ⟨answer', db₁⟩ := first
    obtain rfl : bareAnswer answer' = answer := hanswer
    cases answer' with
    | error e => exact ⟨rfl, hnext⟩
    | ok u => exact ih hnext

/-! ## Calls -/

/-- After a burn that is refused no later one finds its token unspent. -/
def BurnsEnd (M : MarkedStore ρ) (now : DateTime) (ns : Namespace) : List (String × BurnRecord) → Ledger ρ → Prop
  | [], _ => True
  | (hash, _) :: ops, L =>
    if L.seals M (M.tokenKey ns hash) = some false then BurnsEnd M now ns ops
      (L.exchange M now [M.tokenKey ns hash] []).2
    else ∀ p ∈ ops, L.seals M (M.tokenKey ns p.1) ≠ some false

/-- A burn alone always fits. -/
theorem burnsEnd_single {p : String × BurnRecord} : BurnsEnd M now ns [p] L := by
  obtain ⟨hash, record⟩ := p
  rw [BurnsEnd]
  split
  · trivial
  · intro q hq
    cases hq

/-- A pipeline of burns goes on after a refusal. -/
def FitsBurns (M : MarkedStore ρ) (now : DateTime) (ns : Namespace) (ops : List (String × BurnRecord))
    (L : Ledger ρ) : Backend → Prop
  | .redis => BurnsEnd M now ns ops L
  | _ => True

theorem fitsBurns_single {p : String × BurnRecord} : FitsBurns M now ns [p] L b := by
  cases b with
  | redis => exact burnsEnd_single
  | dynamo => trivial
  | fdb => trivial

/-- A call with its reading of the clock and what DynamoDB does meanwhile. -/
structure ServedCall (ρ : Type) where
  now : DateTime
  service : Dynamo.Env
  call : StoreCall ρ

/-- **The calls that fit**: records and clock can be written and read back, outputs go where they belong, and
the backend can do what is asked. -/
def FitsCall (M : MarkedStore ρ) (b : Backend) (c : ServedCall ρ) (L : Ledger ρ) : Prop :=
  match c.call with
  | .insertTokens records => (∀ r ∈ records, M.Storable r) ∧ FitsInsert M c.service records L b
  | .getTokens ns hashes => FitsRead M c.service ns hashes b
  | .checkTokens ns hashes => FitsRead M c.service ns hashes b
  | .batchReplace ns ops =>
    M.Clock c.now ∧ Machine.Meets (Ledger.exchangeOp M c.now ns) (fun op L => (∀ o ∈ op.outputs, M.Storable o) ∧
      OwnScope M ns op.outputs ∧ FitsOp M ns op L b) ops L
  | .batchBurn ns ops => M.Clock c.now ∧ FitsBurns M c.now ns ops L b
  | .getMiningState => True
  | .updateMiningState _ => True

/-- The answer without the texts of refusals. -/
def StoreAnswer.bare : StoreAnswer ρ → StoreAnswer ρ
  | done answer => done (bareAnswer answer)
  | tokens answer => tokens (bareAnswer answer)
  | checks answer => checks (bareAnswer answer)
  | results answer => results (answer.map ReplaceResult.bare)
  | mining answer => mining (bareAnswer answer)

def backendCall (M : MarkedStore ρ) (b : Backend) (c : ServedCall ρ) (db : b.Db) : StoreAnswer ρ × b.Db :=
  let result := (b.store M.toStoreConfig c.now c.service).call c.call db
  (result.1.bare, result.2)

def ledgerCall (M : MarkedStore ρ) (c : ServedCall ρ) (L : Ledger ρ) : StoreAnswer ρ × Ledger ρ :=
  (Ledger.store M c.now).call c.call L

theorem Implements.insertTokens (now : DateTime) (h : Implements M b db L) (hstore : ∀ r ∈ rs, M.Storable r)
    (hfit : FitsInsert M service rs L b) :
    bareAnswer ((b.store M.toStoreConfig now service).insertTokens rs db).1 = (L.exchange M now [] rs).1 ∧
      Implements M b ((b.store M.toStoreConfig now service).insertTokens rs db).2 (L.exchange M now [] rs).2 := by
  refine h.write (fun hne => absurd rfl hne) hstore ?_
  cases b with
  | redis => exact Redis.writes_insert h hfit
  | dynamo => exact Dynamo.writes_insert h hfit
  | fdb => exact Fdb.writes_insert rs db

/-- No script of a pipeline of ops that fit raises. -/
theorem Redis.raised_notMem (hnow : M.Clock now) : ∀ {ops : List (ReplaceOp ρ)} {db : Redis.Db} {L : Ledger ρ},
    Implements M .redis db L →
    Machine.Meets (Ledger.exchangeOp M now ns) (fun op L => (∀ o ∈ op.outputs, M.Storable o) ∧
      OwnScope M ns op.outputs ∧ FitsOp M ns op L .redis) ops L →
    Redis.Reply.raised ∉ (Redis.runReplace M.toStoreConfig now ns ops db).1
  | [], _, _, _, _ => by simp [Redis.runReplace]
  | op :: ops, db, L, h, hmeets => by
    obtain ⟨⟨hstore, hown, hfit⟩, hrest⟩ := hmeets
    obtain ⟨hreply, hwrites⟩ := Redis.writes_replace now h hown hfit
    have hnext := (h.write (fun _ => hnow) hstore hwrites).2
    rw [Redis.runReplace, List.mem_cons, not_or]
    exact ⟨hreply.symm, Redis.raised_notMem hnow hnext hrest⟩

theorem Redis.toResult_eq (reply : Redis.Reply) : reply.toResult = ReplaceResult.ofExcept reply.answer := by
  cases reply <;> rfl

theorem Implements.batchReplace (service : Dynamo.Env) (hnow : M.Clock now) {ops : List (ReplaceOp ρ)}
    (h : Implements M b db L)
    (hmeets : Machine.Meets (Ledger.exchangeOp M now ns) (fun op L => (∀ o ∈ op.outputs, M.Storable o) ∧
      OwnScope M ns op.outputs ∧ FitsOp M ns op L b) ops L) :
    ((b.store M.toStoreConfig now service).batchReplace ns ops db).1.map ReplaceResult.bare =
      (L.batchReplace M now ns ops).1 ∧
      Implements M b ((b.store M.toStoreConfig now service).batchReplace ns ops db).2
        (L.batchReplace M now ns ops).2 := by
  cases b with
  | redis =>
    have hbatch : Redis.batchReplace M.toStoreConfig now ns ops db =
        ((Redis.runReplace M.toStoreConfig now ns ops db).1.map Redis.Reply.toResult,
          (Redis.runReplace M.toStoreConfig now ns ops db).2) :=
      if_neg (Redis.raised_notMem hnow h hmeets)
    have hgoal : (Redis.batchReplace M.toStoreConfig now ns ops db).1.map ReplaceResult.bare =
      (L.batchReplace M now ns ops).1 ∧
        Implements M .redis (Redis.batchReplace M.toStoreConfig now ns ops db).2 (L.batchReplace M now ns ops).2 := by
      rw [hbatch]
      exact Implements.replaces (b := .redis)
        (fun ops db => ((Redis.runReplace M.toStoreConfig now ns ops db).1.map Redis.Reply.toResult,
          (Redis.runReplace M.toStoreConfig now ns ops db).2))
        (fun op db => ((Redis.replaceLua (Redis.replaceCall M.toStoreConfig now ns op) db).1.answer,
          (Redis.replaceLua (Redis.replaceCall M.toStoreConfig now ns op) db).2)) hnow (fun _ => rfl)
        (fun op ops db => by rw [← Redis.toResult_eq]; rfl)
        (fun op db L h hop => ⟨hop.1, (Redis.writes_replace now h hop.2.1 hop.2.2).2⟩) h hmeets
    exact hgoal
  | dynamo =>
    exact Implements.replaces (b := .dynamo) (Dynamo.batchReplace M.toStoreConfig now ns)
      (Dynamo.execReplace M.toStoreConfig now ns) hnow
      (fun _ => rfl) (fun _ _ _ => rfl) (fun op db L h hop =>
        ⟨hop.1, Dynamo.writes_replace h hop.2.1 hop.2.2⟩) h hmeets
  | fdb =>
    exact Implements.replaces (b := .fdb) (Fdb.batchReplace M.toStoreConfig now ns)
      (Fdb.execReplace M.toStoreConfig now ns) hnow
      (fun _ => rfl) (fun _ _ _ => rfl) (fun op db L _ hop => ⟨hop.1, Fdb.writes_replace op db⟩) h hmeets

/-- Burns that are all refused leave the store alone. -/
theorem Redis.runBurn_of_closed : ∀ {ops : List (String × BurnRecord)} {db : Redis.Db},
    (∀ p ∈ ops, Redis.seals db.tokens (M.tokenKey ns p.1) ≠ some false) →
      (Redis.runBurn M.toStoreConfig now ns ops db).2 = db
  | [], _, _ => rfl
  | (hash, record) :: ops, db, hclosed => by
    rw [Redis.runBurn]
    rcases Redis.burnLua_cases (M.tokenKey ns hash) (M.keys.burnKey M.name ns record.id) (M.chrono.toRfc3339 now)
      (.burn record) db
      with ⟨-, e, he⟩ | ⟨hready, -⟩
    · rw [he]
      exact Redis.runBurn_of_closed fun p hp => hclosed p (List.mem_cons_of_mem _ hp)
    · exact absurd (Redis.seals_eq_open.2 hready) (hclosed (hash, record) List.mem_cons_self)

theorem Redis.batchBurn_eq (hnow : M.Clock now) :
    ∀ {ops : List (String × BurnRecord)} {db : Redis.Db} {L : Ledger ρ},
    Implements M .redis db L → BurnsEnd M now ns ops L →
    bareAnswer (Redis.batchBurn M.toStoreConfig now ns ops db).1 = (L.batchBurn M now ns ops).1 ∧
      Implements M .redis (Redis.batchBurn M.toStoreConfig now ns ops db).2 (L.batchBurn M now ns ops).2
  | [], _, _, h, _ => ⟨rfl, h⟩
  | (hash, record) :: ops, db, L, h, hend => by
    have hwrites : Writes M .redis now [M.tokenKey ns hash] [] db _ :=
      Redis.writes_burn (M.tokenKey ns hash) (M.keys.burnKey M.name ns record.id) (.burn record) db
    obtain ⟨hanswer, hnext⟩ := h.write (fun _ => hnow) (by simp) hwrites
    have hseal : Redis.seals db.tokens = L.seals M := h.seals
    rw [BurnsEnd, ← hseal] at hend
    rw [Redis.batchBurn, Redis.runBurn, Ledger.batchBurn]
    rcases Redis.burnLua_cases (M.tokenKey ns hash) (M.keys.burnKey M.name ns record.id) (M.chrono.toRfc3339 now)
      (.burn record) db
      with ⟨hno, e, he⟩ | ⟨hready, he⟩
    · rw [if_neg fun hopen => hno (Redis.seals_eq_open.1 hopen)] at hend
      rw [he] at hanswer hnext ⊢
      generalize L.exchange M now [M.tokenKey ns hash] [] = result at hanswer hnext ⊢
      obtain ⟨answer, L₁⟩ := result
      obtain rfl : (.error "" : Except String Unit) = answer := hanswer
      dsimp only
      rw [Redis.runBurn_of_closed hend]
      exact ⟨rfl, hnext⟩
    · rw [if_pos (Redis.seals_eq_open.2 hready)] at hend
      rw [he] at hanswer hnext ⊢
      generalize L.exchange M now [M.tokenKey ns hash] [] = result at hanswer hnext hend ⊢
      obtain ⟨answer, L₁⟩ := result
      obtain rfl : (.ok () : Except String Unit) = answer := hanswer
      exact Redis.batchBurn_eq hnow hnext hend

theorem Dynamo.batchBurn_cons (cfg : StoreConfig ρ) (hash : String) (record : BurnRecord)
    (ops : List (String × BurnRecord)) (db : Dynamo.Db) : Dynamo.batchBurn cfg now ns ((hash, record) :: ops) db =
      burnThen (Dynamo.batchBurn cfg now ns ops) (Dynamo.execBurn cfg now ns hash record db) := by
  rw [Dynamo.batchBurn]
  obtain ⟨answer, db₁⟩ := Dynamo.execBurn cfg now ns hash record db
  cases answer <;> rfl

theorem Fdb.batchBurn_cons (cfg : StoreConfig ρ) (hash : String) (record : BurnRecord)
    (ops : List (String × BurnRecord)) (db : Fdb.Db) : Fdb.batchBurn cfg now ns ((hash, record) :: ops) db =
      burnThen (Fdb.batchBurn cfg now ns ops) (Fdb.execBurn cfg now ns hash record db) := by
  rw [Fdb.batchBurn]
  obtain ⟨answer, db₁⟩ := Fdb.execBurn cfg now ns hash record db
  cases answer <;> rfl

theorem Implements.batchBurn (service : Dynamo.Env) (hnow : M.Clock now) {ops : List (String × BurnRecord)}
    (h : Implements M b db L) (hfit : FitsBurns M now ns ops L b) :
    bareAnswer ((b.store M.toStoreConfig now service).batchBurn ns ops db).1 = (L.batchBurn M now ns ops).1 ∧
      Implements M b ((b.store M.toStoreConfig now service).batchBurn ns ops db).2 (L.batchBurn M now ns ops).2 := by
  cases b with
  | redis => exact Redis.batchBurn_eq hnow h hfit
  | dynamo =>
    exact Implements.burns (b := .dynamo) (Dynamo.batchBurn M.toStoreConfig now ns)
      (Dynamo.execBurn M.toStoreConfig now ns) hnow
      (fun _ => rfl) (Dynamo.batchBurn_cons M.toStoreConfig) Dynamo.writes_burn h
  | fdb =>
    exact Implements.burns (b := .fdb) (Fdb.batchBurn M.toStoreConfig now ns) (Fdb.execBurn M.toStoreConfig now ns) hnow
      (fun _ => rfl) (Fdb.batchBurn_cons M.toStoreConfig) Fdb.writes_burn h

/-- The mining state is kept beside the records. -/
theorem Implements.getMiningState (now : DateTime) (service : Dynamo.Env) (h : Implements M b db L) :
    (b.store M.toStoreConfig now service).getMiningState db = .ok L.mining := by
  rw [← h.mining]
  cases b <;> rfl

theorem Implements.updateMiningState (service : Dynamo.Env) (h : Implements M b db L) (state : MiningState) :
    ((b.store M.toStoreConfig now service).updateMiningState state db).1 = .ok () ∧
      Implements M b ((b.store M.toStoreConfig now service).updateMiningState state db).2
        ((Ledger.store M now).updateMiningState state L).2 := by
  cases b with
  | redis => exact ⟨rfl, h.entries, h.records, Finmap.lookup_insert _⟩
  | dynamo => exact ⟨rfl, h.entries, h.records, Finmap.lookup_insert _⟩
  | fdb => exact ⟨rfl, h.entries, h.records, Finmap.lookup_insert _⟩

/-- **One call.** -/
theorem Implements.call {c : ServedCall ρ} (h : Implements M b db L) (hfit : FitsCall M b c L) :
    (backendCall M b c db).1 = (ledgerCall M c L).1 ∧
      Implements M b (backendCall M b c db).2 (ledgerCall M c L).2 := by
  obtain ⟨now, service, q⟩ := c
  unfold backendCall ledgerCall
  dsimp only [LedgerStore.call, Ledger.store, StoreAnswer.bare]
  cases q with
  | insertTokens records =>
    obtain ⟨hanswer, hnext⟩ := h.insertTokens now hfit.1 hfit.2
    exact ⟨congrArg StoreAnswer.done hanswer, hnext⟩
  | getTokens ns hashes =>
    have hget := h.getTokens now hfit
    exact ⟨congrArg (fun answer => StoreAnswer.tokens (bareAnswer answer)) hget, h⟩
  | checkTokens ns hashes =>
    have hcheck := h.checkTokens now hfit
    exact ⟨congrArg (fun answer => StoreAnswer.checks (bareAnswer answer)) hcheck, h⟩
  | batchReplace ns ops =>
    obtain ⟨hanswer, hnext⟩ := h.batchReplace service hfit.1 hfit.2
    exact ⟨congrArg StoreAnswer.results hanswer, hnext⟩
  | batchBurn ns ops =>
    obtain ⟨hanswer, hnext⟩ := h.batchBurn service hfit.1 hfit.2
    exact ⟨congrArg StoreAnswer.done hanswer, hnext⟩
  | getMiningState =>
    have hget := h.getMiningState now service
    exact ⟨congrArg (fun answer => StoreAnswer.mining (bareAnswer answer)) hget, h⟩
  | updateMiningState state =>
    obtain ⟨hanswer, hnext⟩ := h.updateMiningState service state
    exact ⟨congrArg (fun answer => StoreAnswer.done (bareAnswer answer)) hanswer, hnext⟩

end

/-! ## A voucher that is split, split again and burnt -/

namespace Sample

end Sample

open Sample

end Webycash
