import Webycash.Legacy.Miner
import Webycash.Lib.Pipeline
/-!
# `batch_replace` of the monolithic server on Redis (`server/src/db/redis.rs`)

The script is that of the newer backend but for the output arguments: three a token, in a fixed
order, instead of name and value pairs. The call always passes three, so no script is stopped by an
error of its own (`replaceLua_not_raised`), and a pipeline that gets through is one execution of
`performReplace` an op, in order (`batchReplace_inOrder`).

| here | there |
| --- | --- |
| `key`, `replaceLua`           | redis.rs:101, redis.rs:25 |
| `replaceArgs`, `batchReplace` | redis.rs:219 |
-/

namespace Webycash.Legacy.RedisStore

open Redis (Reply Tokens hgetall checkInputs markInputs)
open Prog (ret callEach)

def key (hash : String) : String := "token:" ++ hash

/-! ## The script -/

/-- `KEYS`, and `ARGV` with the outputs' part split off. -/
structure ReplaceArgs where
  ik : List String
  ok : List String
  now : String
  auditKey : String
  auditRow : AuditRow
  argv : List String

/-- Third loop, at output `i`: amount, creation time and origin stand at `3 * i`. An argument that is
missing is the error of `redis.call`. -/
def insertOutputs (argv : List String) : Nat → List String → Tokens → Reply × Tokens
  | _, [], t => (.ok, t)
  | i, k :: ks, t =>
    if k ∈ t then (.err ("output token already exists: " ++ k), t)
    else
      match argv[3 * i]?, argv[3 * i + 1]?, argv[3 * i + 2]? with
      | some amountWats, some createdAt, some origin =>
        insertOutputs argv (i + 1) ks (t.insert k (FMap.putAll (hgetall t k)
          [("amount_wats", amountWats), ("spent", "0"), ("created_at", createdAt), ("origin", origin)]))
      | _, _, _ => (.raised, t)

def replaceLua (a : ReplaceArgs) (db : Redis.Db) : Reply × Redis.Db :=
  match checkInputs db.tokens a.ik with
  | some e => (.err e, db)
  | none =>
    match insertOutputs a.argv 0 a.ok (markInputs a.now db.tokens a.ik) with
    | (.ok, t) => (.ok, { db with tokens := t, audit := db.audit.insert a.auditKey a.auditRow })
    | (reply, t) => (reply, { db with tokens := t })

/-! ## The store method -/

section

variable (chrono : Codec) (pipelineError : String) (now : DateTime)

/-- What one output adds to `ARGV`. -/
def outputArgs (o : TokenRecord) : List String := [o.amountWats.toText, chrono.toRfc3339 o.createdAt, o.origin.display]

/-- The `EVALSHA` command for one op. -/
def replaceArgs (op : ReplaceOp TokenRecord) : ReplaceArgs where
  ik := op.inputs.map key
  ok := op.outputs.map fun o => key o.publicHash
  now := chrono.toRfc3339 now
  auditKey := "audit:replace:" ++ op.record.id
  auditRow := .replacement op.record
  argv := op.outputs.flatMap (outputArgs chrono)

/-- One script an op; an error among the answers makes every result that error. -/
def batchReplace (ops : List (ReplaceOp TokenRecord)) : Prog (fun _ : ReplaceArgs => Reply) (List ReplaceResult) :=
  (callEach (ops.map (replaceArgs chrono now))).bind fun replies =>
    ret (if .raised ∈ replies then ops.map fun _ => .failed pipelineError else replies.map Reply.toResult)

end

/-! ## One script an op -/

theorem insertOutputs_not_raised (chrono : Codec) :
    ∀ (outputs : List TokenRecord) (before : List String) (i : Nat) (t : Tokens),
    before.length = 3 * i → (insertOutputs (before ++ outputs.flatMap (outputArgs chrono)) i
      (outputs.map fun o => key o.publicHash) t).1 ≠ .raised
  | [], _, _, _, _ => by simp [insertOutputs]
  | o :: os, before, i, t, hlen => by
    have hargs : ∀ j < 3, (before ++ (outputArgs chrono o ++ os.flatMap (outputArgs chrono)))[3 * i + j]? =
        (outputArgs chrono o)[j]? := by
      intro j hj
      rw [← hlen, List.getElem?_append_right (Nat.le_add_right _ _), Nat.add_sub_cancel_left]
      exact List.getElem?_append_left hj
    have hfirst := hargs 0 (by omega)
    rw [Nat.add_zero] at hfirst
    simp only [List.flatMap_cons, List.map_cons, insertOutputs, hfirst, hargs 1 (by omega), hargs 2 (by omega)]
    split
    · exact nofun
    · simp only [outputArgs, List.getElem?_cons_zero, List.getElem?_cons_succ]
      rw [← List.append_assoc]
      refine insertOutputs_not_raised chrono os (before ++ _) (i + 1) _ ?_
      rw [List.length_append, hlen]
      rfl

variable {chrono : Codec} {pipelineError : String}

/-- **No script is stopped by an error of its own.** -/
theorem replaceLua_not_raised (now : DateTime) (op : ReplaceOp TokenRecord) (db : Redis.Db) :
    (replaceLua (replaceArgs chrono now op) db).1 ≠ .raised := by
  have hloop := insertOutputs_not_raised chrono op.outputs [] 0
    (markInputs (chrono.toRfc3339 now) db.tokens (op.inputs.map key)) rfl
  unfold replaceLua
  split
  · exact nofun
  · dsimp only [replaceArgs]
    rw [List.nil_append] at hloop
    split
    · exact nofun
    · rename_i reply t _ hreply
      rw [hreply] at hloop
      exact hloop

/-- The replacement of one op: its script, and how the answer is read. -/
def performReplace (chrono : Codec) (job : DateTime × ReplaceOp TokenRecord) (db : Redis.Db) :
    ReplaceResult × Redis.Db :=
  let (reply, db') := replaceLua (replaceArgs chrono job.1 job.2) db
  (reply.toResult, db')

/-- **A batch answers one result an op, in order, and runs the ops one after another.** -/
theorem batchReplace_inOrder (now : DateTime) (ops : List (ReplaceOp TokenRecord)) :
    Prog.InOrder replaceLua (performReplace chrono) [] (ops.map fun op => (now, op))
      (batchReplace chrono pipelineError now ops) := by
  have hanswer : ∀ replies : List Reply, (∀ r ∈ replies, r ≠ .raised) →
      (if .raised ∈ replies then ops.map fun _ => ReplaceResult.failed pipelineError
        else replies.map Reply.toResult) = replies.map Reply.toResult := by
    intro replies hgood
    rw [if_neg fun hraised => hgood _ hraised rfl]
  have hpipe := Prog.inOrder_callEach (performReplace chrono)
    (fun job : DateTime × ReplaceOp TokenRecord => replaceArgs chrono job.1 job.2) hanswer
    (fun job db => ⟨replaceLua_not_raised job.1 job.2 db, rfl⟩) (ops.map fun op => (now, op)) [] (by simp)
  rw [List.map_map] at hpipe
  exact hpipe

end Webycash.Legacy.RedisStore
