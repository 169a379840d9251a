import Webycash.Legacy.Miner
import Webycash.Lib.Effect
/-!
# The effect language of the monolithic server (`server/src/effects`)

A ledger program is a value: a tree of store operations with a continuation for each answer. `bind`
rewrites the tree, `interpret` walks it against a store. `interpret_bind` says that the walk of a bound
program is the walk of the first part followed by that of the second, as programs over store calls,
so whatever the store answers, both make the same calls with the same results and leave the same
store (`effects_free_monad`).

| here | there |
| --- | --- |
| `LedgerEffect`, `LedgerEffect.bind` | effects/mod.rs:16, effects/mod.rs:68 |
| `interpret`                         | effects/interpreter.rs:6 |
| `StoreCall`                         | the calls of `LedgerStore` (db/mod.rs:87), and of the clock and the id source |
| `getToken`, `insertToken`, `markSpent`, `atomicReplace` | `LedgerStoreExt` (db/mod.rs:145) |
-/

namespace Webycash.Legacy.Effects

open Prog (ret call)

/-! ## The store, as a collaborator -/

/-- What a program asks of the store, the id source and the clock. -/
inductive StoreCall
  | insertTokens (records : List TokenRecord)
  | getTokens (hashes : List String)
  | batchReplace (ops : List (ReplaceOp TokenRecord))
  | batchBurn (ops : List (String × BurnRecord))
  | getMiningState
  | updateMiningState (state : MiningState)
  | newV4
  | utcNow

/-- What comes back. -/
abbrev StoreCall.Result : StoreCall → Type
  | insertTokens _ => Except String Unit
  | getTokens _ => Except String (List (Option TokenRecord))
  | batchReplace _ => List ReplaceResult
  | batchBurn _ => Except String Unit
  | getMiningState => Except String (Option MiningState)
  | updateMiningState _ => Except String Unit
  | newV4 => String
  | utcNow => DateTime

/-- A call that ends the program it is made in. -/
def StoreCall.Fails : (c : StoreCall) → c.Result → Prop
  | insertTokens _, r => ∃ e, r = .error e
  | getTokens _, r => ∃ e, r = .error e
  | batchReplace _, r => r.head? ≠ some .ok
  | batchBurn _, r => ∃ e, r = .error e
  | getMiningState, r => ∃ e, r = .error e
  | updateMiningState _, r => ∃ e, r = .error e
  | newV4, _ => False
  | utcNow, _ => False

/-- An async function that returns `anyhow::Result`: `?` is its bind. -/
abbrev Async (α : Type) := ExceptT String (Prog StoreCall.Result) α

/-! ## `LedgerStoreExt` -/

def insertToken (record : TokenRecord) : Async Unit := ExceptT.mk (call (.insertTokens [record]) ret)

/-- The first slot, if there is one. -/
def firstToken (tokens : List (Option TokenRecord)) : Option TokenRecord := tokens.head?.join

def getTokens (hashes : List String) : Async (List (Option TokenRecord)) := ExceptT.mk (call (.getTokens hashes) ret)

def getToken (hash : String) : Async (Option TokenRecord) := do
  let tokens ← getTokens [hash]
  return firstToken tokens

/-- How the answer of a batch of one op is read. -/
def firstResult (results : List ReplaceResult) : Except String Unit :=
  match results.head? with
  | some .ok => .ok ()
  | some (.failed e) => .error e
  | none => .error "no result from batch_replace"

def atomicReplace (inputs : List String) (outputs : List TokenRecord) (record : ReplacementRecord) : Async Unit :=
  ExceptT.mk (call (.batchReplace [⟨inputs, outputs, record⟩]) fun results => ret (firstResult results))

/-- A token that is there and unspent is burnt under a record of its own. -/
def markSpent (hash : String) : Async Bool := do
  let tokens ← getTokens [hash]
  match firstToken tokens with
  | none => return false
  | some t =>
    if t.spent then return false
    else ExceptT.mk <| call .newV4 fun id => call .utcNow fun now =>
      call (.batchBurn [(hash, ⟨id, hash, 0, now⟩)]) fun r => ret (r.map fun _ => true)

def getMiningState : Async (Option MiningState) := ExceptT.mk (call .getMiningState ret)

def updateMiningState (state : MiningState) : Async Unit := ExceptT.mk (call (.updateMiningState state) ret)

/-! ## Effects -/

/-- An operation with its continuation, a value, or a failure. -/
inductive LedgerEffect (α : Type)
  | pure (a : α)
  | getToken (hash : String) (next : Option TokenRecord → LedgerEffect α)
  | insertToken (record : TokenRecord) (next : Unit → LedgerEffect α)
  | markSpent (hash : String) (next : Bool → LedgerEffect α)
  | getMiningState (next : Option MiningState → LedgerEffect α)
  | updateMiningState (state : MiningState) (next : Unit → LedgerEffect α)
  | atomicReplace (inputs : List String) (outputs : List TokenRecord) (record : ReplacementRecord) (next : Unit →
      LedgerEffect α)
  | fail (error : String)

namespace LedgerEffect

variable {α β γ : Type}

def bind : LedgerEffect α → (α → LedgerEffect β) → LedgerEffect β
  | pure a, f => f a
  | fail error, _ => fail error
  | getToken hash next, f => getToken hash fun tok => (next tok).bind f
  | insertToken record next, f => insertToken record fun u => (next u).bind f
  | markSpent hash next, f => markSpent hash fun ok => (next ok).bind f
  | getMiningState next, f => getMiningState fun s => (next s).bind f
  | updateMiningState state next, f => updateMiningState state fun u => (next u).bind f
  | atomicReplace inputs outputs record next, f => atomicReplace inputs outputs record fun u => (next u).bind f

/-- The loop of the interpreter: one operation a turn, `?` on its answer. -/
def interpret : LedgerEffect α → Async α
  | pure a => ExceptT.mk (ret (.ok a))
  | fail error => ExceptT.mk (ret (.error error))
  | getToken hash next => do
    let result ← Effects.getToken hash
    (next result).interpret
  | insertToken record next => do
    let u ← Effects.insertToken record
    (next u).interpret
  | markSpent hash next => do
    let result ← Effects.markSpent hash
    (next result).interpret
  | getMiningState next => do
    let result ← Effects.getMiningState
    (next result).interpret
  | updateMiningState state next => do
    let u ← Effects.updateMiningState state
    (next u).interpret
  | atomicReplace inputs outputs record next => do
    let u ← Effects.atomicReplace inputs outputs record
    (next u).interpret

/-! ## The monad laws, before and after interpretation -/

/-- Binding again is binding what was bound. -/
theorem bind_bind (m : LedgerEffect α) (f : α → LedgerEffect β) (g : β → LedgerEffect γ) :
    (m.bind f).bind g = m.bind fun a => (f a).bind g := by
  induction m with
  | pure a => rfl
  | fail error => rfl
  | getToken hash next ih => exact congrArg (getToken hash) (funext ih)
  | insertToken record next ih => exact congrArg (insertToken record) (funext ih)
  | markSpent hash next ih => exact congrArg (markSpent hash) (funext ih)
  | getMiningState next ih => exact congrArg getMiningState (funext ih)
  | updateMiningState state next ih => exact congrArg (updateMiningState state) (funext ih)
  | atomicReplace inputs outputs record next ih => exact congrArg (atomicReplace inputs outputs record) (funext ih)

/-- One turn of the interpreter, bound. -/
theorem interpret_turn {τ : Type} (op : Async τ) {next : τ → LedgerEffect α} {f : α → LedgerEffect β}
    (ih : ∀ r, ((next r).bind f).interpret = (next r).interpret >>= fun a => (f a).interpret) :
    (op >>= fun r => ((next r).bind f).interpret) = (op >>= fun r => (next r).interpret) >>=
      fun a => (f a).interpret := by
  rw [bind_assoc]
  exact congrArg (op >>= ·) (funext ih)

/-- **The interpretation of a bound program** is the interpretation of the first part, bound. -/
theorem interpret_bind (m : LedgerEffect α) (f : α → LedgerEffect β) :
    (m.bind f).interpret = m.interpret >>= fun a => (f a).interpret := by
  induction m with
  | pure a => rfl
  | fail error => rfl
  | getToken hash next ih => exact interpret_turn _ ih
  | insertToken record next ih => exact interpret_turn _ ih
  | markSpent hash next ih => exact interpret_turn _ ih
  | getMiningState next ih => exact interpret_turn _ ih
  | updateMiningState state next ih => exact interpret_turn _ ih
  | atomicReplace inputs outputs record next ih => exact interpret_turn _ ih

end LedgerEffect

/-! ## Runs -/

section

variable {α β γ A W : Type} (serve : (c : StoreCall) → A → W → c.Result × W)

/-- How an async function ends on a store: its result, the store after it and the calls it made. -/
abbrev Run (A W α : Type) := Prog.Outcome StoreCall.Result (Except String α) A W

def exec (x : Async α) (as : Nat → A) (w : W) : Run A W α := x.run.run serve as w

/-- Go on with the value, if there is one, where the first run stopped. -/
def followedBy (o : Run A W α) (as : Nat → A) (rest : α → (Nat → A) → W → Run A W β) : Run A W β :=
  match o.value with
  | .ok a =>
    let o' := rest a (fun n => as (n + o.trace.length)) o.world
    ⟨o'.value, o'.world, o.trace ++ o'.trace⟩
  | .error e => ⟨.error e, o.world, o.trace⟩

variable {serve} {x : Async α} {f : α → Async β}

theorem exec_bind (x : Async α) (f : α → Async β) (as : Nat → A) (w : W) :
    exec serve (x >>= f) as w = followedBy (exec serve x as w) as fun a => exec serve (f a) := by
  refine (Prog.run_bind x.run (ExceptT.bindCont f) as w).trans ?_
  unfold exec followedBy
  generalize x.run.run serve as w = o
  obtain ⟨value, world, trace⟩ := o
  cases value with
  | ok a => rfl
  | error e => exact congrArg (Prog.Outcome.mk _ _) (List.append_nil trace)

/-- After a call that fails no other is made, and the program ends in an error. -/
def Stops (serve : (c : StoreCall) → A → W → c.Result × W) (x : Async α) : Prop :=
  ∀ as w before m after, (exec serve x as w).trace = before ++ m :: after → m.call.Fails m.result →
    after = [] ∧ ∃ e, (exec serve x as w).value = .error e

theorem Stops.bind (hx : Stops serve x) (hf : ∀ a, Stops serve (f a)) : Stops serve (x >>= f) := by
  intro as w before m after htrace hfails
  rw [exec_bind] at htrace ⊢
  unfold followedBy at htrace ⊢
  cases hvalue : (exec serve x as w).value with
  | error e =>
    simp only [hvalue] at htrace
    exact ⟨(hx as w before m after htrace hfails).1, e, rfl⟩
  | ok a =>
    simp only [hvalue] at htrace ⊢
    rcases List.append_eq_append_iff.1 htrace with ⟨rest, -, hrest⟩ | ⟨rest, hfirst, hrest⟩
    · exact hf a _ _ rest m after hrest hfails
    · cases rest with
      | nil => exact hf a _ _ [] m after hrest.symm hfails
      | cons m' rest =>
        -- A call of the first part failed, but the first part returned a value.
        cases hrest
        obtain ⟨-, e, he⟩ := hx as w before m rest hfirst hfails
        rw [he] at hvalue
        cases hvalue

theorem stops_ret (r : Except String α) : Stops serve (ExceptT.mk (ret r)) := by
  intro as w before m after htrace
  exact absurd htrace.symm (by simp [exec, Prog.run])

/-- A last call, whose failure is the program's. -/
theorem stops_call {c : StoreCall} {h : c.Result → Except String α}
    (hfails : ∀ r, c.Fails r → ∃ e, h r = .error e) :
    Stops serve (ExceptT.mk (call c fun r => ret (h r))) := by
  intro as w before m after htrace hm
  cases before with
  | nil =>
    cases htrace
    exact ⟨rfl, hfails _ hm⟩
  | cons m' before =>
    have hlen := congrArg List.length htrace
    simp [exec, Prog.run] at hlen

/-- A call that cannot fail, before others. -/
theorem stops_call_next {c : StoreCall} {k : c.Result → Prog StoreCall.Result (Except String α)}
    (hc : ∀ r, ¬ c.Fails r)
    (hk : ∀ r, Stops serve (ExceptT.mk (k r))) : Stops serve (ExceptT.mk (call c k)) := by
  intro as w before m after htrace hm
  cases before with
  | nil =>
    cases htrace
    exact absurd hm (hc _)
  | cons m' before =>
    exact hk _ _ _ before m after (List.cons.inj htrace).2 hm

/-! ## The operations -/

theorem stops_getTokens (hashes : List String) : Stops serve (getTokens hashes) :=
  stops_call fun _ ⟨e, he⟩ => ⟨e, he⟩

theorem firstResult_fails {results : List ReplaceResult} (h : results.head? ≠ some .ok) :
    ∃ e, firstResult results = .error e := by
  unfold firstResult
  split
  · rename_i hok
    exact absurd hok h
  · exact ⟨_, rfl⟩
  · exact ⟨_, rfl⟩

theorem stops_markSpent (hash : String) : Stops serve (markSpent hash) := by
  refine (stops_getTokens [hash]).bind fun tokens => ?_
  split
  · exact stops_ret _
  · split
    · exact stops_ret _
    · exact stops_call_next (fun _ h => h) fun _ => stops_call_next (fun _ h => h) fun _ =>
        stops_call fun _ ⟨e, he⟩ => ⟨e, by rw [he]; rfl⟩

/-- **A failing call ends the program**, wherever it is made. -/
theorem stops_interpret (m : LedgerEffect α) : Stops serve m.interpret := by
  induction m with
  | pure a => exact stops_ret _
  | fail error => exact stops_ret _
  | getToken hash next ih => exact ((stops_getTokens [hash]).bind fun _ => stops_ret _).bind ih
  | insertToken record next ih => exact Stops.bind (stops_call fun _ ⟨e, he⟩ => ⟨e, he⟩) ih
  | markSpent hash next ih => exact (stops_markSpent hash).bind ih
  | getMiningState next ih => exact Stops.bind (stops_call fun _ ⟨e, he⟩ => ⟨e, he⟩) ih
  | updateMiningState state next ih => exact Stops.bind (stops_call fun _ ⟨e, he⟩ => ⟨e, he⟩) ih
  | atomicReplace inputs outputs record next ih => exact Stops.bind (stops_call fun _ h => firstResult_fails h) ih

end

/-- **The free monad law**, for every store and every program: a bound program makes the calls of its first part
and then, if that returned a value, those of the program bound to it, with the same results and the same final
store; a failure and a failing call end it; and binding is associative. -/
theorem effects_free_monad {α β γ A W : Type} (serve : (c : StoreCall) → A → W → c.Result × W)
    (m : LedgerEffect α) (f : α → LedgerEffect β) (g : β → LedgerEffect γ) :
    (∀ as w, exec serve (m.bind f).interpret as w = followedBy (exec serve m.interpret as w) as fun a =>
      exec serve (f a).interpret) ∧
    Stops serve m.interpret ∧ Stops serve (m.bind f).interpret ∧
    (∀ error as w, exec serve (LedgerEffect.fail error : LedgerEffect α).interpret as w =
      ⟨.error error, w, []⟩) ∧
    ∀ as w, exec serve ((m.bind f).bind g).interpret as w =
      exec serve (m.bind fun a => (f a).bind g).interpret as w := by
  refine ⟨fun as w => ?_, stops_interpret m, stops_interpret _, fun _ _ _ => rfl, fun as w => ?_⟩
  · rw [m.interpret_bind f, exec_bind]
  · rw [m.bind_bind f g]

end Webycash.Legacy.Effects
