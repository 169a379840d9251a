import Webycash.Legacy.RedisReplace
import Webycash.Legacy.Replace
import Webycash.Server.Plans
/-!
# The batcher of the monolithic server (`server/src/actors/batcher.rs`)

Any number of callers hand in replacements through a channel; a loop takes what it finds there as one
batch, has the store carry it out and hands the results back by position. A step is one move of a
caller, of the loop, of the store's pipeline, or a write of somebody else, in any order, so a batch may
end at any point of the queue.

`batcher_transparent` is the law: what a run did to the store is what the accepted ops do one at a
time in queue order, each caller hears of its own op, and from every state all callers are answered if
the loop goes on.

| here | there |
| --- | --- |
| `PendingReplace`, `Request`, `Caller`   | batcher.rs:18, a call of `replace` and how far it got (batcher.rs:32) |
| `Loop`, `answers`, `Step`               | `batcher_loop` (batcher.rs:68), where it stands and what it does next |
| `Step.leave`                            | the future of a call is dropped, its `oneshot` end with it |
| `LedgerStore`                           | `LedgerStore::batch_replace`, as the commands it sends |
-/

namespace Webycash.Legacy.Batcher

open Prog (InOrder ret call)
open Replace (parseAndValidateReplace ReplaceValidated.intoOp)

/-! ## The parties -/

/-- The commands `batch_replace` sends at a clock reading, and what each does. -/
structure LedgerStore (σ : Type) where
  Command : Type
  Answer : Command → Type
  serve : (c : Command) → σ → Answer c × σ
  batchReplace : DateTime → List (ReplaceOp TokenRecord) → Prog Answer (List ReplaceResult)

/-- The arguments of one call of `replace`, with the clock and the id it is validated under. -/
structure Request where
  env : RequestEnv
  webcashes : List String
  newWebcashes : List String

/-- Phase 1 of `replace`. -/
def Request.op? (q : Request) : Except String (ReplaceOp TokenRecord) :=
  (parseAndValidateReplace q.env q.webcashes q.newWebcashes).map Replace.ReplaceValidated.intoOp

/-- How far a call of `replace` got. -/
inductive Caller
  | sending (op : ReplaceOp TokenRecord)
  | awaiting
  | answered (r : Except String Unit)
  | left

/-- A call that was just made: validation refuses it at once or it goes on to the channel. -/
def Request.caller (q : Request) : Caller :=
  match q.op? with
  | .error e => .answered (.error e)
  | .ok op => .sending op

/-- An answer comes in; nobody hears it where the call was dropped. -/
def Caller.receive (r : Except String Unit) : Caller → Caller
  | .left => .left
  | _ => .answered r

def Caller.Waits : Caller → Prop
  | .sending _ => True
  | .awaiting => True
  | _ => False

/-- `reply` is the call at the other end of the `oneshot`. -/
structure PendingReplace where
  op : ReplaceOp TokenRecord
  reply : Nat

def replyOf : ReplaceResult → Except String Unit
  | .ok => .ok ()
  | .failed e => .error e

/-- `batch.into_iter().zip(results)`. A request without a result is dropped, and its caller told so. -/
def answers (batch : List PendingReplace) (results : List ReplaceResult) :
    List (PendingReplace × Except String Unit) :=
  batch.zip (results.map replyOf) ++ (batch.drop results.length).map fun p => (p, .error "batcher dropped reply")

variable {σ ω : Type}

/-- Where the loop stands. -/
inductive Loop (db : LedgerStore σ)
  | receiving
  | draining (batch : List PendingReplace)
  | executing (batch : List PendingReplace) (rest : Prog db.Answer (List ReplaceResult))
  | replying (replies : List (PendingReplace × Except String Unit))

/-- What the loop took from the channel and has not answered. -/
def Loop.held {db : LedgerStore σ} : Loop db → List PendingReplace
  | receiving => []
  | draining batch => batch
  | executing batch _ => batch
  | replying replies => replies.map Prod.fst

structure State (db : LedgerStore σ) where
  store : σ
  callers : List Caller
  queue : List PendingReplace
  loop : Loop db

def State.start (db : LedgerStore σ) (store : σ) : State db := ⟨store, [], [], .receiving⟩

/-- Accepted and not answered, oldest first. -/
def State.line {db : LedgerStore σ} (s : State db) : List PendingReplace := s.loop.held ++ s.queue

/-! ## Steps -/

inductive Act (ω : Type)
  | replace (q : Request)
  | send (p : PendingReplace)
  | leave (i : Nat)
  | recv
  | tryRecv
  | batchReplace (now : DateTime)
  | command
  | zip
  | reply
  | again
  | other (w : ω)

section

variable (db : LedgerStore σ) (disturb : ω → σ → σ) (bufferSize : Nat)

inductive Step : State db → Act ω → State db → Prop
  | replace {s : State db} (q : Request) : Step s (.replace q) { s with callers := s.callers ++ [q.caller] }
  /-- A sender gets a slot of the channel. -/
  | send {s : State db} {p : PendingReplace} (hcaller : s.callers[p.reply]? = some (.sending p.op))
      (hroom : s.queue.length < bufferSize) :
      Step s (.send p) { s with callers := s.callers.set p.reply .awaiting, queue := s.queue ++ [p] }
  | leave {s : State db} {i : Nat} {c : Caller} (hcaller : s.callers[i]? = some c) (hwaits : c.Waits) :
      Step s (.leave i) { s with callers := s.callers.set i .left }
  | recv {s : State db} {p : PendingReplace} {q : List PendingReplace} (hloop : s.loop = .receiving)
      (hqueue : s.queue = p :: q) : Step s .recv { s with loop := .draining [p], queue := q }
  | tryRecv {s : State db} {batch : List PendingReplace} {p : PendingReplace} {q : List PendingReplace}
      (hloop : s.loop = .draining batch) (hqueue : s.queue = p :: q) :
      Step s .tryRecv { s with loop := .draining (batch ++ [p]), queue := q }
  | batchReplace {s : State db} {batch : List PendingReplace} (now : DateTime) (hloop : s.loop = .draining batch) :
      Step s (.batchReplace now)
        { s with loop := .executing batch (db.batchReplace now (batch.map PendingReplace.op)) }
  | command {s : State db} {batch : List PendingReplace} {c : db.Command}
      {k : db.Answer c → Prog db.Answer (List ReplaceResult)} (hloop : s.loop = .executing batch (call c k)) :
      Step s .command
        { s with store := (db.serve c s.store).2, loop := .executing batch (k (db.serve c s.store).1) }
  | zip {s : State db} {batch : List PendingReplace} {results : List ReplaceResult}
      (hloop : s.loop = .executing batch (ret results)) :
      Step s .zip { s with loop := .replying (answers batch results) }
  | reply {s : State db} {p : PendingReplace} {r : Except String Unit}
      {rest : List (PendingReplace × Except String Unit)} (hloop : s.loop = .replying ((p, r) :: rest)) :
      Step s .reply { s with callers := s.callers.modify p.reply (Caller.receive r), loop := .replying rest }
  | again {s : State db} (hloop : s.loop = .replying []) : Step s .again { s with loop := .receiving }
  /-- Another client of the store. -/
  | other {s : State db} (w : ω) : Step s (.other w) { s with store := disturb w s.store }

end

/-! ## What a run was asked -/

def Act.request? : Act ω → Option Request
  | replace q => some q
  | _ => none

def Act.sent? : Act ω → Option PendingReplace
  | send p => some p
  | _ => none

/-- The steps that reach the store: a command of the batch, or somebody else's write. -/
def Act.write? : Act ω → Option (Option ω)
  | command => some none
  | other w => some (some w)
  | _ => none

/-- The calls of `replace`, in the order they were made. -/
def requests (as : List (Act ω)) : List Request := as.filterMap Act.request?

/-- The accepted ops, in queue order. -/
def accepted (as : List (Act ω)) : List PendingReplace := as.filterMap Act.sent?

/-- Call `i` was validated to `op`. -/
def Asks (qs : List Request) (i : Nat) (op : ReplaceOp TokenRecord) : Prop := ∃ q, qs[i]? = some q ∧ q.op? = .ok op

/-- Call `i` was refused with `r`. -/
def Refuses (qs : List Request) (i : Nat) (r : Except String Unit) : Prop :=
  ∃ q e, qs[i]? = some q ∧ q.op? = .error e ∧ r = .error e

theorem Asks.append {qs : List Request} {i : Nat} {op : ReplaceOp TokenRecord} (h : Asks qs i op) (q : Request) :
    Asks (qs ++ [q]) i op := by
  obtain ⟨q', hq', hop⟩ := h
  exact ⟨q', List.getElem?_append_left (List.getElem?_eq_some_iff.1 hq').1 ▸ hq', hop⟩

theorem Refuses.append {qs : List Request} {i : Nat} {r : Except String Unit} (h : Refuses qs i r) (q : Request) :
    Refuses (qs ++ [q]) i r := by
  obtain ⟨q', e, hq', hop, hr⟩ := h
  exact ⟨q', e, List.getElem?_append_left (List.getElem?_eq_some_iff.1 hq').1 ▸ hq', hop, hr⟩

/-! ## Who waits for what -/

/-- The callers of a state, beside what was asked, what was accepted, what is still in line and what
was answered. -/
structure Accounts (qs : List Request) (sent : List PendingReplace) (settled : List (PendingReplace × ReplaceResult))
    (callers : List Caller) (line : List PendingReplace) : Prop where
  split : sent = settled.map Prod.fst ++ line
  count : callers.length = qs.length
  own : ∀ p ∈ sent, Asks qs p.reply p.op
  nodup : (sent.map PendingReplace.reply).Nodup
  sending : ∀ {i op}, callers[i]? = some (.sending op) → Asks qs i op ∧ i ∉ sent.map PendingReplace.reply
  awaiting : ∀ {i}, callers[i]? = some .awaiting → i ∈ line.map PendingReplace.reply
  answered : ∀ {i r}, callers[i]? = some (.answered r) →
    Refuses qs i r ∨ ∃ p res, (p, res) ∈ settled ∧ p.reply = i ∧ r = replyOf res
  inLine : ∀ p ∈ line, callers[p.reply]? = some .awaiting ∨ callers[p.reply]? = some .left
  done : ∀ p res, (p, res) ∈ settled →
    callers[p.reply]? = some (.answered (replyOf res)) ∨ callers[p.reply]? = some .left

namespace Accounts

variable {qs : List Request} {sent line : List PendingReplace} {settled : List (PendingReplace × ReplaceResult)}
  {callers : List Caller}

theorem empty : Accounts [] [] [] [] [] where
  split := rfl
  count := rfl
  own := by simp
  nodup := List.nodup_nil
  sending := by simp
  awaiting := by simp
  answered := by simp
  inLine := by simp
  done := by simp

/-- A caller that has a place among the first ones. -/
theorem getElem?_append {c : Caller} {i : Nat} {x : Caller} (h : callers[i]? = some x) :
    (callers ++ [c])[i]? = some x := by
  rw [List.getElem?_append_left (List.getElem?_eq_some_iff.1 h).1]
  exact h

/-- The caller that was just appended, or one that was there. -/
theorem of_getElem?_append {c x : Caller} {i : Nat} (h : (callers ++ [c])[i]? = some x) :
    callers[i]? = some x ∨ (i = callers.length ∧ x = c) := by
  rcases Nat.lt_trichotomy i callers.length with hlt | rfl | hgt
  · rw [List.getElem?_append_left hlt] at h
    exact .inl h
  · rw [List.getElem?_concat_length] at h
    exact .inr ⟨rfl, (Option.some.inj h).symm⟩
  · rw [List.getElem?_eq_none (by rw [List.length_append, List.length_singleton]; omega)] at h
    cases h

/-- Who was accepted has a place among the callers. -/
theorem reply_lt (h : Accounts qs sent settled callers line) {p : PendingReplace} (hp : p ∈ sent) :
    p.reply < callers.length := by
  obtain ⟨q, hq, -⟩ := h.own p hp
  rw [h.count]
  exact (List.getElem?_eq_some_iff.1 hq).1

theorem replace (h : Accounts qs sent settled callers line) (q : Request) :
    Accounts (qs ++ [q]) sent settled (callers ++ [q.caller]) line where
  split := h.split
  count := by rw [List.length_append, List.length_append, h.count, List.length_singleton, List.length_singleton]
  own p hp := (h.own p hp).append q
  nodup := h.nodup
  sending := by
    intro i op hi
    rcases of_getElem?_append hi with hi | ⟨rfl, hc⟩
    · exact ⟨(h.sending hi).1.append q, (h.sending hi).2⟩
    · refine ⟨⟨q, by rw [h.count, List.getElem?_concat_length], ?_⟩, ?_⟩
      · unfold Request.caller at hc
        split at hc
        · cases hc
        · rename_i op' hop
          cases hc
          exact hop
      · intro hmem
        obtain ⟨p, hp, hreply⟩ := List.mem_map.1 hmem
        have hlt := h.reply_lt hp
        omega
  awaiting := by
    intro i hi
    rcases of_getElem?_append hi with hi | ⟨rfl, hc⟩
    · exact h.awaiting hi
    · unfold Request.caller at hc
      split at hc <;> cases hc
  answered := by
    intro i r hi
    rcases of_getElem?_append hi with hi | ⟨rfl, hc⟩
    · exact (h.answered hi).imp (fun hr => hr.append q) id
    · unfold Request.caller at hc
      split at hc
      · rename_i e hop
        cases hc
        exact .inl ⟨q, e, by rw [h.count, List.getElem?_concat_length], hop, rfl⟩
      · cases hc
  inLine p hp := (h.inLine p hp).imp getElem?_append getElem?_append
  done p res hp := (h.done p res hp).imp getElem?_append getElem?_append

theorem send (h : Accounts qs sent settled callers line) {p : PendingReplace}
    (hp : callers[p.reply]? = some (.sending p.op)) :
    Accounts qs (sent ++ [p]) settled (callers.set p.reply .awaiting) (line ++ [p]) where
  split := by rw [h.split, List.append_assoc]
  count := by rw [List.length_set, h.count]
  own := by
    intro p' hp'
    rcases List.mem_append.1 hp' with hp' | hp'
    · exact h.own p' hp'
    · rw [List.mem_singleton.1 hp']
      exact (h.sending hp).1
  nodup := by
    rw [List.map_append, List.nodup_append]
    refine ⟨h.nodup, List.nodup_singleton _, ?_⟩
    rintro i hi j hj rfl
    exact (h.sending hp).2 (List.mem_singleton.1 hj ▸ hi)
  sending := by
    intro i op hi
    by_cases hne : p.reply = i
    · rw [hne, List.getElem?_set_self (hne ▸ (List.getElem?_eq_some_iff.1 hp).1)] at hi
      cases hi
    · rw [List.getElem?_set_ne hne] at hi
      refine ⟨(h.sending hi).1, ?_⟩
      rw [List.map_append, List.mem_append, not_or]
      exact ⟨(h.sending hi).2, fun hmem => hne (List.mem_singleton.1 hmem).symm⟩
  awaiting := by
    intro i hi
    rw [List.map_append, List.mem_append]
    by_cases hne : p.reply = i
    · exact .inr (List.mem_singleton.2 hne.symm)
    · rw [List.getElem?_set_ne hne] at hi
      exact .inl (h.awaiting hi)
  answered := by
    intro i r hi
    by_cases hne : p.reply = i
    · rw [hne, List.getElem?_set_self (hne ▸ (List.getElem?_eq_some_iff.1 hp).1)] at hi
      cases hi
    · rw [List.getElem?_set_ne hne] at hi
      exact h.answered hi
  inLine := by
    intro p' hp'
    by_cases hne : p.reply = p'.reply
    · rw [← hne, List.getElem?_set_self (List.getElem?_eq_some_iff.1 hp).1]
      exact .inl rfl
    · rw [List.getElem?_set_ne hne]
      rcases List.mem_append.1 hp' with hp' | hp'
      · exact h.inLine p' hp'
      · exact absurd (congrArg PendingReplace.reply (List.mem_singleton.1 hp').symm) hne
  done := by
    intro p' res hp'
    have hne : p.reply ≠ p'.reply := by
      intro he
      rcases h.done p' res hp' with hd | hd <;> rw [← he, hp] at hd <;> cases hd
    rw [List.getElem?_set_ne hne]
    exact h.done p' res hp'

theorem leave (h : Accounts qs sent settled callers line) {i : Nat} {c : Caller} (hi : callers[i]? = some c) :
    Accounts qs sent settled (callers.set i .left) line := by
  have hself : (callers.set i .left)[i]? = some .left := List.getElem?_set_self (List.getElem?_eq_some_iff.1 hi).1
  have hkept : ∀ {j : Nat} {x : Caller}, (callers.set i .left)[j]? = some x → x ≠ .left →
      callers[j]? = some x := by
    intro j x hj hx
    by_cases hne : i = j
    · rw [← hne, hself] at hj
      exact absurd (Option.some.inj hj).symm hx
    · rwa [List.getElem?_set_ne hne] at hj
  have hleft : ∀ {j : Nat} {x : Caller}, callers[j]? = some x ∨ callers[j]? = some .left →
      (callers.set i .left)[j]? = some x ∨ (callers.set i .left)[j]? = some .left := by
    intro j x hj
    by_cases hne : i = j
    · exact .inr (hne ▸ hself)
    · rwa [List.getElem?_set_ne hne]
  exact {
    split := h.split
    count := by rw [List.length_set, h.count]
    own := h.own
    nodup := h.nodup
    sending := fun hj => h.sending (hkept hj nofun)
    awaiting := fun hj => h.awaiting (hkept hj nofun)
    answered := fun hj => h.answered (hkept hj nofun)
    inLine := fun p hp => hleft (h.inLine p hp)
    done := fun p res hp => hleft (h.done p res hp) }

/-- The first of the line gets its answer. -/
theorem reply {p : PendingReplace} (h : Accounts qs sent settled callers (p :: line)) (res : ReplaceResult) :
    Accounts qs sent (settled ++ [(p, res)]) (callers.modify p.reply (Caller.receive (replyOf res))) line := by
  have hnd := h.nodup
  rw [h.split, List.map_append, List.map_cons] at hnd
  obtain ⟨-, hnd, hdisj⟩ := List.nodup_append.1 hnd
  have hself : (callers.modify p.reply (Caller.receive (replyOf res)))[p.reply]? = some (.answered (replyOf res)) ∨
      (callers.modify p.reply (Caller.receive (replyOf res)))[p.reply]? = some .left := by
    rw [List.getElem?_modify_eq]
    rcases h.inLine p List.mem_cons_self with hp | hp <;> rw [hp]
    · exact .inl rfl
    · exact .inr rfl
  have hother : ∀ {i}, p.reply ≠ i → (callers.modify p.reply (Caller.receive (replyOf res)))[i]? =
      callers[i]? := by
    intro i hi
    exact List.getElem?_modify_ne _ _ hi
  refine {
    split := by rw [h.split, List.map_append, List.append_assoc]; rfl
    count := by rw [List.length_modify, h.count]
    own := h.own
    nodup := h.nodup
    sending := ?_
    awaiting := ?_
    answered := ?_
    inLine := ?_
    done := ?_ }
  · intro i op hi
    by_cases hne : p.reply = i
    · rcases hself with hs | hs <;> rw [← hne, hs] at hi <;> cases hi
    · exact h.sending (hother hne ▸ hi)
  · intro i hi
    by_cases hne : p.reply = i
    · rcases hself with hs | hs <;> rw [← hne, hs] at hi <;> cases hi
    · rcases List.mem_cons.1 (h.awaiting (hother hne ▸ hi)) with he | hmem
      · exact absurd he.symm hne
      · exact hmem
  · intro i r hi
    by_cases hne : p.reply = i
    · rcases hself with hs | hs <;> rw [← hne, hs] at hi <;> cases hi
      exact .inr ⟨p, res, by simp, hne, rfl⟩
    · refine (h.answered (hother hne ▸ hi)).imp id ?_
      rintro ⟨p', res', hmem, hrest⟩
      exact ⟨p', res', List.mem_append_left _ hmem, hrest⟩
  · intro p' hp'
    have hne : p.reply ≠ p'.reply := by
      intro he
      exact (List.nodup_cons.1 hnd).1 (List.mem_map.2 ⟨p', hp', he.symm⟩)
    rw [hother hne]
    exact h.inLine p' (List.mem_cons_of_mem _ hp')
  · intro p' res' hp'
    rcases List.mem_append.1 hp' with hp' | hp'
    · have hne : p.reply ≠ p'.reply := by
        intro he
        exact hdisj _ (List.mem_map.2 ⟨p', List.mem_map.2 ⟨_, hp', rfl⟩, rfl⟩) _ List.mem_cons_self he.symm
      rw [hother hne]
      exact h.done p' res' hp'
    · obtain ⟨rfl, rfl⟩ := Prod.mk.inj (List.mem_singleton.1 hp')
      exact hself

end Accounts

/-! ## What the store was told -/

/-- An op, with the clock of the batch it went out in. -/
abbrev Job := DateTime × ReplaceOp TokenRecord

def jobs (events : List (JobEvent Job ω)) : List Job := events.filterMap JobEvent.job?

section

variable {db : LedgerStore σ} (perform : Job → σ → ReplaceResult × σ) (disturb : ω → σ → σ)

/-- Where the loop stands beside the ops of earlier batches, the jobs done and the results of this batch. -/
def Loop.At (as : List (Act ω)) (earlier : List PendingReplace) (did : List Job) (acc : List ReplaceResult) :
    Loop db → Prop
  | receiving => acc = [] ∧ did.map Prod.snd = earlier.map PendingReplace.op
  | draining _ => acc = [] ∧ did.map Prod.snd = earlier.map PendingReplace.op
  | executing batch rest => ∃ todo, InOrder db.serve perform acc todo rest ∧
      (did ++ todo).map Prod.snd = (earlier ++ batch).map PendingReplace.op ∧ ∀ j ∈ todo, .batchReplace j.1 ∈ as
  | replying replies => replies.map Prod.snd = acc.map replyOf ∧
      did.map Prod.snd = (earlier ++ replies.map Prod.fst).map PendingReplace.op

/-- What reached the store since `store₀`: `events`, of which those of the answered batches gave what
`settled` says and those of the present one gave `acc`. -/
structure Told (store₀ : σ) (as : List (Act ω)) (s : State db) (events : List (JobEvent Job ω))
    (settled : List (PendingReplace × ReplaceResult)) (acc : List ReplaceResult) : Prop where
  shape : events.map JobEvent.other? = as.filterMap Act.write?
  did : JobEvent.oneAtATime perform disturb events store₀ = (settled.map Prod.snd ++ acc, s.store)
  clock : ∀ j ∈ jobs events, .batchReplace j.1 ∈ as
  loop : s.loop.At perform as (settled.map Prod.fst) (jobs events) acc

end

section

variable {db : LedgerStore σ} {perform : Job → σ → ReplaceResult × σ} {disturb : ω → σ → σ}
  {bufferSize : Nat} {store₀ : σ}
  {as : List (Act ω)} {a : Act ω} {s t : State db} {events : List (JobEvent Job ω)}
  {settled : List (PendingReplace × ReplaceResult)} {acc : List ReplaceResult}

theorem Loop.At.later {l : Loop db} {earlier : List PendingReplace} {did : List Job}
    (h : l.At perform as earlier did acc) (a : Act ω) : l.At perform (as ++ [a]) earlier did acc := by
  cases l with
  | receiving => exact h
  | draining batch => exact h
  | executing batch rest =>
    obtain ⟨todo, horder, hops, hclock⟩ := h
    exact ⟨todo, horder, hops, fun j hj => List.mem_append_left _ (hclock j hj)⟩
  | replying replies => exact h

/-- A step that does not reach the store. -/
theorem Told.quiet (h : Told perform disturb store₀ as s events settled acc) (ha : a.write? = none)
    (hstore : t.store = s.store) (hloop : t.loop.At perform (as ++ [a]) (settled.map Prod.fst) (jobs events) acc) :
    Told perform disturb store₀ (as ++ [a]) t events settled acc where
  shape := by rw [List.filterMap_append, ← h.shape]; simp [ha]
  did := by rw [hstore, h.did]
  clock j hj := List.mem_append_left _ (h.clock j hj)
  loop := hloop

/-- One result a job. -/
theorem Told.length (h : Told perform disturb store₀ as s events settled acc) :
    (jobs events).length = settled.length + acc.length := by
  have hlen := JobEvent.length_oneAtATime perform disturb events store₀
  rw [h.did] at hlen
  rw [jobs, ← hlen, List.length_append, List.length_map]

theorem map_fst_answers {batch : List PendingReplace} {results : List ReplaceResult}
    (h : results.length = batch.length) :
    (answers batch results).map Prod.fst = batch := by
  unfold answers
  rw [h, List.drop_length, List.map_nil, List.append_nil, List.map_fst_zip]
  rw [List.length_map, h]

theorem map_snd_answers {batch : List PendingReplace} {results : List ReplaceResult}
    (h : results.length = batch.length) :
    (answers batch results).map Prod.snd = results.map replyOf := by
  unfold answers
  rw [h, List.drop_length, List.map_nil, List.append_nil, List.map_snd_zip]
  rw [List.length_map, h]

/-- A step that is no call and accepts nothing. -/
theorem Accounts.quiet {callers : List Caller} {line : List PendingReplace}
    (h : Accounts (requests as) (accepted as) settled callers line) (hrequest : a.request? = none)
    (hsent : a.sent? = none) :
    Accounts (requests (as ++ [a])) (accepted (as ++ [a])) settled callers line := by
  have hrequests : requests (as ++ [a]) = requests as := by simp [requests, List.filterMap_append, hrequest]
  have haccepted : accepted (as ++ [a]) = accepted as := by simp [accepted, List.filterMap_append, hsent]
  rwa [hrequests, haccepted]

theorem jobs_append (es es' : List (JobEvent Job ω)) : jobs (es ++ es') = jobs es ++ jobs es' := List.filterMap_append

/-- The result of every op is its own and goes to its caller. -/
def Inv (perform : Job → σ → ReplaceResult × σ) (disturb : ω → σ → σ) (store₀ : σ)
    (as : List (Act ω)) (s : State db) : Prop :=
  ∃ events settled acc, Told perform disturb store₀ as s events settled acc ∧
    Accounts (requests as) (accepted as) settled s.callers s.line

/-- **What one step keeps.** -/
theorem Inv.step (hstore : ∀ now ops, InOrder db.serve perform [] (ops.map fun op => (now, op))
    (db.batchReplace now ops)) (h : Step db disturb bufferSize s a t) (hs : Inv perform disturb store₀ as s) :
    Inv perform disturb store₀ (as ++ [a]) t := by
  obtain ⟨events, settled, acc, htold, hacc⟩ := hs
  cases h with
  | replace q =>
    refine ⟨events, settled, acc, htold.quiet rfl rfl (htold.loop.later _), ?_⟩
    have haccounts := hacc.replace q
    rwa [show requests as ++ [q] = requests (as ++ [Act.replace q]) by simp [requests,
      List.filterMap_append, Act.request?],
      show accepted as = accepted (as ++ [Act.replace q]) by
        simp [accepted, List.filterMap_append, Act.sent?]] at haccounts
  | send hcaller hroom =>
    rename_i p
    refine ⟨events, settled, acc, htold.quiet rfl rfl (htold.loop.later _), ?_⟩
    have haccounts := hacc.send hcaller
    rwa [State.line, List.append_assoc,
      show requests as = requests (as ++ [Act.send p]) by simp [requests, List.filterMap_append, Act.request?],
      show accepted as ++ [p] = accepted (as ++ [Act.send p]) by
        simp [accepted, List.filterMap_append, Act.sent?]] at haccounts
  | leave hcaller hwaits =>
    exact ⟨events, settled, acc, htold.quiet rfl rfl (htold.loop.later _), (hacc.leave hcaller).quiet rfl rfl⟩
  | recv hloop hqueue =>
    have hat := htold.loop
    rw [hloop] at hat
    rw [State.line, hloop, hqueue] at hacc
    exact ⟨events, settled, acc, htold.quiet rfl rfl hat, hacc.quiet rfl rfl⟩
  | tryRecv hloop hqueue =>
    have hat := htold.loop
    rw [hloop] at hat
    rw [State.line, hloop, hqueue, List.append_cons] at hacc
    exact ⟨events, settled, acc, htold.quiet rfl rfl hat, hacc.quiet rfl rfl⟩
  | batchReplace now hloop =>
    rename_i batch
    have hat := htold.loop
    rw [hloop] at hat
    rw [State.line, hloop] at hacc
    obtain ⟨rfl, hops⟩ := hat
    refine ⟨events, settled, [], htold.quiet rfl rfl ⟨_, hstore now _, ?_, ?_⟩, hacc.quiet rfl rfl⟩
    · rw [List.map_append, hops]
      simp
    · intro j hj
      obtain ⟨op, -, rfl⟩ := List.mem_map.1 hj
      simp
  | command hloop =>
    rename_i batch c k
    have hat := htold.loop
    rw [hloop] at hat
    rw [State.line, hloop] at hacc
    obtain ⟨todo, horder, hops, hclock⟩ := hat
    obtain ⟨j, rest, rfl, hserve, hrest⟩ := horder.step s.store
    refine ⟨events ++ [.job j], settled, acc ++ [(perform j s.store).1], ⟨?_, ?_, ?_, ?_⟩, hacc.quiet rfl rfl⟩
    · rw [List.map_append, List.filterMap_append, htold.shape]
      rfl
    · rw [JobEvent.oneAtATime_append, htold.did]
      simp [JobEvent.oneAtATime, hserve]
    · intro j' hj'
      rw [jobs_append, List.mem_append] at hj'
      rcases hj' with hj' | hj'
      · exact List.mem_append_left _ (htold.clock j' hj')
      · rw [List.mem_singleton.1 hj']
        exact List.mem_append_left _ (hclock j List.mem_cons_self)
    · refine ⟨rest, hrest, ?_, fun j' hj' => List.mem_append_left _ (hclock j' (List.mem_cons_of_mem _ hj'))⟩
      rw [jobs_append, List.append_assoc]
      exact hops
  | zip hloop =>
    rename_i batch results
    have hat := htold.loop
    rw [hloop] at hat
    rw [State.line, hloop] at hacc
    obtain ⟨todo, horder, hops, -⟩ := hat
    obtain ⟨rfl, rfl⟩ := horder.returned
    rw [List.append_nil] at hops
    have hlen : results.length = batch.length := by
      have hdone := congrArg List.length hops
      rw [List.length_map, htold.length, List.length_map, List.length_append, List.length_map] at hdone
      omega
    have hheld : (answers batch results).map Prod.fst = batch := map_fst_answers hlen
    refine ⟨events, settled, results, htold.quiet rfl rfl ⟨map_snd_answers hlen, ?_⟩, ?_⟩
    · rw [hheld]
      exact hops
    · rw [State.line, Loop.held, hheld]
      exact hacc.quiet rfl rfl
  | reply hloop =>
    rename_i p r rest
    have hat := htold.loop
    rw [hloop] at hat
    rw [State.line, hloop] at hacc
    obtain ⟨hresults, hops⟩ := hat
    cases acc with
    | nil => cases hresults
    | cons res acc =>
      obtain ⟨rfl, hrest⟩ := List.cons.inj hresults
      refine ⟨events, settled ++ [(p, res)], acc, ⟨?_, ?_, ?_, hrest, ?_⟩,
        (Accounts.reply hacc res).quiet rfl rfl⟩
      · rw [htold.shape, List.filterMap_append]
        exact (List.append_nil _).symm
      · rw [htold.did]
        simp
      · exact fun j hj => List.mem_append_left _ (htold.clock j hj)
      · rw [hops]
        simp
  | again hloop =>
    have hat := htold.loop
    rw [hloop] at hat
    rw [State.line, hloop] at hacc
    obtain ⟨hresults, hops⟩ := hat
    refine ⟨events, settled, acc, htold.quiet rfl rfl ⟨List.map_eq_nil_iff.1 hresults.symm, ?_⟩,
      hacc.quiet rfl rfl⟩
    rw [hops]
    simp
  | other w =>
    have hjobs : jobs (events ++ [.other w]) = jobs events := by
      rw [jobs_append]
      exact List.append_nil _
    refine ⟨events ++ [.other w], settled, acc, ⟨?_, ?_, ?_, ?_⟩, hacc.quiet rfl rfl⟩
    · rw [List.map_append, List.filterMap_append, htold.shape]
      rfl
    · rw [JobEvent.oneAtATime_append, htold.did]
      simp [JobEvent.oneAtATime]
    · rw [hjobs]
      exact fun j hj => List.mem_append_left _ (htold.clock j hj)
    · rw [hjobs]
      exact htold.loop.later (.other w)

theorem Inv.start : Inv perform disturb store₀ ([] : List (Act ω)) (.start db store₀) := by
  refine ⟨[], [], [], ⟨rfl, rfl, ?_, ?_⟩, Accounts.empty⟩
  · intro j hj
    cases hj
  · exact ⟨rfl, rfl⟩

/-- **What a run keeps.** -/
theorem Inv.of_run (hstore : ∀ now ops,
    InOrder db.serve perform [] (ops.map fun op => (now, op)) (db.batchReplace now ops))
    (h : Run (Step db disturb bufferSize) (.start db store₀) as s) : Inv perform disturb store₀ as s :=
  Run.history Inv.start (fun _ _ _ _ _ hs hstep => hs.step hstore hstep) h

/-! ## The loop goes on -/

/-- A step of the loop or of the store, or a sender getting its slot. -/
def Act.Served : Act ω → Prop
  | replace _ => False
  | leave _ => False
  | other _ => False
  | _ => True

/-- Without any new call, any caller that gives up and any other client, `s` leads to `t`. -/
def Goes (disturb : ω → σ → σ) (bufferSize : Nat) (s t : State db) : Prop :=
  ∃ as, Run (Step db disturb bufferSize) s as t ∧ ∀ a ∈ as, a.Served

theorem Goes.refl : Goes disturb bufferSize s s := ⟨[], .nil s, by simp⟩

theorem Goes.cons {u : State db} (h : Step db disturb bufferSize s a t) (ha : a.Served)
    (hrest : Goes disturb bufferSize t u) :
    Goes disturb bufferSize s u := by
  obtain ⟨as, hrun, has⟩ := hrest
  exact ⟨a :: as, .cons h hrun, by simpa using ⟨ha, has⟩⟩

theorem Goes.trans {u : State db} (h : Goes disturb bufferSize s t) (hrest : Goes disturb bufferSize t u) :
    Goes disturb bufferSize s u := by
  obtain ⟨as, hrun, has⟩ := h
  obtain ⟨bs, hrun', hbs⟩ := hrest
  exact ⟨as ++ bs, hrun.append hrun', fun a ha => (List.mem_append.1 ha).elim (has a) (hbs a)⟩

def Caller.isSending : Caller → Bool
  | sending _ => true
  | _ => false

/-- The calls that wait for a slot. -/
def State.senders (s : State db) : Nat := s.callers.countP Caller.isSending

theorem isSending_receive (r : Except String Unit) (c : Caller) : (c.receive r).isSending = false := by cases c <;> rfl

theorem countP_receive_le (r : Except String Unit) : ∀ (callers : List Caller) (i : Nat),
    (callers.modify i (Caller.receive r)).countP Caller.isSending ≤ callers.countP Caller.isSending
  | [], _ => by simp
  | c :: cs, 0 => by simp [List.countP_cons, isSending_receive]
  | c :: cs, i + 1 => by
    simp only [List.modify_succ_cons, List.countP_cons]
    have := countP_receive_le r cs i
    omega

/-- The loop stands where it began, with the channel as it was. -/
def Back (disturb : ω → σ → σ) (bufferSize : Nat) (s : State db) : Prop :=
  ∃ t, Goes disturb bufferSize s t ∧ t.loop = .receiving ∧ t.queue = s.queue ∧ t.senders ≤ s.senders

/-- By induction on the replies that are left. -/
theorem back_of_replying : ∀ {replies : List (PendingReplace × Except String Unit)} {s : State db}, s.loop =
    .replying replies →
    Back disturb bufferSize s
  | [], s, h => ⟨_, .cons (.again h) trivial .refl, rfl, rfl, Nat.le_refl _⟩
  | (p, r) :: rest, s, h => by
    have hrest : Back disturb bufferSize
        { s with callers := s.callers.modify p.reply (Caller.receive r), loop := .replying rest } :=
          back_of_replying rfl
    obtain ⟨t, hgoes, hloop, hqueue, hsenders⟩ := hrest
    exact ⟨t, .cons (.reply h) trivial hgoes, hloop, hqueue, hsenders.trans (countP_receive_le r s.callers p.reply)⟩

/-- By induction on what is left of `batch_replace`. -/
theorem back_of_executing {batch : List PendingReplace} {rest : Prog db.Answer (List ReplaceResult)}
    (h : s.loop = .executing batch rest) :
    Back disturb bufferSize s := by
  induction rest generalizing s with
  | ret results =>
    have hreplies : Back disturb bufferSize ({ s with loop := .replying (answers batch results) } : State db) :=
      back_of_replying rfl
    obtain ⟨t, hgoes, hback⟩ := hreplies
    exact ⟨t, .cons (.zip h) trivial hgoes, hback⟩
  | call c k ih =>
    have hrest : Back disturb bufferSize
        { s with store := (db.serve c s.store).2, loop := .executing batch (k (db.serve c s.store).1) } := ih _ rfl
    obtain ⟨t, hgoes, hback⟩ := hrest
    exact ⟨t, .cons (.command h) trivial hgoes, hback⟩

theorem back_of_draining {batch : List PendingReplace} (h : s.loop = .draining batch) : Back disturb bufferSize s := by
  have hbatch : Back disturb bufferSize
      { s with loop := .executing batch (db.batchReplace ⟨0⟩ (batch.map PendingReplace.op)) } :=
        back_of_executing rfl
  obtain ⟨t, hgoes, hback⟩ := hbatch
  exact ⟨t, .cons (.batchReplace ⟨0⟩ h) trivial hgoes, hback⟩

theorem back (s : State db) : Back disturb bufferSize s := by
  cases h : s.loop with
  | receiving => exact ⟨s, .refl, h, rfl, Nat.le_refl _⟩
  | draining batch => exact back_of_draining h
  | executing batch rest => exact back_of_executing h
  | replying replies => exact back_of_replying h

/-- **The loop empties the channel**, by induction on its length. -/
theorem exists_rest (s : State db) : ∃ t, Goes disturb bufferSize s t ∧ t.line = [] ∧
    t.senders ≤ s.senders := by
  have hback : Back disturb bufferSize s := back s
  obtain ⟨t, hgoes, hloop, hqueue, hsenders⟩ := hback
  cases hq : s.queue with
  | nil => exact ⟨t, hgoes, by rw [State.line, hloop, hqueue, hq]; rfl, hsenders⟩
  | cons p q =>
    obtain ⟨u, hgoes', hline, hsenders'⟩ := exists_rest { t with loop := .draining [p], queue := q }
    exact ⟨u, hgoes.trans (.cons (.recv hloop (hqueue.trans hq)) trivial hgoes'), hline, hsenders'.trans hsenders⟩
termination_by s.queue.length
decreasing_by simp [hq]

/-- Nobody waits any more. -/
def Quiet (s : State db) : Prop := ∀ c ∈ s.callers, ¬ c.Waits

/-- **Every call comes to an end**, by induction on the number of those that wait for a slot. -/
theorem exists_quiet (hstore : ∀ now ops,
    InOrder db.serve perform [] (ops.map fun op => (now, op)) (db.batchReplace now ops))
    (hbuffer : 0 < bufferSize) {as : List (Act ω)} {s : State db}
    (h : Run (Step db disturb bufferSize) (.start db store₀) as s) :
    ∃ t, Goes disturb bufferSize s t ∧ t.line = [] ∧ Quiet t := by
  have hrest : ∃ t, Goes disturb bufferSize s t ∧ t.line = [] ∧ t.senders ≤ s.senders := exists_rest s
  obtain ⟨t, ⟨bs, hrun, hbs⟩, hline, hsenders⟩ := hrest
  obtain ⟨events, settled, acc, -, hacc⟩ := Inv.of_run hstore (h.append hrun)
  by_cases hzero : t.senders = 0
  · refine ⟨t, ⟨bs, hrun, hbs⟩, hline, fun c hc hwaits => ?_⟩
    obtain ⟨i, hi⟩ := List.mem_iff_getElem?.1 hc
    cases c with
    | sending op => exact absurd rfl (List.countP_eq_zero.1 hzero _ hc)
    | awaiting =>
      have hmem := hacc.awaiting hi
      rw [hline] at hmem
      cases hmem
    | answered r => exact hwaits
    | left => exact hwaits
  · obtain ⟨c, hc, hsending⟩ := List.countP_pos_iff.1 (Nat.pos_of_ne_zero hzero)
    obtain ⟨i, hi⟩ := List.mem_iff_getElem?.1 hc
    cases c with
    | sending op =>
      have hroom : t.queue.length < bufferSize := by
        rw [(List.append_eq_nil_iff.1 hline).2]
        exact hbuffer
      have hsend : Step db disturb bufferSize t (.send ⟨op, i⟩) _ := Step.send hi hroom
      have hless : (t.callers.set i .awaiting).countP Caller.isSending < t.senders := by
        obtain ⟨hlt, hget⟩ := List.getElem?_eq_some_iff.1 hi
        have hset := List.countP_set (p := Caller.isSending) (a := Caller.awaiting) hlt
        rw [hget] at hset
        simp only [Caller.isSending, if_true, Bool.false_eq_true, if_false] at hset
        unfold State.senders at hzero ⊢
        omega
      obtain ⟨u, hgoes, hquiet⟩ := exists_quiet hstore hbuffer ((h.append hrun).append (.cons hsend (.nil _)))
      exact ⟨u, Goes.trans ⟨bs, hrun, hbs⟩ (.cons hsend trivial hgoes), hquiet⟩
    | awaiting => cases hsending
    | answered r => cases hsending
    | left => cases hsending
termination_by s.senders
decreasing_by exact Nat.lt_of_lt_of_le hless hsenders

/-! ## The law -/

/-- What a run of callers and loop, from `store₀`, comes to. `events` is what reached the store: the jobs,
and the writes of others where they fell among them. -/
structure Transparent (perform : Job → σ → ReplaceResult × σ) (disturb : ω → σ → σ)
    (bufferSize : Nat) (store₀ : σ)
    (as : List (Act ω)) (s : State db) (events : List (JobEvent Job ω)) : Prop where
  /-- A job for every command of the loop, in its place among the writes of others. -/
  shape : events.map JobEvent.other? = as.filterMap Act.write?
  alone : (∀ w, .other w ∉ as) → events = (jobs events).map .job
  /-- The jobs are the first of the accepted ops, in queue order, and the others are in line. -/
  order : ∃ n, (jobs events).map Prod.snd = ((accepted as).take n).map PendingReplace.op ∧
    (accepted as).drop n <:+ s.line
  clock : ∀ j ∈ jobs events, .batchReplace j.1 ∈ as
  store : s.store = (JobEvent.oneAtATime perform disturb events store₀).2
  /-- An accepted op is what its caller asked for, and no caller has two. -/
  asked : (∀ p ∈ accepted as, Asks (requests as) p.reply p.op) ∧ ((accepted as).map PendingReplace.reply).Nodup
  /-- A caller hears that it was refused, or the result of its own op. -/
  answered : ∀ i r, s.callers[i]? = some (.answered r) → Refuses (requests as) i r ∨
    ∃ (n : Nat) (p : PendingReplace) (res : ReplaceResult), (accepted as)[n]? = some p ∧
      (JobEvent.oneAtATime perform disturb events store₀).1[n]? = some res ∧ p.reply = i ∧ r = replyOf res
  /-- When the line is empty every op was done. -/
  all : s.line = [] → (jobs events).map Prod.snd = (accepted as).map PendingReplace.op
  /-- From here the loop empties the line and answers every call. -/
  ends : ∃ t, Goes disturb bufferSize s t ∧ t.line = [] ∧ Quiet t

/-- How many of the accepted ops were done. -/
theorem Told.order (h : Told perform disturb store₀ as s events settled acc)
    (haccounts : Accounts (requests as) (accepted as) settled s.callers s.line) :
    (jobs events).map Prod.snd = ((accepted as).take (settled.length + acc.length)).map PendingReplace.op ∧
      (accepted as).drop (settled.length + acc.length) <:+ s.line := by
  have hsuffix : (accepted as).drop (settled.length + acc.length) <:+ s.line := by
    rw [haccounts.split, ← List.length_map Prod.fst, List.drop_length_add_append]
    exact List.drop_suffix _ _
  refine ⟨?_, hsuffix⟩
  have hprefix : ∃ rest, (jobs events).map Prod.snd ++ rest = (accepted as).map PendingReplace.op := by
    have hat := h.loop
    rw [haccounts.split, State.line]
    cases hl : s.loop with
    | receiving =>
      rw [hl] at hat
      exact ⟨_, by rw [hat.2, List.map_append]⟩
    | draining batch =>
      rw [hl] at hat
      exact ⟨_, by rw [hat.2, List.map_append]⟩
    | executing batch rest =>
      rw [hl] at hat
      obtain ⟨todo, -, hops, -⟩ := hat
      refine ⟨todo.map Prod.snd ++ s.queue.map PendingReplace.op, ?_⟩
      rw [← List.append_assoc, ← List.map_append, hops, ← List.map_append, List.append_assoc]
      rfl
    | replying replies =>
      rw [hl] at hat
      refine ⟨s.queue.map PendingReplace.op, ?_⟩
      rw [hat.2, ← List.map_append, List.append_assoc]
      rfl
  obtain ⟨rest, hrest⟩ := hprefix
  rw [List.map_take, ← hrest, ← h.length, ← List.length_map Prod.snd, List.take_left]

/-- **The batcher is transparent.** `perform` is the replacement of one op, and `batch_replace` does
those of a batch one after another, with one result each, in order. Then whatever the callers, the cuts
of the queue and the writes of other clients, a run does what the accepted ops do one at a time. -/
theorem batcher_transparent (db : LedgerStore σ) (perform : Job → σ → ReplaceResult × σ)
    (disturb : ω → σ → σ) (bufferSize : Nat)
    (hstore : ∀ now ops, InOrder db.serve perform [] (ops.map fun op => (now, op)) (db.batchReplace now ops))
    (hbuffer : 0 < bufferSize) (store₀ : σ) (as : List (Act ω)) (s : State db)
    (h : Run (Step db disturb bufferSize) (.start db store₀) as s) :
    ∃ events, Transparent perform disturb bufferSize store₀ as s events := by
  obtain ⟨events, settled, acc, htold, hacc⟩ := Inv.of_run hstore h
  refine ⟨events, ?_⟩
  obtain ⟨horder, hsuffix⟩ := htold.order hacc
  exact {
    shape := htold.shape
    alone := by
      intro hnone
      refine JobEvent.eq_jobs (List.filterMap_eq_nil_iff.2 fun e he => ?_)
      cases hw : e.other? with
      | none => rfl
      | some w =>
        have hmem : some w ∈ as.filterMap Act.write? := htold.shape ▸ hw ▸ List.mem_map_of_mem he
        obtain ⟨a, ha, hwrite⟩ := List.mem_filterMap.1 hmem
        cases a with
        | other w' => exact absurd ha (hnone w')
        | _ => cases hwrite
    order := ⟨_, horder, hsuffix⟩
    clock := htold.clock
    store := by rw [htold.did]
    asked := ⟨hacc.own, hacc.nodup⟩
    answered := by
      intro i r hi
      refine (hacc.answered hi).imp id ?_
      rintro ⟨p, res, hmem, hreply, hr⟩
      obtain ⟨n, hn⟩ := List.mem_iff_getElem?.1 hmem
      have hlt : n < settled.length := (List.getElem?_eq_some_iff.1 hn).1
      refine ⟨n, p, res, ?_, ?_, hreply, hr⟩
      · rw [hacc.split, List.getElem?_append_left (by rwa [List.length_map]), List.getElem?_map, hn]
        rfl
      · rw [htold.did, List.getElem?_append_left (by rwa [List.length_map]), List.getElem?_map, hn]
        rfl
    all := by
      intro hline
      rw [hline, List.suffix_nil] at hsuffix
      rw [horder, List.take_of_length_le (List.drop_eq_nil_iff.1 hsuffix)]
    ends := exists_quiet hstore hbuffer h }

end

/-! ## On Redis -/

def redisStore (chrono : Codec) (pipelineError : String) : LedgerStore Redis.Db :=
  ⟨RedisStore.ReplaceArgs, fun _ => Redis.Reply, RedisStore.replaceLua,
    RedisStore.batchReplace chrono pipelineError⟩

theorem Request.caller_of_ok {q : Request} {op : ReplaceOp TokenRecord} (h : q.op? = .ok op) :
    q.caller = .sending op := by
  rw [Request.caller, h]

namespace TwoCalls

open Webycash.Sample (token)

/-- Two calls that spend one token. -/
def first : Request := ⟨⟨⟨0⟩, "first"⟩, [token "1" 'a'], [token "1" 'b']⟩

def second : Request := ⟨⟨⟨0⟩, "second"⟩, [token "1" 'a'], [token "1" 'c']⟩

/-- The first call and the second, to the end of the batch that holds both. -/
def bothInOneBatch (p p' : PendingReplace) : List (Act Unit) :=
  [.replace first, .replace second, .send p, .send p', .recv, .tryRecv, .batchReplace ⟨0⟩] ++
    [.command, .command, .zip] ++
    [.reply, .reply, .again]

def store : LedgerStore Redis.Db := redisStore .atEpoch "connection reset"

theorem exists_op : ∀ q ∈ [first, second], ∃ op, q.op? = .ok op := by
  have hok : ∀ q ∈ [first, second], q.op?.toOption.isSome := by decide +kernel
  intro q hq
  have hsome := hok q hq
  cases h : q.op? with
  | ok op => exact ⟨op, rfl⟩
  | error e =>
    rw [h] at hsome
    cases hsome

/-- Two callers wait on a batch of two. -/
theorem run_batch (p p' : PendingReplace) (db : Redis.Db) (callers : List Caller) : ∃ s,
    Run (Step store (fun (_ : Unit) => id) 100000)
      ⟨db, callers, [], .executing [p, p'] (store.batchReplace ⟨0⟩ [p.op, p'.op])⟩
      ([.command, .command, .zip] ++ [.reply, .reply, .again]) s ∧ s.line = [] := by
  have hzip : ∃ db' results, results.length = 2 ∧ Run (Step store (fun (_ : Unit) => id) 100000)
      ⟨db, callers, [], .executing [p, p'] (store.batchReplace ⟨0⟩ [p.op, p'.op])⟩ [.command, .command, .zip]
      ⟨db', callers, [], .replying (answers [p, p'] results)⟩ := by
    refine ⟨_, _, ?_, .cons (.command rfl) (.cons (.command rfl) (.cons (.zip rfl) (.nil _)))⟩
    split <;> rfl
  obtain ⟨db', results, hlen, hzip⟩ := hzip
  obtain ⟨x, y, rfl⟩ := List.length_eq_two.1 hlen
  exact ⟨_, hzip.append (.cons (.reply rfl) (.cons (.reply rfl) (.cons (.again rfl) (.nil _)))), rfl⟩

end TwoCalls

open TwoCalls

/-- Both calls go out in one batch, which spends one token twice. -/
theorem two_calls_one_batch : ∃ (p p' : PendingReplace) (s : State store) (events : List (JobEvent Job Unit)),
    p.reply = 0 ∧ p'.reply = 1 ∧ s.line = [] ∧
      Transparent (RedisStore.performReplace .atEpoch) (fun _ => id) 100000 .empty (bothInOneBatch p p') s events := by
  obtain ⟨op, hop⟩ := exists_op first (by simp)
  obtain ⟨op', hop'⟩ := exists_op second (by simp)
  have hbatch : Run (Step store (fun (_ : Unit) => id) 100000) (.start _ .empty)
      [.replace first, .replace second, .send ⟨op, 0⟩, .send ⟨op', 1⟩, .recv, .tryRecv, .batchReplace ⟨0⟩]
      ⟨.empty, [.awaiting, .awaiting], [],
        .executing [⟨op, 0⟩, ⟨op', 1⟩] (store.batchReplace ⟨0⟩ [op, op'])⟩ := by
    refine .cons (.replace _) (.cons (.replace _) (.cons (.send ?_ ?_) (.cons (.send ?_ ?_) (.cons (.recv rfl rfl)
      (.cons (.tryRecv rfl rfl) (.cons (.batchReplace _ rfl) (.nil _)))))))
    · exact congrArg some (Request.caller_of_ok hop)
    · exact Nat.zero_lt_succ _
    · exact congrArg some (Request.caller_of_ok hop')
    · exact Nat.succ_lt_succ (Nat.zero_lt_succ _)
  obtain ⟨s, hrest, hline⟩ := run_batch ⟨op, 0⟩ ⟨op', 1⟩ .empty [.awaiting, .awaiting]
  have hrun : Run (Step store (fun (_ : Unit) => id) 100000) (.start _ .empty)
      (bothInOneBatch ⟨op, 0⟩ ⟨op', 1⟩) s := by
    rw [bothInOneBatch, List.append_assoc]
    exact hbatch.append hrest
  obtain ⟨events, h⟩ := batcher_transparent store (RedisStore.performReplace .atEpoch) (fun _ => id) 100000
    RedisStore.batchReplace_inOrder (by decide) .empty _ s hrun
  exact ⟨_, _, s, events, rfl, rfl, hline, h⟩

end Webycash.Legacy.Batcher
