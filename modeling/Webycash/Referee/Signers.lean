import Webycash.Referee.Exclusion
/-!
# A nonce signs at most once

The table of live sessions alone, under any order of calls: a signature is made with the nonce of
the session begun last for its key, and no signature before it was (`signature_of_session`). Nothing
in the table keeps a key from being begun again once it has signed; that the orchestrator does not
is a matter of its starts, each of which begins every session of its own swap at most once and
before anything else (`SignsOnce`).
-/

namespace Webycash.Referee

open Prog

/-! ## The table -/

/-- A call that is carried out, with what it answers. -/
def Performs (sv : Services) (w : World) (m : Made (fun c => Except RefereeError (Call.Result c)) Answer)
    (w' : World) : Prop :=
  World.perform sv m.call m.answer w = (m.result, w')

/-- The call neither begins the session nor signs with it. -/
def LeavesAlone (id : SwapId) (session : Session) (m : Made (fun c => Except RefereeError (Call.Result c)) Answer) :
    Prop :=
  (∀ a nonce, m ≠ ⟨.beginSession id session, a, .ok nonce⟩) ∧
    ∀ tx pk n a sig, m ≠ ⟨.partialSign id session tx pk n, a, .ok sig⟩

/-- The session with this seed is the last one begun for the key, and has not signed since. -/
def Unused (made : List (Made (fun c => Except RefereeError (Call.Result c)) Answer)) (id : SwapId) (session : Session)
    (seed : Nat) : Prop :=
  ∃ before a nonce since, made = before ++ ⟨.beginSession id session, a, .ok nonce⟩ :: since ∧ a.seed = seed ∧
    ∀ m ∈ since, LeavesAlone id session m

variable {sv : Services} {o : Orchestrator} {id : SwapId} {session : Session} {seed : Nat} {r : Request}
  {g : Stage} {c : Call}
  {a : Answer} {w w' : World} {made : List (Made (fun c => Except RefereeError (Call.Result c)) Answer)}

theorem Unused.keep {m : Made (fun c => Except RefereeError (Call.Result c)) Answer} (h : Unused made id session seed)
    (hm : LeavesAlone id session m) : Unused (made ++ [m]) id session seed := by
  obtain ⟨before, a, nonce, since, rfl, hseed, hsince⟩ := h
  refine ⟨before, a, nonce, since ++ [m], by simp, hseed, fun m' hm' => ?_⟩
  rcases List.mem_append.1 hm' with hm' | hm'
  · exact hsince m' hm'
  · exact List.mem_singleton.1 hm' ▸ hm

/-- **Beginning a live session again** fails and leaves it as it is. -/
theorem perform_begin_live (h : (id, session) ∈ w.live) :
    World.perform sv (.beginSession id session) a w = (.error (.musig2 (sv.signer.alreadyBegun id session)), w) := by
  rw [World.perform, if_pos h]

/-- A signature comes out of a live session, which is gone after it. -/
theorem perform_sign_ok {tx : List UInt8} {pk : Secp256k1Pubkey} {n : PubNonce} {sig : PartialSig}
    (h : World.perform sv (.partialSign id session tx pk n) a w = (.ok sig, w')) :
    (∃ seed, w.live.lookup (id, session) = some seed ∧ sv.signer.sign id session seed tx pk n = .ok sig) ∧
      w'.live.lookup (id, session) = none := by
  unfold World.perform at h
  dsimp only at h
  cases hlive : w.live.lookup (id, session) with
  | none =>
    rw [hlive] at h
    cases h
  | some seed =>
    rw [hlive] at h
    dsimp only at h
    cases hsig : sv.signer.sign id session seed tx pk n with
    | error e =>
      rw [hsig] at h
      cases h
    | ok sig' =>
      rw [hsig] at h
      cases h
      exact ⟨⟨seed, rfl, hsig⟩, Finmap.lookup_erase _ _⟩

/-- A session that is live after a call was live before it, or the call began it. -/
theorem live_perform (h : (World.perform sv c a w).2.live.lookup (id, session) = some seed) :
    w.live.lookup (id, session) = some seed ∨
      (c = .beginSession id session ∧ a.seed = seed ∧ w.live.lookup (id, session) = none) := by
  cases c with
  | beginSession i s =>
    unfold World.perform at h
    dsimp only at h
    split at h
    · exact .inl h
    · rename_i hnot
      rw [FMap.lookup_insert_ite] at h
      split at h
      · rename_i hkey
        cases hkey
        cases h
        exact .inr ⟨rfl, rfl, Finmap.lookup_eq_none.2 hnot⟩
      · exact .inl h
  | partialSign i s tx pk n =>
    have herase : ∀ {w' : World}, w'.live = w.live.erase (i, s) → w'.live.lookup (id, session) = some seed →
        w.live.lookup (id, session) = some seed := by
      intro w' hw' h
      rw [hw'] at h
      have hne : (id, session) ≠ (i, s) := (Finmap.mem_erase.1 (Finmap.mem_of_lookup_eq_some h)).1
      rwa [Finmap.lookup_erase_ne hne] at h
    unfold World.perform at h
    dsimp only at h
    split at h
    · exact .inl h
    · split at h <;> exact .inl (herase rfl h)
  | discardSession i s =>
    have hne : (id, session) ≠ (i, s) := (Finmap.mem_erase.1 (Finmap.mem_of_lookup_eq_some h)).1
    refine .inl ?_
    rw [← h]
    exact (Finmap.lookup_erase_ne hne).symm
  | _ => exact .inl h

/-- What the calls made so far say of the table, and of the signatures made. -/
structure Accounted (sv : Services) (made : List (Made (fun c => Except RefereeError (Call.Result c)) Answer))
    (w : World) : Prop where
  live : ∀ id session seed, w.live.lookup (id, session) = some seed → Unused made id session seed
  signed : ∀ before after id session tx pk n a sig, made = before ++
    ⟨.partialSign id session tx pk n, a, .ok sig⟩ :: after →
    ∃ seed, Unused before id session seed ∧ sv.signer.sign id session seed tx pk n = .ok sig

theorem Accounted.step {m : Made (fun c => Except RefereeError (Call.Result c)) Answer} (h : Accounted sv made w)
    (hm : Performs sv w m w') : Accounted sv (made ++ [m]) w' := by
  refine ⟨fun id session seed hlive => ?_, fun before after id session tx pk n a sig hmade => ?_⟩
  · obtain ⟨c, a, res⟩ := m
    have hworld : (World.perform sv c a w).2 = w' := congrArg Prod.snd hm
    rcases live_perform (hworld ▸ hlive) with hold | ⟨rfl, rfl, hnew⟩
    · refine (h.live id session seed hold).keep ⟨fun a' nonce he => ?_, fun tx pk n a' sig he => ?_⟩
      · cases he
        rw [Performs, perform_begin_live (Finmap.mem_of_lookup_eq_some hold)] at hm
        cases hm
      · cases he
        rw [(perform_sign_ok hm).2] at hlive
        cases hlive
    · have hres : res = .ok (sv.signer.pubNonce id session a.seed) := by
        rw [Performs, World.perform, if_neg (Finmap.lookup_eq_none.1 hnew)] at hm
        exact (congrArg Prod.fst hm).symm
      subst hres
      exact ⟨made, a, _, [], rfl, rfl, fun _ hm' => absurd hm' List.not_mem_nil⟩
  · rcases List.eq_nil_or_concat after with rfl | ⟨rest, last, rfl⟩
    · obtain ⟨rfl, hlast⟩ := List.append_inj' hmade rfl
      obtain rfl := List.singleton_inj.1 hlast
      obtain ⟨seed, hlive, hsig⟩ := (perform_sign_ok hm).1
      exact ⟨seed, h.live id session seed hlive, hsig⟩
    · rw [List.concat_eq_append, ← List.cons_append, ← List.append_assoc] at hmade
      obtain ⟨hmade, -⟩ := List.append_inj' hmade rfl
      exact h.signed before rest id session tx pk n a sig hmade

/-- **One signature a session**: each is made with the seed of the session begun last for its key,
which has not signed before. -/
theorem signature_of_session (h0 : w.live = ∅) (h : Run (Performs sv) w made w') : Accounted sv made w' := by
  refine Run.history (I := fun made w => Accounted sv made w) ⟨fun id session seed hlive => ?_,
    fun before after _ _ _ _ _ _ _ hmade => ?_⟩
    (fun _ _ _ _ _ hI hm => hI.step hm) h
  · rw [h0] at hlive
    cases hlive
  · simp at hmade

/-! ## The orchestrator -/

/-- A step of any calls; a start has an id that no start had before. -/
def Calls.NewStep (sv : Services) (o : Orchestrator) (p : Calls) (act : Act Answer Request) (p' : Calls) : Prop :=
  p.Step sv o act p' ∧ ∀ id req, act = .spawn (.start id req) →
    ∀ t ∈ p.threads, t.tag.IsStart → t.tag.id ≠ id

/-- No start begins a session that is live or has signed. -/
structure SignsOnce (p : Calls) : Prop where
  conforms : p.Conforms protocol Request.initial World.WellFormed fun _ => Ends
  starts : ∀ (i j : Nat) (t t' : CallThread), p.threads[i]? = some t → p.threads[j]? = some t' →
    t.tag.IsStart → t'.tag.IsStart →
    t.tag.id = t'.tag.id → i = j
  known : ∀ id s, (id, s) ∈ p.world.live ∨ (id, s) ∈ p.world.signed →
    ∃ t ∈ p.threads, t.tag.IsStart ∧ t.tag.id = id
  begun : ∀ id s, (id, s) ∈ p.world.live ∨ (id, s) ∈ p.world.signed →
    ∀ t ∈ p.threads, t.tag.IsStart → t.tag.id = id → ¬ (stageOf t).Begins s
  unsigned : ∀ id s, (id, s) ∈ p.world.live → (id, s) ∉ p.world.signed
  once : p.world.signed.Nodup

theorem not_begins_written {phase : Phase} {fields : SwapFields} {seen : Seen} :
    ¬ (Stage.written phase fields seen).Begins session := by
  unfold Stage.written
  split
  · exact id
  · split <;> exact id

/-- A start that may begin a session could begin it before its last call too, which did not. -/
theorem begins_next (hc : g.allows r c) (h : (g.next c (World.serve sv c a w).1).Begins session) :
    g.Begins session ∧ c ≠ .beginSession r.id session := by
  have hne : c ≠ .beginSession r.id session := by
    rintro rfl
    cases g with
    | fresh begun =>
      cases hres : (World.serve sv (.beginSession r.id session) a w).1 with
      | ok nonce =>
        rw [hres] at h
        exact h List.mem_cons_self
      | error e =>
        rw [hres] at h
        exact h
    | _ => exact hc.2.2
  have hmoves := moves sv a w hc
  generalize g.next c (World.serve sv c a w).1 = g' at hmoves h
  cases hmoves with
  | stays => exact ⟨h, hne⟩
  | begun => exact ⟨fun hs => h (List.mem_cons_of_mem _ hs), hne⟩
  | wrote => exact absurd h not_begins_written
  | _ => exact h.elim

variable {p p' : Calls} {act : Act Answer Request}

theorem SignsOnce.empty : SignsOnce ⟨World.empty, []⟩ where
  conforms := conforms_empty
  starts _ _ _ _ h := nomatch h
  known _ _ h := by rcases h with h | h <;> cases h
  begun _ _ _ _ h := nomatch h
  unsigned _ _ h := by cases h
  once := List.nodup_nil

/-- What a call does to a session. -/
theorem session_cases (hc : g.allows r c) (id : SwapId) (s : Session) :
    ((id, s) ∈ (World.serve sv c a w).2.live ∨ (id, s) ∈ (World.serve sv c a w).2.signed →
      (id, s) ∈ w.live ∨ (id, s) ∈ w.signed) ∨
      (c = .beginSession id s ∧ id = r.id ∧ r.IsStart ∧ g.Begins s) := by
  by_cases hbegin : c = .beginSession id s
  · subst hbegin
    exact .inr ⟨rfl, hc⟩
  · refine .inl fun h => ?_
    rcases World.serve_signed sv c a w with ⟨hsigned, hlive⟩ | ⟨i, session, tx, pk, n, -, hmem, hsigned, hlive⟩
    · rw [hsigned] at h
      exact h.imp_left fun h => (hlive _ h).resolve_right hbegin
    · rw [hsigned, hlive] at h
      rcases h with h | h
      · exact .inl (Finmap.mem_erase.1 h).2
      · rcases List.mem_cons.1 h with h | h
        · exact .inl (h ▸ hmem)
        · exact .inr h

/-- The request of every call stays. -/
theorem exists_tag_turn {ts : List CallThread} {i : Nat} {t x : CallThread} (t' : CallThread) (hi : ts[i]? = some t)
    (htag : t'.tag = t.tag) (hx : x ∈ ts) : ∃ y ∈ ts.set i t', y.tag = x.tag := by
  obtain ⟨j, hj⟩ := List.getElem?_of_mem hx
  by_cases hji : j = i
  · subst hji
    rw [hi] at hj
    cases hj
    exact ⟨t', List.mem_set (List.getElem?_eq_some_iff.1 hi).1 _, htag⟩
  · refine ⟨x, List.mem_of_getElem? (i := j) ?_, rfl⟩
    rw [List.getElem?_set_ne (Ne.symm hji), hj]

theorem SignsOnce.spawn (hp : SignsOnce p)
    (hconf : (⟨p.world, p.threads ++ [⟨r, [], program o r⟩]⟩ : Calls).Conforms protocol
      Request.initial World.WellFormed fun _ => Ends)
    (hnew : r.IsStart → ∀ t ∈ p.threads, t.tag.IsStart → t.tag.id ≠ r.id) :
    SignsOnce ⟨p.world, p.threads ++ [⟨r, [], program o r⟩]⟩ where
  conforms := hconf
  starts i j t t' hi hj hs hs' hid := by
    have hcases : ∀ {i : Nat} {t : CallThread}, (p.threads ++ [⟨r, [], program o r⟩])[i]? = some t →
        p.threads[i]? = some t ∨ (i = p.threads.length ∧ t.tag = r) := by
      intro i t hi
      rcases Nat.lt_or_ge i p.threads.length with hlt | hge
      · rw [List.getElem?_append_left hlt] at hi
        exact .inl hi
      · rw [List.getElem?_append_right hge] at hi
        obtain ⟨hzero, ht⟩ := List.getElem?_eq_some_iff.1 hi
        rw [List.length_singleton] at hzero
        refine .inr ⟨by omega, ?_⟩
        rw [← ht, List.getElem_singleton]
    rcases hcases hi with hi | ⟨rfl, hr⟩ <;> rcases hcases hj with hj | ⟨rfl, hr'⟩
    · exact hp.starts i j t t' hi hj hs hs' hid
    · exact absurd (hid.trans (congrArg Request.id hr')) (hnew (hr' ▸ hs') t (List.mem_of_getElem? hi) hs)
    · exact absurd (hid.symm.trans (congrArg Request.id hr)) (hnew (hr ▸ hs) t' (List.mem_of_getElem? hj) hs')
    · rfl
  known id s h := by
    obtain ⟨t, ht, hs, hid⟩ := hp.known id s h
    exact ⟨t, List.mem_append_left _ ht, hs, hid⟩
  begun id s h t ht hs hid := by
    rcases List.mem_append.1 ht with ht | ht
    · exact hp.begun id s h t ht hs hid
    · obtain rfl := List.mem_singleton.1 ht
      obtain ⟨t', ht', hs', hid'⟩ := hp.known id s h
      exact absurd (hid'.trans hid.symm) (hnew hs t' ht' hs')
  unsigned := hp.unsigned
  once := hp.once

theorem SignsOnce.turn (hp : SignsOnce p) {i : Nat} {k : Except RefereeError c.Result → Prog _ _}
    (ht : p.threads[i]? = some ⟨r, made, .call c k⟩)
    (hconf : (⟨(World.serve sv c a p.world).2,
      p.threads.set i ⟨r, made ++ [⟨c, a, (World.serve sv c a p.world).1⟩],
      k (World.serve sv c a p.world).1⟩⟩ : Calls).Conforms protocol Request.initial World.WellFormed
        fun _ => Ends) :
    SignsOnce ⟨(World.serve sv c a p.world).2,
      p.threads.set i ⟨r, made ++ [⟨c, a, (World.serve sv c a p.world).1⟩],
      k (World.serve sv c a p.world).1⟩⟩ := by
  have hc : (stageOf ⟨r, made, .call c k⟩).allows r c := hp.conforms.allows ht
  have hmem := List.mem_of_getElem? ht
  have hbegun : ∀ id s, id = r.id → r.IsStart → (stageOf ⟨r, made, .call c k⟩).Begins s →
      (id, s) ∉ p.world.live ∧ (id, s) ∉ p.world.signed := fun id s hid hs hb =>
    ⟨fun h => hp.begun id s (.inl h) _ hmem hs hid.symm hb, fun h => hp.begun id s (.inr h) _ hmem hs hid.symm hb⟩
  constructor
  case conforms => exact hconf
  case starts =>
    intro j j' t t' hj hj' hs hs' hid
    rcases getElem?_turn ht hj with ⟨rfl, rfl⟩ | ⟨-, hold⟩ <;> rcases getElem?_turn ht hj' with
      ⟨rfl, rfl⟩ | ⟨-, hold'⟩
    · rfl
    · exact hp.starts _ _ _ _ ht hold' hs hs' hid
    · exact hp.starts _ _ _ _ hold ht hs hs' hid
    · exact hp.starts _ _ _ _ hold hold' hs hs' hid
  case known =>
    intro id s h
    rcases session_cases hc id s with hold | ⟨-, hid, hs, -⟩
    · obtain ⟨t, htm, hs, hid⟩ := hp.known id s (hold h)
      obtain ⟨y, hy, htag⟩ := exists_tag_turn ⟨r, made ++ [⟨c, a, (World.serve sv c a p.world).1⟩],
        k (World.serve sv c a p.world).1⟩ ht rfl htm
      exact ⟨y, hy, htag ▸ hs, htag ▸ hid⟩
    · exact ⟨_, List.mem_set (List.getElem?_eq_some_iff.1 ht).1 _, hs, hid.symm⟩
  case begun =>
    intro id s h t htm hs hid hb
    obtain ⟨j, hj⟩ := List.getElem?_of_mem htm
    rcases getElem?_turn ht hj with ⟨rfl, rfl⟩ | ⟨hne, hj⟩
    · have hnext : ((stageOf ⟨r, made, .call c k⟩).next c (World.serve sv c a p.world).1).Begins s := by
        rw [stageOf, Thread.state_turn (.call c k)] at hb
        exact hb
      obtain ⟨hb', hne⟩ := begins_next hc hnext
      rcases session_cases hc id s with hold | ⟨hbegin, hid', -, -⟩
      · obtain ⟨hlive, hsigned⟩ := hbegun id s hid.symm hs hb'
        exact (hold h).elim hlive hsigned
      · exact hne (hid' ▸ hbegin)
    · rcases session_cases hc id s with hold | ⟨-, hid', hs', -⟩
      · exact hp.begun id s (hold h) t (List.mem_of_getElem? hj) hs hid hb
      · exact hne (hp.starts j i t _ hj ht hs hs' (hid.trans hid'))
  case unsigned =>
    intro id s hlive hsigned
    rcases World.serve_signed sv c a p.world with ⟨hsame, hcases⟩ | ⟨i', s', tx, pk, n, -, -, hcons, herase⟩
    · rw [hsame] at hsigned
      rcases hcases _ hlive with hold | rfl
      · exact hp.unsigned id s hold hsigned
      · exact (hbegun id s hc.1 hc.2.1 hc.2.2).2 hsigned
    · rw [herase] at hlive
      rw [hcons] at hsigned
      obtain ⟨hne, hold⟩ := Finmap.mem_erase.1 hlive
      exact hp.unsigned id s hold ((List.mem_cons.1 hsigned).resolve_left hne)
  case once =>
    rcases World.serve_signed sv c a p.world with ⟨hsame, -⟩ | ⟨i', s', tx, pk, n, -, hlive, hcons, -⟩
    · rw [hsame]
      exact hp.once
    · rw [hcons]
      exact List.nodup_cons.2 ⟨hp.unsigned i' s' hlive, hp.once⟩

/-- **One step.** -/
theorem SignsOnce.step (h : p.NewStep sv o act p') (hp : SignsOnce p) : SignsOnce p' := by
  obtain ⟨hstep, hnew⟩ := h
  have hconf := conforms_step hstep hp.conforms
  rcases Pool.step_cases hstep with ⟨r, rfl, rfl⟩ | ⟨i, a, r, made, c, k, rfl, ht, rfl⟩
  · refine hp.spawn hconf ?_
    rintro ⟨id, req, rfl⟩
    exact hnew id req rfl
  · exact hp.turn ht hconf

/-- **A nonce signs at most once.** For every signer: in every order of its calls a signature is made
with the seed of the session begun last for its key, which has made none before; a session that is
live is not begun again, and stays. In every interleaving of calls to the orchestrator whose starts
have new ids, with any answers and failures, no swap is signed for twice in one session. -/
theorem nonce_signs_once (sv : Services) (o : Orchestrator) :
    (∀ w w' made, w.live = ∅ → Run (Performs sv) w made w' →
      ∀ before after id session tx pk n a sig, made = before ++
        ⟨.partialSign id session tx pk n, a, .ok sig⟩ :: after →
        ∃ seed, Unused before id session seed ∧ sv.signer.sign id session seed tx pk n = .ok sig) ∧
    (∀ w id session a, (id, session) ∈ w.live →
      World.perform sv (.beginSession id session) a w = (.error (.musig2 (sv.signer.alreadyBegun id session)), w)) ∧
    ∀ acts p, Run (Calls.NewStep sv o) ⟨World.empty, []⟩ acts p → p.world.signed.Nodup := by
  refine ⟨fun w w' made h0 h => (signature_of_session h0 h).signed, fun w id session a h => perform_begin_live h,
    fun acts p h => ?_⟩
  exact (Run.invariant (I := SignsOnce) (fun _ _ _ hs hp => hp.step hs) h .empty).once

end Webycash.Referee
