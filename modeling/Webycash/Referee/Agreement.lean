import Webycash.Referee.Chain
/-!
# Row and log (`referee/src/api/orchestrator.rs`)

Every transition appends its entry first and writes the row afterwards. In between the row is one
entry behind, and it stays behind where the write of the row fails: the call answers an error, and
the log is a phase ahead of the row (`settled_entry_without_row`). Nothing takes the entry back, and
the next call goes by the row.

An entry may also be ahead of its row by design: `start_swap` appends the zkps-verified and the
pre-checked entries before `verify_zkps` and `pre_check` look at the answers, and a rejected check
leaves the entry of the failed phase over the row of the last good one (docs/api.md, "Error
responses").

`row_agrees_with_log`: where every entry that gets into the log is answered, was not forbidden by
what the call had been told, and no collaborator fails before its row is written, the row and the
log of every swap say the same after every call.
-/

namespace Webycash.Referee

open Prog

/-! ## What is to hold between calls -/

/-- The row has the phase of the last entry, and its tip is the log's. No entry, no row. -/
structure World.Agrees (w : World) (id : SwapId) : Prop where
  phase : w.phaseOf id = (w.entriesFor id).getLast?.map AuditEntry.phase
  tip : ∀ tx, w.rows.lookup id = some tx → tx.stateBlob.inner.auditTipHex = w.tipFor id

/-- Rows and entries agree, and the entries of the two checks were earned: the proofs of the swap are
accepted, its `H_B` was found unspent. -/
structure Past.Consistent (sv : Services) (s : Past) : Prop where
  agrees : ∀ id, s.world.Agrees id
  verified : ∀ id, ∀ e ∈ s.world.entriesFor id, e.phase = .zkpsVerified →
    ∃ tx, s.world.rows.lookup id = some tx ∧
      ∀ circuit, sv.verify circuit (proofOf tx.stateBlob.inner circuit) = true
  unspent : ∀ id, ∀ e ∈ s.world.entriesFor id, e.phase = .preChecked →
    ∃ tx a, s.world.rows.lookup id = some tx ∧
      (⟨.check tx.stateBlob.inner.bob.hB, a, .ok .unspent⟩ : MadeCall) ∈ s.made

/-! ## The condition -/

/-- The answer forbids an entry of the phase. -/
def Forbids (m : MadeCall) : Phase → Prop
  | .zkpsVerified => ∃ circuit proof a, m = ⟨.verify circuit proof, a, .ok false⟩
  | .preChecked => ∃ hash a s, m = ⟨.check hash, a, .ok s⟩ ∧ s ≠ .unspent
  | _ => False

/-- Every entry that gets into the log is answered, was not forbidden by an answer before it, and up
to the write of a row after it no call fails. -/
def Recorded (made : Trace) : Prop := ∀ before e a res after, made = before ++ ⟨.append e, a, res⟩ :: after →
  CarriedOut ⟨.append e, a, res⟩ → (∃ tip, res = .ok tip) ∧ (∀ m ∈ before, ¬ Forbids m e.phase) ∧
    ∀ between m rest, after = between ++ m :: rest → (∀ m' ∈ between, m'.call.row? = none) →
      (∃ x, m.result = .ok x) ∨ ∃ tx, m.call = .upsert tx ∧ CarriedOut m

/-- One request served, the id of a start being a new one. -/
def Past.RecordedStep (sv : Services) (o : Orchestrator) (s : Past) (call : Request × (Nat → Answer))
    (s' : Past) : Prop :=
  s.Step sv o call s' ∧ (call.1.IsStart → s.world.entriesFor call.1.id = []) ∧
    Recorded ((program o call.1).run (World.serve sv) call.2 s.world).trace

theorem Recorded.of_append {made more : Trace} (h : Recorded (made ++ more)) : Recorded made := by
  rintro before e a res after rfl hdone
  obtain ⟨hok, hforbid, hfail⟩ := h before e a res (after ++ more) (List.append_assoc ..) hdone
  refine ⟨hok, hforbid, fun between m rest hafter hno => hfail between m (rest ++ more) ?_ hno⟩
  rw [hafter, List.append_assoc, List.cons_append]

/-! ## One swap -/

/-- The row as a call sees it. -/
def World.viewOf (w : World) (id : SwapId) : Option View :=
  (w.rows.lookup id).map fun tx => ⟨tx.phase, tx.stateBlob.inner⟩

/-- The row and the entries of one swap. -/
structure Kept (sv : Services) (made : Trace) (row : Option View) (es : List AuditEntry) : Prop where
  agrees : row.map (fun v => (v.phase, v.fields.auditTipHex)) = es.getLast?.map fun e => (e.phase, e.tipHash)
  verified : ∀ e ∈ es, e.phase = .zkpsVerified →
    ∃ v, row = some v ∧ ∀ circuit, sv.verify circuit (proofOf v.fields circuit) = true
  unspent : ∀ e ∈ es, e.phase = .preChecked →
    ∃ v a, row = some v ∧ (⟨.check v.fields.bob.hB, a, .ok .unspent⟩ : MadeCall) ∈ made

def Seen.ok (seen : Seen) : Circuit → Option Bool
  | .bobPayload => seen.okBob
  | .aliceSignature => seen.okAlice

/-- What the call has seen is what it was answered. -/
structure Heard (sv : Services) (made : Trace) (v : View) (seen : Seen) : Prop where
  verified : ∀ circuit b, seen.ok circuit = some b → sv.verify circuit (proofOf v.fields circuit) = b ∧
    ∃ a, (⟨.verify circuit (proofOf v.fields circuit), a, .ok b⟩ : MadeCall) ∈ made
  checked : ∀ s, seen.status = some s → ∃ a, (⟨.check v.fields.bob.hB, a, .ok s⟩ : MadeCall) ∈ made

section

variable {sv : Services} {made more : Trace} {row : Option View} {es : List AuditEntry} {v v' : View} {seen : Seen}
  {m : MadeCall} {phase : Phase}

theorem Kept.empty : Kept sv made none [] := ⟨rfl, fun _ h => (nomatch h), fun _ h => nomatch h⟩

theorem Kept.append (h : Kept sv made row es) (more : Trace) : Kept sv (made ++ more) row es := by
  refine ⟨h.agrees, h.verified, fun e he hphase => ?_⟩
  obtain ⟨v, a, hrow, hm⟩ := h.unspent e he hphase
  exact ⟨v, a, hrow, List.mem_append_left _ hm⟩

theorem Heard.nothing : Heard sv made v .nothing :=
  ⟨fun circuit _ h => (by cases circuit <;> cases h), fun _ h => nomatch h⟩

theorem Heard.append (h : Heard sv made v seen) (more : Trace) : Heard sv (made ++ more) v seen := by
  constructor
  · intro circuit b hb
    obtain ⟨hverify, a, hm⟩ := h.verified circuit b hb
    exact ⟨hverify, a, List.mem_append_left _ hm⟩
  · intro s hs
    obtain ⟨a, hm⟩ := h.checked s hs
    exact ⟨a, List.mem_append_left _ hm⟩

theorem Heard.append_left (h : Heard sv made v seen) (past : Trace) : Heard sv (past ++ made) v seen := by
  constructor
  · intro circuit b hb
    obtain ⟨hverify, a, hm⟩ := h.verified circuit b hb
    exact ⟨hverify, a, List.mem_append_right _ hm⟩
  · intro s hs
    obtain ⟨a, hm⟩ := h.checked s hs
    exact ⟨a, List.mem_append_right _ hm⟩

theorem proofOf_congr {s t : SwapFields} (h : s.SameTerms t) (circuit : Circuit) :
    proofOf t circuit = proofOf s circuit := by
  cases circuit
  · exact congrArg BobPayload.zkpPayload h.bob
  · exact congrArg AlicePayload.zkpSignature h.alice

theorem Heard.congr (h : Heard sv made v seen) (hterms : v.fields.SameTerms v'.fields) : Heard sv made v' seen := by
  constructor
  · intro circuit b hb
    rw [proofOf_congr hterms]
    exact h.verified circuit b hb
  · intro s hs
    rw [hterms.bob]
    exact h.checked s hs

/-- Another answer of the verifier. -/
theorem Heard.verify (h : Heard sv made v seen) (circuit : Circuit) {seen' : Seen} {a : Answer}
    (hok : seen'.ok circuit = some (sv.verify circuit (proofOf v.fields circuit)))
    (hother : ∀ c, c ≠ circuit → seen'.ok c = seen.ok c) (hstatus : seen'.status = seen.status) :
    Heard sv (made ++ [⟨.verify circuit (proofOf v.fields circuit), a,
      .ok (sv.verify circuit (proofOf v.fields circuit))⟩]) v seen' := by
  have hmore := h.append [⟨.verify circuit (proofOf v.fields circuit), a,
    .ok (sv.verify circuit (proofOf v.fields circuit))⟩]
  refine ⟨fun c b hb => ?_, hstatus ▸ hmore.checked⟩
  by_cases hc : c = circuit
  · subst hc
    obtain rfl := Option.some.inj (hok.symm.trans hb)
    exact ⟨rfl, a, List.mem_append_right _ (List.mem_singleton.2 rfl)⟩
  · exact hmore.verified c b ((hother c hc).symm.trans hb)

/-- What no answer forbade, nothing seen forbids. -/
theorem Heard.not_rejects (h : Heard sv made v seen) (hno : ∀ m ∈ made, ¬ Forbids m phase) :
    ¬ seen.Rejects phase := by
  intro hrejects
  cases phase with
  | zkpsVerified =>
    rcases hrejects with hb | ha
    · obtain ⟨-, a, hm⟩ := h.verified .bobPayload false hb
      exact hno _ hm ⟨_, _, _, rfl⟩
    · obtain ⟨-, a, hm⟩ := h.verified .aliceSignature false ha
      exact hno _ hm ⟨_, _, _, rfl⟩
  | preChecked =>
    obtain ⟨s, hs, hne⟩ := hrejects
    obtain ⟨a, hm⟩ := h.checked s hs
    exact hno _ hm ⟨_, _, s, rfl, hne⟩
  | _ => exact hrejects

/-- **The entry has its row.** -/
theorem Kept.concat (h : Kept sv made row es) {e : AuditEntry}
    (hterms : ∀ v, row = some v → v.fields.SameTerms v'.fields)
    (hphase : v'.phase = e.phase) (htip : v'.fields.auditTipHex = e.tipHash) (hheard : Heard sv made v' seen)
    (hjust : seen.Justifies e.phase) : Kept sv made (some v') (es ++ [e]) := by
  refine ⟨?_, fun e' he hp => ?_, fun e' he hp => ?_⟩
  · rw [List.getLast?_concat, Option.map_some, Option.map_some, hphase, htip]
  · rcases List.mem_append.1 he with he | he
    · obtain ⟨v, hrow, hverify⟩ := h.verified e' he hp
      refine ⟨v', rfl, fun circuit => ?_⟩
      rw [proofOf_congr (hterms v hrow)]
      exact hverify circuit
    · obtain rfl := List.mem_singleton.1 he
      rw [hp] at hjust
      refine ⟨v', rfl, fun circuit => (hheard.verified circuit true ?_).1⟩
      cases circuit
      · exact hjust.1
      · exact hjust.2
  · rcases List.mem_append.1 he with he | he
    · obtain ⟨v, a, hrow, hm⟩ := h.unspent e' he hp
      refine ⟨v', a, rfl, ?_⟩
      rw [(hterms v hrow).bob]
      exact hm
    · obtain rfl := List.mem_singleton.1 he
      rw [hp] at hjust
      obtain ⟨a, hm⟩ := hheard.checked _ hjust
      exact ⟨v', a, rfl, hm⟩

end

/-! ## One call -/

/-- The entry is in the log, and no row was written since. -/
def Pending (e : AuditEntry) (made : Trace) : Prop :=
  ∃ before a res after, made = before ++ ⟨.append e, a, res⟩ :: after ∧
  CarriedOut ⟨.append e, a, res⟩ ∧ ∀ m ∈ after, m.call.row? = none

/-- The swap of the call: row and log agree, but for an entry that waits for its row. -/
def Stage.InAccord (sv : Services) (past made : Trace) (w : World) (id : SwapId) : Stage → Prop
  | .fresh _ => w.viewOf id = none ∧ w.entriesFor id = []
  | .decided v e tip seen => ∃ es e', w.entriesFor id = es ++ [e'] ∧ e'.phase = e.phase ∧ e'.tipHash = tip ∧
      ¬ seen.Rejects e.phase ∧ Pending e made ∧ Kept sv (past ++ made) (w.viewOf id) es ∧
        (v = none → w.viewOf id = none ∧ es = [])
  | _ => Kept sv (past ++ made) (w.viewOf id) (w.entriesFor id)

/-- What is known of the calls `made` by a request so far, after the calls of `past`. -/
structure Accords (sv : Services) (past : Trace) (r : Request) (made : Trace) (g : Stage) (w : World) : Prop where
  synced : g.Synced w r.id
  heard : ∀ v seen, g.Knows v seen → Heard sv made v seen
  own : g.InAccord sv past made w r.id
  others : ∀ id, id ≠ r.id → Kept sv (past ++ made) (w.viewOf id) (w.entriesFor id)

section

variable {sv : Services} {o : Orchestrator} {past made : Trace} {r : Request} {g : Stage} {c : Call} {a : Answer}
  {w w' : World} {id : SwapId}

theorem World.viewOf_congr (h : w'.rows.lookup id = w.rows.lookup id) : w'.viewOf id = w.viewOf id := by
  rw [viewOf, viewOf, h]

theorem World.Shows.viewOf {v : View} (h : w.Shows id v) : w.viewOf id = some v := by
  obtain ⟨tx, hrow, hphase, hinner⟩ := h
  rw [World.viewOf, hrow, Option.map_some, hphase, hinner]

theorem Stage.InAccord.kept (h : g.InAccord sv past made w id)
    (hdecided : ∀ v e tip seen, g ≠ .decided v e tip seen) :
    Kept sv (past ++ made) (w.viewOf id) (w.entriesFor id) := by
  cases g with
  | fresh =>
    rw [h.1, h.2]
    exact .empty
  | decided v e tip seen => exact absurd rfl (hdecided v e tip seen)
  | unread | holding | aborting | closed => exact h

/-- The other swaps are not touched. -/
theorem Accords.others_next (h : Accords sv past r made g w) (hc : g.allows r c) (hid : id ≠ r.id) :
    Kept sv (past ++ (made ++ [⟨c, a, (World.serve sv c a w).1⟩])) ((World.serve sv c a w).2.viewOf id)
      ((World.serve sv c a w).2.entriesFor id) := by
  have hrow : (World.serve sv c a w).2.rows.lookup id = w.rows.lookup id :=
    (row_cases sv a w id hc).resolve_right fun ⟨_, _, he, _⟩ => hid he
  have hlog : (World.serve sv c a w).2.entriesFor id = w.entriesFor id :=
    (entries_cases sv a w id hc).resolve_right fun ⟨_, _, _, he, _⟩ => hid he
  rw [World.viewOf_congr hrow, hlog, ← List.append_assoc]
  exact (h.others id hid).append _

/-- A proof is answered for. -/
theorem Accords.heard_verify (h : Accords sv past r made g w) {circuit : Circuit} {proof : Groth16Proof}
    (hc : g.allows r (.verify circuit proof)) : ∀ v seen,
    (g.next (.verify circuit proof) (World.serve sv (.verify circuit proof) a w).1).Knows v seen →
      Heard sv (made ++ [⟨.verify circuit proof, a, (World.serve sv (.verify circuit proof) a w).1⟩]) v seen := by
  intro v seen hknows
  cases g with
  | holding v' seen' =>
    obtain rfl : proof = proofOf v'.fields circuit := hc
    cases hres : (World.serve sv (.verify circuit (proofOf v'.fields circuit)) a w).1 with
    | error e =>
      rw [hres] at hknows
      exact hknows.elim
    | ok b =>
      rw [hres] at hknows
      have hserve := World.serve_ok hres
      rw [hserve] at hres
      obtain rfl : sv.verify circuit (proofOf v'.fields circuit) = b := Except.ok.inj hres
      cases circuit with
      | bobPayload =>
        obtain ⟨rfl, rfl⟩ := hknows
        exact (h.heard v' seen' ⟨rfl, rfl⟩).verify .bobPayload rfl
          (fun c hne => by cases c; exacts [absurd rfl hne, rfl]) rfl
      | aliceSignature =>
        obtain ⟨rfl, rfl⟩ := hknows
        exact (h.heard v' seen' ⟨rfl, rfl⟩).verify .aliceSignature rfl
          (fun c hne => by cases c; exacts [rfl, absurd rfl hne]) rfl
  | fresh | unread | decided | aborting | closed => exact hc.elim

/-- The answers a call knows are those it was given. -/
theorem Accords.heard_next (h : Accords sv past r made g w) (hc : g.allows r c) : ∀ v seen,
    (g.next c (World.serve sv c a w).1).Knows v seen →
      Heard sv (made ++ [⟨c, a, (World.serve sv c a w).1⟩]) v seen := by
  by_cases hverify : ∃ circuit proof, c = .verify circuit proof
  · obtain ⟨circuit, proof, rfl⟩ := hverify
    exact h.heard_verify hc
  have hmoves := moves sv a w hc
  intro v seen
  generalize g.next c (World.serve sv c a w).1 = g' at hmoves ⊢
  intro hknows
  cases hmoves with
  | ends | begun | opened => exact hknows.elim
  | stays => exact (h.heard v seen hknows).append _
  | read =>
    obtain ⟨rfl, rfl⟩ := hknows
    exact .nothing
  | @reread v seen =>
    obtain ⟨rfl, rfl⟩ := hknows
    have hheard := (h.heard v seen ⟨rfl, rfl⟩).append [⟨.get r.id, a, (World.serve sv (.get r.id) a w).1⟩]
    exact ⟨fun circuit b hb => hheard.verified circuit b (by cases circuit <;> exact hb), hheard.checked⟩
  | appended =>
    obtain ⟨rfl, rfl⟩ := hknows
    exact (h.heard _ _ ⟨rfl, rfl⟩).append _
  | @checked v seen hash hok =>
    obtain ⟨rfl, rfl⟩ := hknows
    have hheard := (h.heard v seen ⟨rfl, rfl⟩).append [⟨.check hash, a, (World.serve sv (.check hash) a w).1⟩]
    refine ⟨fun circuit b hb => hheard.verified circuit b (by cases circuit <;> exact hb), fun s hs => ?_⟩
    obtain rfl : a.status = s := Option.some.inj hs
    have hhash : hash = v.fields.bob.hB := hc
    have hres : (World.serve sv (.check hash) a w).1 = .ok a.status := congrArg Prod.fst hok
    rw [hres, hhash]
    exact ⟨a, List.mem_append_right _ (List.mem_singleton.2 rfl)⟩
  | verifiedBob | verifiedAlice => exact absurd ⟨_, _, rfl⟩ hverify
  | @wrote v' e tip seen' tx hok =>
    obtain ⟨rfl, rfl⟩ := knows_written hknows
    cases v' with
    | none =>
      rw [show seen = .nothing from h.synced]
      exact .nothing
    | some v' =>
      exact ((h.heard v' seen ⟨rfl, rfl⟩).congr (hc.2.1.follows v' rfl).2).append _

theorem viewOf_of_carriedOut {tx : Transaction} {res : Except RefereeError Unit} (hid : tx.swapId = id)
    (hdone : CarriedOut ⟨.upsert tx, a, res⟩) :
    (World.serve sv (.upsert tx) a w).2.viewOf id = some ⟨tx.phase, tx.stateBlob.inner⟩ := by
  rw [world_of_carriedOut hdone, World.viewOf, World.perform, FMap.lookup_insert_ite, if_pos hid.symm, Option.map_some]

/-- An entry that gets into the log waits for its row. -/
theorem Accords.own_append (h : Accords sv past r made g w) {e : AuditEntry} (hc : g.allows r (.append e))
    (hrec : Recorded (made ++ [⟨.append e, a, (World.serve sv (.append e) a w).1⟩])) :
    (g.next (.append e) (World.serve sv (.append e) a w).1).InAccord sv past
      (made ++ [⟨.append e, a, (World.serve sv (.append e) a w).1⟩]) (World.serve sv (.append e) a w).2 r.id := by
  obtain ⟨hid, happ, -⟩ := hc
  have hmore := fun hne => (h.own.kept hne).append [⟨.append e, a, (World.serve sv (.append e) a w).1⟩]
  by_cases hdone : CarriedOut ⟨.append e, a, (World.serve sv (.append e) a w).1⟩
  · obtain ⟨⟨tip, hres⟩, hforbid, -⟩ := hrec made e a _ [] rfl hdone
    obtain ⟨e', -, htip, hphase, hentries⟩ := entries_of_carriedOut sv w hdone
    have hserve := World.serve_ok hres
    have hview : (World.serve sv (.append e) a w).2.viewOf r.id = w.viewOf r.id := by rw [hserve]; rfl
    have hpending : Pending e (made ++ [⟨.append e, a, (World.serve sv (.append e) a w).1⟩]) :=
      ⟨made, a, _, [], rfl, hdone, fun _ hm => nomatch hm⟩
    have htip' : e'.tipHash = tip := by
      rw [hserve] at hres
      exact htip.trans (Except.ok.inj hres)
    rw [hid] at hentries
    cases g with
    | fresh begun =>
      obtain ⟨hnone, hnil⟩ := h.own
      rw [hnil] at hentries
      rw [hres] at hpending ⊢
      refine ⟨[], e', hentries, hphase, htip', ?_, hpending, ?_, fun _ => ⟨hview.trans hnone, rfl⟩⟩
      · intro hrejects
        cases hp : e.phase <;> simp [hp, Seen.Rejects, Seen.nothing] at hrejects
      · rw [hview, hnone]
        exact .empty
    | holding v seen =>
      have hkept := hmore fun _ _ _ _ he => nomatch he
      rw [hres] at hpending hkept ⊢
      refine ⟨_, e', hentries, hphase, htip', (h.heard v seen ⟨rfl, rfl⟩).not_rejects hforbid, hpending, ?_,
        fun hv => nomatch hv⟩
      rw [hview, ← List.append_assoc]
      exact hkept
    | unread | decided | aborting | closed => exact happ.elim
  · obtain ⟨err, hserve⟩ := append_of_not_carriedOut sv w hdone
    have hdecided : ∀ v e tip seen, g ≠ .decided v e tip seen := by
      rintro v e tip seen rfl
      exact happ.elim
    have hkept := hmore hdecided
    rw [hserve] at hkept ⊢
    rw [List.append_assoc] at hkept
    exact hkept

/-- The row that is written for an entry agrees with the log. -/
theorem Accords.kept_written {v : Option View} {e : AuditEntry} {tip : String} {seen : Seen} {tx : Transaction}
    (h : Accords sv past r made (.decided v e tip seen) w) (hc : (Stage.decided v e tip seen).allows r (.upsert tx)) :
    Kept sv (past ++ made) (some ⟨tx.phase, tx.stateBlob.inner⟩) (w.entriesFor r.id) := by
  obtain ⟨es, e', hentries, hphase, htip, -, -, hkept, hnone⟩ := h.own
  obtain ⟨-, hrec, hjust⟩ := hc
  rw [hentries]
  have hphase' : tx.phase = e'.phase := hrec.phase.trans hphase.symm
  have htip' : tx.stateBlob.inner.auditTipHex = e'.tipHash := hrec.tip.trans htip.symm
  rw [← hphase] at hjust
  cases v with
  | none =>
    obtain rfl : seen = .nothing := h.synced
    refine hkept.concat (fun v hv => ?_) hphase' htip' .nothing hjust
    cases (hnone rfl).1.symm.trans hv
  | some v =>
    have hterms := (hrec.follows v rfl).2
    have hview : w.viewOf r.id = some v := h.synced.viewOf
    have hheard : Heard sv (past ++ made) ⟨tx.phase, tx.stateBlob.inner⟩ seen :=
      ((h.heard v seen ⟨rfl, rfl⟩).congr hterms).append_left past
    refine hkept.concat (fun v' hv => ?_) hphase' htip' hheard hjust
    obtain rfl := Option.some.inj (hview.symm.trans hv)
    exact hterms

/-- Everything but an append leaves the entries. -/
theorem entries_of_not_append (hc : g.allows r c) (hother : ∀ e, c ≠ .append e) :
    (World.serve sv c a w).2.entriesFor id = w.entriesFor id :=
  (entries_cases sv a w id hc).resolve_right fun ⟨e, _, he, _⟩ => hother e he

/-- A row is new only to a call that has an entry for it; the contract id is no part of the view. -/
theorem viewOf_next (hc : g.allows r c) (hg : g.Synced w r.id)
    (hdecided : ∀ v e tip seen, g ≠ .decided v e tip seen) :
    (World.serve sv c a w).2.viewOf r.id = w.viewOf r.id := by
  rcases row_cases sv a w r.id hc with h | ⟨tx, rfl, -, -, hup, h⟩
  · exact World.viewOf_congr h
  · cases g with
    | holding v seen =>
      obtain ⟨hphase, -, row, cid, hrow, rfl⟩ := hup
      obtain ⟨hrphase, hinner⟩ := hg.2 hphase row hrow
      rw [hg.1.viewOf, World.viewOf, h, Option.map_some]
      show some (View.mk row.phase row.stateBlob.inner) = some v
      rw [hinner, hrphase, ← hphase]
    | decided v e tip seen => exact absurd rfl (hdecided v e tip seen)
    | fresh | unread | aborting | closed => exact hup.elim

/-- A stage without an entry that waits, and a call that is no append. -/
theorem Accords.own_other (h : Accords sv past r made g w) (hc : g.allows r c) (hother : ∀ e, c ≠ .append e)
    (hdecided : ∀ v e tip seen, g ≠ .decided v e tip seen) :
    (g.next c (World.serve sv c a w).1).InAccord sv past (made ++ [⟨c, a, (World.serve sv c a w).1⟩])
      (World.serve sv c a w).2 r.id := by
  have hentries : (World.serve sv c a w).2.entriesFor r.id = w.entriesFor r.id := entries_of_not_append hc hother
  have hview : (World.serve sv c a w).2.viewOf r.id = w.viewOf r.id := viewOf_next hc h.synced hdecided
  have hkept : Kept sv (past ++ (made ++ [⟨c, a, (World.serve sv c a w).1⟩])) ((World.serve sv c a w).2.viewOf r.id)
      ((World.serve sv c a w).2.entriesFor r.id) := by
    rw [hview, hentries, ← List.append_assoc]
    exact (h.own.kept hdecided).append _
  have hown := h.own
  have hmoves := moves sv a w hc
  generalize g.next c (World.serve sv c a w).1 = g' at hmoves ⊢
  cases hmoves with
  | ends | read | reread | checked | verifiedBob | verifiedAlice => exact hkept
  | stays =>
    cases g with
    | fresh begun => exact ⟨hview.trans hown.1, hentries.trans hown.2⟩
    | decided v e tip seen => exact absurd rfl (hdecided v e tip seen)
    | unread | holding | aborting | closed => exact hkept
  | begun => exact ⟨hview.trans hown.1, hentries.trans hown.2⟩
  | opened | appended => exact absurd rfl (hother _)
  | wrote => exact absurd rfl (hdecided _ _ _ _)

theorem inAccord_written {phase : Phase} {fields : SwapFields} {seen : Seen}
    (h : Kept sv (past ++ made) (w.viewOf id) (w.entriesFor id)) :
    (Stage.written phase fields seen).InAccord sv past made w id := by
  unfold Stage.written
  split
  · exact h
  · split <;> exact h

/-- **An entry that waits gets its row**, or goes on waiting. -/
theorem Accords.own_decided {v : Option View} {e : AuditEntry} {tip : String} {seen : Seen}
    (h : Accords sv past r made (.decided v e tip seen) w) (hc : (Stage.decided v e tip seen).allows r c)
    (hrec : Recorded (made ++ [⟨c, a, (World.serve sv c a w).1⟩])) :
    ((Stage.decided v e tip seen).next c (World.serve sv c a w).1).InAccord sv past
      (made ++ [⟨c, a, (World.serve sv c a w).1⟩]) (World.serve sv c a w).2 r.id := by
  have hother : ∀ e, c ≠ .append e := by
    rintro e rfl
    exact hc.2.1.elim
  have hentries : (World.serve sv c a w).2.entriesFor r.id = w.entriesFor r.id := entries_of_not_append hc hother
  have hwritten : ∀ tx, c = .upsert tx → CarriedOut ⟨c, a, (World.serve sv c a w).1⟩ →
      Kept sv (past ++ (made ++ [⟨c, a, (World.serve sv c a w).1⟩])) ((World.serve sv c a w).2.viewOf r.id)
        ((World.serve sv c a w).2.entriesFor r.id) := by
    rintro tx rfl hdone
    rw [viewOf_of_carriedOut hc.1.swapId hdone, hentries, ← List.append_assoc]
    exact (h.kept_written hc).append _
  obtain ⟨es, e', hlog, hphase, htip, hrejects, ⟨before, a', res, after, hmade, hdone, hno⟩, hkept,
    hnone⟩ := h.own
  have hmade' : made ++ [⟨c, a, (World.serve sv c a w).1⟩] =
      before ++ ⟨.append e, a', res⟩ :: (after ++ [⟨c, a, (World.serve sv c a w).1⟩]) := by
    rw [hmade, List.append_assoc, List.cons_append]
  have hmoves := moves sv a w hc
  generalize (Stage.decided v e tip seen).next c (World.serve sv c a w).1 = g' at hmoves ⊢
  cases hmoves with
  | ends hends =>
    -- what failed is the write of the row, and it was carried out
    obtain ⟨err, herr⟩ := hends.resolve_right fun hne => hne v e tip seen rfl
    obtain ⟨-, -, hfail⟩ := hrec before e a' res _ hmade' hdone
    rcases hfail after _ [] rfl hno with ⟨x, hx⟩ | ⟨tx, htx, hcarried⟩
    · cases herr.symm.trans hx
    · exact hwritten tx htx hcarried
  | stays hcheck happend hupsert =>
    have hrow : c.row? = none := by
      cases c with
      | upsert tx => exact (hupsert tx rfl).elim
      | _ => rfl
    have hview : (World.serve sv c a w).2.viewOf r.id = w.viewOf r.id :=
      World.viewOf_congr ((row_cases sv a w r.id hc).resolve_right fun ⟨tx, htx, _⟩ => (hupsert tx htx).elim)
    refine ⟨es, e', hentries.trans hlog, hphase, htip, hrejects,
      ⟨before, a', res, _, hmade', hdone, fun m hm => ?_⟩, ?_,
      fun hv => hview ▸ hnone hv⟩
    · rcases List.mem_append.1 hm with hm | hm
      · exact hno m hm
      · obtain rfl := List.mem_singleton.1 hm
        exact hrow
    · rw [hview, ← List.append_assoc]
      exact hkept.append _
  | wrote hok => exact inAccord_written (hwritten _ rfl (carriedOut_of_served hok))

/-- **One collaborator call.** -/
theorem Accords.next (h : Accords sv past r made g w) (hc : g.allows r c)
    (hrec : Recorded (made ++ [⟨c, a, (World.serve sv c a w).1⟩])) :
    Accords sv past r (made ++ [⟨c, a, (World.serve sv c a w).1⟩]) (g.next c (World.serve sv c a w).1)
      (World.serve sv c a w).2 := by
  refine ⟨synced_next hc h.synced, h.heard_next hc, ?_, fun id hid => h.others_next hc hid⟩
  by_cases happend : ∃ e, c = .append e
  · obtain ⟨e, rfl⟩ := happend
    exact h.own_append hc hrec
  by_cases hdecided : ∃ v e tip seen, g = .decided v e tip seen
  · obtain ⟨v, e, tip, seen, rfl⟩ := hdecided
    exact h.own_decided hc hrec
  · exact h.own_other hc (fun e he => happend ⟨e, he⟩) fun v e tip seen hg => hdecided ⟨v, e, tip, seen, hg⟩

end

/-! ## Calls one after the other -/

section

variable {sv : Services} {o : Orchestrator} {s s' : Past} {call : Request × (Nat → Answer)} {made : Trace}
  {w : World} {id : SwapId}

theorem Kept.row_none {row : Option View} (h : Kept sv made row []) : row = none := by
  have hagrees := h.agrees
  cases row with
  | none => rfl
  | some v => cases hagrees

/-- Before its first call a request has nothing in hand. -/
theorem accords_initial {r : Request} (hs : ∀ id, Kept sv s.made (s.world.viewOf id) (s.world.entriesFor id))
    (hnew : r.IsStart → s.world.entriesFor r.id = []) : Accords sv s.made r [] r.initial s.world := by
  have hkept : ∀ id, Kept sv (s.made ++ []) (s.world.viewOf id) (s.world.entriesFor id) := fun id => by
    rw [List.append_nil]
    exact hs id
  cases r with
  | start id req =>
    have hnil := hnew ⟨id, req, rfl⟩
    have hrow := hs id
    rw [show s.world.entriesFor id = [] from hnil] at hrow
    exact ⟨trivial, fun _ _ hknows => hknows.elim, ⟨hrow.row_none, hnil⟩, fun id _ => hkept id⟩
  | advance id | cancel id _ _ _ => exact ⟨trivial, fun _ _ hknows => hknows.elim, hkept id, fun id _ => hkept id⟩

/-- **One call that meets the condition keeps every row beside its log.** -/
theorem Past.RecordedStep.kept (h : s.RecordedStep sv o call s') (hw : s.world.WellFormed)
    (hs : ∀ id, Kept sv s.made (s.world.viewOf id) (s.world.entriesFor id)) :
    ∀ id, Kept sv s'.made (s'.world.viewOf id) (s'.world.entriesFor id) := by
  obtain ⟨rfl, hnew, hrec⟩ := h
  obtain ⟨g, hends, hI⟩ := call_history sv o call.1 (I := fun made g w => Recorded made →
    Accords sv s.made call.1 made g w) hw call.2
    (fun _ => accords_initial hs hnew) fun made g c a w hc hI hmade => (hI hmade.of_append).next hc hmade
  have h := hI hrec
  intro id
  by_cases hid : id = call.1.id
  · subst hid
    refine h.own.kept ?_
    rintro v e tip seen rfl
    -- a call that ends with an entry in hand has been told what forbids the row
    rcases hends.ended with hrest | ⟨v', e', tip', seen', hg, hrejects⟩
    · exact hrest.elim
    · cases hg
      obtain ⟨-, -, -, -, -, hno, -⟩ := h.own
      exact hno hrejects
  · exact h.others id hid

theorem Kept.agrees_world (h : Kept sv made (w.viewOf id) (w.entriesFor id)) : w.Agrees id := by
  have hagrees := h.agrees
  rw [World.viewOf, Option.map_map] at hagrees
  constructor
  · have hphase := congrArg (Option.map Prod.fst) hagrees
    rw [Option.map_map, Option.map_map] at hphase
    exact hphase
  · intro tx hrow
    have htip := congrArg (Option.map Prod.snd) hagrees
    rw [hrow, Option.map_map, Option.map_map] at htip
    have hlast : (w.entriesFor id).getLast?.map AuditEntry.tipHash = some tx.stateBlob.inner.auditTipHex := htip.symm
    rw [World.tipFor, hlast]
    rfl

theorem exists_row_of_viewOf {v : View} (h : w.viewOf id = some v) :
    ∃ tx, w.rows.lookup id = some tx ∧ tx.stateBlob.inner = v.fields := by
  obtain ⟨tx, hrow, rfl⟩ := Option.map_eq_some_iff.1 h
  exact ⟨tx, hrow, rfl⟩

theorem consistent_of_kept (h : ∀ id, Kept sv s.made (s.world.viewOf id) (s.world.entriesFor id)) :
    s.Consistent sv where
  agrees id := (h id).agrees_world
  verified id e he hphase := by
    obtain ⟨v, hv, hverify⟩ := (h id).verified e he hphase
    obtain ⟨tx, hrow, hinner⟩ := exists_row_of_viewOf hv
    exact ⟨tx, hrow, hinner ▸ hverify⟩
  unspent id e he hphase := by
    obtain ⟨v, a, hv, hm⟩ := (h id).unspent e he hphase
    obtain ⟨tx, hrow, hinner⟩ := exists_row_of_viewOf hv
    exact ⟨tx, a, hrow, hinner ▸ hm⟩

end

/-- **Rows and log agree after every call** of a history whose calls meet the condition. -/
theorem row_agrees_with_log (sv : Services) (o : Orchestrator) (calls : List (Request × (Nat → Answer))) (s : Past)
    (h : Run (Past.RecordedStep sv o) Past.none calls s) : s.Consistent sv := by
  refine consistent_of_kept (Run.invariant
    (I := fun s : Past => s.world.WellFormed ∧ ∀ id, Kept sv s.made (s.world.viewOf id) (s.world.entriesFor id))
    (fun s call s' hstep ⟨hw, hs⟩ => ⟨hstep.1.wellFormed hw, hstep.kept hw hs⟩) h ⟨World.wellFormed_empty,
      fun _ => .empty⟩).2

/-! ## A start, and a start that is turned away -/

/-- The call was answered, and the answer forbids nothing. -/
def Clears (m : MadeCall) : Bool :=
  match m with
  | ⟨_, _, .error _⟩ => false
  | ⟨c, _, .ok res⟩ =>
    match c, res with
    | .verify _ _, b => b
    | .check _, s => decide (s = .unspent)
    | _, _ => true

theorem ok_of_clears {m : MadeCall} (h : Clears m = true) : ∃ x, m.result = .ok x := by
  obtain ⟨c, a, res⟩ := m
  cases res with
  | error e => cases h
  | ok x => exact ⟨x, rfl⟩

theorem not_forbids_of_clears {m : MadeCall} (h : Clears m = true) (phase : Phase) : ¬ Forbids m phase := by
  intro hforbids
  cases phase with
  | zkpsVerified =>
    obtain ⟨circuit, proof, a, rfl⟩ := hforbids
    cases h
  | preChecked =>
    obtain ⟨hash, a, s, rfl, hne⟩ := hforbids
    exact hne (of_decide_eq_true h)
  | _ => exact hforbids

theorem recorded_of_clears {made : Trace} (h : ∀ m ∈ made, Clears m = true) : Recorded made := by
  rintro before e a res after rfl -
  refine ⟨ok_of_clears (h _ (List.mem_append_right _ List.mem_cons_self)), fun m hm => ?_,
    fun between m rest hafter _ => .inl ?_⟩
  · exact not_forbids_of_clears (h m (List.mem_append_left _ hm)) e.phase
  · refine ok_of_clears (h m (List.mem_append_right _ (List.mem_cons_of_mem _ ?_)))
    rw [hafter]
    exact List.mem_append_right _ List.mem_cons_self

open Webycash.Referee.Sample

/-- A start of which nothing fails. -/
theorem row_agrees_with_log_started : ∃ s, Run (Past.RecordedStep services orchestrator) Past.none
      [(.start swapId initiateRequest, fun _ => healthy .unspent)] s ∧
    (s.world.entriesFor swapId).length = 4 ∧ s.Consistent services := by
  have hclear : ∀ m ∈ ((program orchestrator (.start swapId initiateRequest)).run (World.serve services)
      (fun _ => healthy .unspent) World.empty).trace, Clears m = true := by decide +kernel
  have hrun : Run (Past.RecordedStep services orchestrator) Past.none
    [(.start swapId initiateRequest, fun _ => healthy .unspent)]
      (Past.none.serve services orchestrator (.start swapId initiateRequest) fun _ => healthy .unspent) :=
    .cons ⟨rfl, fun _ => rfl, recorded_of_clears hclear⟩ (.nil _)
  exact ⟨_, hrun, by decide +kernel, row_agrees_with_log services orchestrator _ _ hrun⟩

namespace Sample

/-- The swap is started; then `H_B` is spent, the settlement is signed and released, and the write of
the settled row, the tenth call of the advance, fails. -/
def unwrittenCalls : List (Request × (Nat → Answer)) :=
  [(.start swapId initiateRequest, fun _ => healthy .unspent),
    (.advance swapId, fun n =>
      if n = 9 then { healthy .spent with fault := some (.lost (.store "unreachable")) } else healthy .spent)]

end Sample

/-- **A settled entry over a row that is not settled.** The advance answers the error of the store; its row
is still at `insert-pushed`, its last entry is that of the settled state, and the tips differ too. -/
theorem settled_entry_without_row : ∃ s, Run (Past.Step services orchestrator) Past.none unwrittenCalls s ∧
    s.world.phaseOf swapId = some .insertPushed ∧
    (s.world.entriesFor swapId).getLast?.map AuditEntry.phase = some .settled ∧
    (s.world.rows.lookup swapId).map (fun tx => tx.stateBlob.inner.auditTipHex) ≠ some (s.world.tipFor swapId) ∧
    ¬ s.Consistent services := by
  have hlast : ((past unwrittenCalls).world.entriesFor swapId).getLast?.map AuditEntry.phase = some .settled := by
    decide +kernel
  have hrow : (past unwrittenCalls).world.phaseOf swapId = some .insertPushed := by decide +kernel
  have htip : ((past unwrittenCalls).world.rows.lookup swapId).map (fun tx => tx.stateBlob.inner.auditTipHex) ≠
      some ((past unwrittenCalls).world.tipFor swapId) := by decide +kernel
  refine ⟨past unwrittenCalls, past_run unwrittenCalls Past.none, hrow, hlast, htip, fun h => ?_⟩
  have hphase := (h.agrees swapId).phase
  rw [hrow, hlast] at hphase
  cases hphase

end Webycash.Referee
