import Webycash.Lib.HashChain
import Webycash.Lib.HexText
import Webycash.Lib.JsonText
import Webycash.Referee.Chain
import Webycash.Referee.DynamoStore
import Webycash.Referee.Keyspace
/-!
# What an audit tip commits to (`referee/src/audit/mod.rs`)

"Each entry contains the prior tip's hash, so tampering with any past entry breaks every later signature." The
tip is the hex SHA-256 of the canonical JSON of the last entry. The JSON says every field but the signature
(`canonicalBody_inj`), the prior tip among them, so a chain with the tip of a swap has the entries of the swap,
one by one, or shows two different bodies with one digest (`audit_tip_commits`).
-/

namespace Webycash.Referee

/-- The entry without its signature, which the canonical body does not have either. -/
def AuditEntry.unsigned (e : AuditEntry) : AuditEntry := { e with signature := "" }

theorem asBytes_inj {s t : String} (h : asBytes s = asBytes t) : s = t := keyOf_inj (congrArg (List.map UInt8.toNat) h)

/-- **A canonical body is the body of one entry**, signatures apart. -/
theorem canonicalBody_inj {e e' : AuditEntry} (h : e.canonicalBody = e'.canonicalBody) : e.unsigned = e'.unsigned := by
  obtain ⟨swapId, phase, ts, prior, payload, sig⟩ := e
  obtain ⟨swapId', phase', ts', prior', payload', sig'⟩ := e'
  have hobj := Json.toText_injective (asBytes_inj h)
  simp only [Json.obj.injEq, List.cons.injEq, Prod.mk.injEq, Json.str.injEq, Json.num.injEq, true_and, and_true] at hobj
  obtain ⟨hid, hphase, hts, hprior, hpayload⟩ := hobj
  have hts : ts = ts' := Int.ofNat.inj hts
  cases swapId
  cases swapId'
  rw [AuditEntry.unsigned, AuditEntry.unsigned, AuditEntry.mk.injEq]
  exact ⟨congrArg SwapId.mk hid, DynamoStore.name_inj hphase, hts, hprior, hpayload, rfl⟩

/-- The tip of a log that is read. -/
def tipOf (entries : List AuditEntry) : String := (entries.getLast?.map AuditEntry.tipHash).getD ""

/-- An entry of each log, with two bodies and one digest. -/
def Collision (entries told : List AuditEntry) : Prop := ∃ e ∈ entries, ∃ e' ∈ told,
  e.canonicalBody ≠ e'.canonicalBody ∧ Sha256.digest e.canonicalBody = Sha256.digest e'.canonicalBody

/-- The hash that a tip is. -/
def bodyHash (body : List UInt8) : String := Hex.encode (Sha256.digest body)

theorem tip_reverse (entries : List AuditEntry) :
    HashChain.tip AuditEntry.canonicalBody bodyHash "" entries.reverse = tipOf entries := by
  rcases List.eq_nil_or_concat entries with rfl | ⟨entries, e, rfl⟩
  · rfl
  · rw [List.concat_eq_append, List.reverse_append, tipOf, List.getLast?_concat]
    rfl

/-- A linked log is a chain, read from its end. -/
theorem Linked.back {entries : List AuditEntry} (h : Linked entries) :
    HashChain.Back AuditEntry.canonicalBody AuditEntry.priorTip bodyHash "" entries.reverse := by
  induction entries using List.reverseRecOn with
  | nil => trivial
  | append_singleton entries e ih =>
    obtain ⟨hentries, hprior⟩ := (linked_concat entries e).1 h
    rw [List.reverse_append, List.reverse_singleton, List.singleton_append]
    refine ⟨?_, ih hentries⟩
    rw [tip_reverse]
    exact hprior

theorem unsigned_of_bodies : ∀ {entries told : List AuditEntry},
    entries.map AuditEntry.canonicalBody = told.map AuditEntry.canonicalBody → entries.map AuditEntry.unsigned =
      told.map AuditEntry.unsigned
  | [], [], _ => rfl
  | [], _ :: _, h => by cases h
  | _ :: _, [], h => by cases h
  | e :: entries, e' :: told, h => by
    obtain ⟨hbody, hrest⟩ := List.cons.inj h
    rw [List.map_cons, List.map_cons, canonicalBody_inj hbody, unsigned_of_bodies hrest]

/-- Two linked logs with one tip say the same, or show a collision. -/
theorem same_history_or_collision {entries told : List AuditEntry} (h : Linked entries) (htold : Linked told)
    (htip : tipOf entries = tipOf told) :
    entries.map AuditEntry.unsigned = told.map AuditEntry.unsigned ∨ Collision entries told := by
  have hprior : ∀ e e' : AuditEntry, e.canonicalBody = e'.canonicalBody → e.priorTip = e'.priorTip := by
    intro e e' hbody
    show e.unsigned.priorTip = e'.unsigned.priorTip
    rw [canonicalBody_inj hbody]
  have hroot : ∀ e : AuditEntry, bodyHash e.canonicalBody ≠ "" := fun e => tipHash_ne_empty e
  rw [← tip_reverse, ← tip_reverse] at htip
  rcases HashChain.bodies_eq_or_collide hprior hroot h.back htold.back htip with hbodies | hcollide
  · rw [List.map_reverse, List.map_reverse] at hbodies
    exact .inl (unsigned_of_bodies (List.reverse_injective hbodies))
  · obtain ⟨e, he, e', he', hne, hhash⟩ := hcollide
    exact .inr ⟨e, List.mem_reverse.1 he, e', List.mem_reverse.1 he', hne, Hex.encode_injective hhash⟩

/-- The chain condition keeps every log a chain. -/
theorem linked_of_chain_run {sv : Services} {o : Orchestrator}
    {calls : List (Request × (Nat → Answer))} {s s' : Past}
    (h : Run (Past.ChainStep sv o) s calls s') (hw : s.world.WellFormed) (hs : ∀ id, Linked (s.world.entriesFor id)) :
    ∀ id, Linked (s'.world.entriesFor id) := by
  induction h with
  | nil => exact hs
  | cons hstep _ ih => exact ih (hstep.1.wellFormed hw) (hstep.linked hw hs)

/-- **The tip commits to the history.** After calls none of which appends from a stale row, whatever fails: a log
that is told instead, linked and with the tip of the swap, is the log of the swap, entry by entry and signatures
apart, or it holds an entry whose body differs from a body of the log and has its SHA-256 digest. -/
theorem audit_tip_commits (sv : Services) (o : Orchestrator) (calls : List (Request × (Nat → Answer))) (s : Past)
    (h : Run (Past.ChainStep sv o) Past.none calls s) (id : SwapId) (told : List AuditEntry) (htold : Linked told)
    (htip : tipOf told = s.world.tipFor id) :
    (s.world.entriesFor id).map AuditEntry.unsigned = told.map AuditEntry.unsigned ∨
      Collision (s.world.entriesFor id) told :=
  same_history_or_collision (linked_of_chain_run h World.wellFormed_empty (fun _ => linked_nil) id) htold htip.symm

/-- The entry under another signature. -/
def AuditEntry.resigned (sig : String) (e : AuditEntry) : AuditEntry := { e with signature := sig }

section

variable {sig : String} {entries : List AuditEntry}

theorem tipOf_resigned : tipOf (entries.map (AuditEntry.resigned sig)) = tipOf entries := by
  rw [tipOf, tipOf, List.getLast?_map]
  cases entries.getLast? <;> rfl

/-- The chain does not see the signatures. -/
theorem Linked.resigned (h : Linked entries) : Linked (entries.map (AuditEntry.resigned sig)) := by
  induction entries using List.reverseRecOn with
  | nil => exact linked_nil
  | append_singleton entries e ih =>
    obtain ⟨hentries, hprior⟩ := (linked_concat entries e).1 h
    rw [List.map_append]
    exact (linked_concat _ _).2 ⟨ih hentries, hprior.trans tipOf_resigned.symm⟩

end

open Webycash.Referee.Sample in
/-- The log of a start, told under other signatures. -/
theorem audit_tip_commits_started : ∃ s told, Run (Past.ChainStep services orchestrator) Past.none
      [(.start swapId initiateRequest, fun _ => healthy .unspent)] s ∧ told.length = 4 ∧
        told ≠ s.world.entriesFor swapId ∧
    tipOf told = s.world.tipFor swapId ∧
      ((s.world.entriesFor swapId).map AuditEntry.unsigned = told.map AuditEntry.unsigned ∨
      Collision (s.world.entriesFor swapId) told) := by
  let s := past [(.start swapId initiateRequest, fun _ => healthy .unspent)]
  have hrun : Run (Past.ChainStep services orchestrator) Past.none
      [(.start swapId initiateRequest, fun _ => healthy .unspent)] s :=
    .cons ⟨rfl, .inl rfl⟩ (.nil _)
  have hlinked := linked_of_chain_run hrun World.wellFormed_empty (fun _ => linked_nil) swapId
  have hsigned : (s.world.entriesFor swapId).map AuditEntry.signature ≠
      ((s.world.entriesFor swapId).map (AuditEntry.resigned "00")).map AuditEntry.signature := by decide +kernel
  refine ⟨s, (s.world.entriesFor swapId).map (AuditEntry.resigned "00"), hrun, ?_,
    fun h => hsigned (by rw [h]), tipOf_resigned,
    audit_tip_commits services orchestrator _ _ hrun swapId _ hlinked.resigned tipOf_resigned⟩
  rw [List.length_map]
  decide +kernel

end Webycash.Referee
