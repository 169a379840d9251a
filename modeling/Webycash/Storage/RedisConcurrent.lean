import Webycash.Lib.Run
import Webycash.Storage.RedisInsert
import Webycash.Storage.RedisReplace
/-!
# Interleavings of `insert_tokens`, `batch_replace` and `batch_burn` on one Redis

Every pipeline of single commands and every script is one step of one client. `insert_tokens`
is two steps, so between them other clients act on keys that hold nothing but `amount_wats`:
`Net.pending` lists the second pipelines not sent yet. A burn or replace in that window marks
such a key spent, and the late `HSET spent 0` takes the mark away (`burn_inside_insert`).
`spent_is_final`: in every interleaving that stays out of the window, spent is final.
-/

namespace Webycash.Redis

section

variable {ρ : Type}

/-- The database and, per insert call that is half done, the records it created. -/
structure Net (ρ : Type) where
  db : Db
  pending : List (List ρ)

/-- One step of some client. -/
inductive Act (ρ : Type)
  | insertClaim (records : List ρ)
  | insertFill (call : Nat)
  | replace (now : DateTime) (ns : Namespace) (op : ReplaceOp ρ)
  | burn (now : DateTime) (ns : Namespace) (hash : String) (record : BurnRecord)

variable (cfg : StoreConfig ρ)

/-- What the step does; a second pipeline can only follow its first. -/
def Net.step (net : Net ρ) : Act ρ → Option (Net ρ)
  | .insertClaim records =>
    let (nx, t) := claim cfg records net.db.tokens
    let c := created nx records
    some ⟨{ net.db with tokens := t }, if c.isEmpty then net.pending else net.pending ++ [c]⟩
  | .insertFill call =>
    net.pending[call]?.map fun c => ⟨{ net.db with tokens := (fill cfg c net.db.tokens).2 },
      net.pending.eraseIdx call⟩
  | .replace now ns op => some { net with db := (replaceLua (replaceCall cfg now ns op) net.db).2 }
  | .burn now ns hash record =>
    some { net with db := (burnLua (cfg.tokenKey ns hash) (cfg.keys.burnKey cfg.name ns record.id)
      (cfg.chrono.toRfc3339 now) (.burn record) net.db).2 }

/-- Keys some half-done insert will still write to. -/
def Net.pendingKeys (net : Net ρ) : List String := net.pending.flatten.map cfg.recordKey

/-- The step stays out of the window: a script that goes through consumes no half-inserted
key, and an insert claims no key that is spent already. -/
def Net.Clear (net : Net ρ) : Act ρ → Prop
  | .insertClaim records =>
    ∀ r ∈ records, Spent net.db.tokens (cfg.recordKey r) → Claimed net.db.tokens (cfg.recordKey r)
  | .insertFill _ => True
  | .replace _ ns op => InputsReady cfg ns op net.db.tokens → ∀ k ∈ inputKeys cfg ns op, k ∉ net.pendingKeys cfg
  | .burn _ ns hash _ => Ready net.db.tokens (cfg.tokenKey ns hash) → cfg.tokenKey ns hash ∉ net.pendingKeys cfg

instance decidableClear (net : Net ρ) : ∀ a : Act ρ, Decidable (net.Clear cfg a)
  | .insertClaim records => inferInstanceAs (Decidable (∀ r ∈ records, _ → _))
  | .insertFill _ => isTrue trivial
  | .replace _ ns op => inferInstanceAs (Decidable (_ → ∀ k ∈ inputKeys cfg ns op, _ ∉ _))
  | .burn _ _ _ _ => inferInstanceAs (Decidable (_ → _ ∉ _))

def ClearStep (s : Net ρ) (a : Act ρ) (t : Net ρ) : Prop := s.Clear cfg a ∧ s.step cfg a = some t

/-- `Net.step` where the step is clear. -/
def Net.clearStep (net : Net ρ) (a : Act ρ) : Option (Net ρ) := if net.Clear cfg a then net.step cfg a else none

/-- Half-inserted keys are claimed, each by one call, and not spent. -/
structure Net.Ok (net : Net ρ) : Prop where
  nodup : (net.pendingKeys cfg).Nodup
  claimed : ∀ k ∈ net.pendingKeys cfg, Claimed net.db.tokens k
  unspent : ∀ k ∈ net.pendingKeys cfg, ¬ Spent net.db.tokens k

variable {cfg}

theorem clearStep_sound (s : Net ρ) (a : Act ρ) (t : Net ρ) (h : s.clearStep cfg a = some t) :
    ClearStep cfg s a t := by
  unfold Net.clearStep at h
  split at h
  · rename_i hc; exact ⟨hc, h⟩
  · cases h

theorem claimed_congr {t t' : Tokens} {k : String} (h : t'.lookup k = t.lookup k) : Claimed t' k ↔ Claimed t k := by
  unfold Claimed hget
  rw [h]

/-- Steps that leave a set of keys alone keep the invariant of those keys. -/
theorem Net.Ok.of_lookup {s t : Net ρ} (hs : s.Ok cfg) (hsub : (t.pendingKeys cfg).Sublist (s.pendingKeys cfg))
    (hlook : ∀ k ∈ t.pendingKeys cfg, t.db.tokens.lookup k = s.db.tokens.lookup k) : t.Ok cfg where
  nodup := hs.nodup.sublist hsub
  claimed k hk := (claimed_congr (hlook k hk)).2 (hs.claimed k (hsub.subset hk))
  unspent k hk := fun h => hs.unspent k (hsub.subset hk) ((spent_congr (hlook k hk)).1 h)

/-- `HSETNX amount_wats` does not touch `spent`. -/
theorem spent_claim {c : List ρ} {t : Tokens} (hnd : (c.map cfg.recordKey).Nodup) (k : String) :
    Spent (FMap.putAll t (c.map (claimPut cfg t))) k ↔ Spent t k := by
  have hkeys : (c.map (claimPut cfg t)).map Prod.fst = c.map cfg.recordKey := by rw [List.map_map]; rfl
  by_cases hk : k ∈ c.map cfg.recordKey
  · obtain ⟨r, hr, rfl⟩ := List.mem_map.1 hk
    have hmem : (cfg.recordKey r, (claimPut cfg t r).2) ∈ c.map (claimPut cfg t) := List.mem_map.2 ⟨r, hr, rfl⟩
    rw [Spent, hget, FMap.lookup_putAll_of_mem (hkeys ▸ hnd) hmem, Option.bind_some, claimPut, FMap.lookup_insert_ite,
      if_neg (by decide), ← hget_eq_lookup_hgetall]
    rfl
  · exact spent_congr (FMap.lookup_putAll_of_notMem (hkeys ▸ hk) t)

theorem pendingKeys_claim (net : Net ρ) (db : Db) (c : List ρ) :
    Net.pendingKeys cfg ⟨db, if c.isEmpty then net.pending else net.pending ++ [c]⟩ =
      net.pendingKeys cfg ++ c.map cfg.recordKey := by
  cases c with
  | nil => simp [Net.pendingKeys]
  | cons r c => simp [Net.pendingKeys]

theorem flatten_eraseIdx_sublist : ∀ (l : List (List ρ)) (i : Nat), (l.eraseIdx i).flatten.Sublist l.flatten
  | [], _ => by simp
  | a :: l, 0 => by simp
  | a :: l, i + 1 => by
    rw [List.eraseIdx_cons_succ, List.flatten_cons, List.flatten_cons]
    exact (flatten_eraseIdx_sublist l i).append_left a

/-- The call being finished owns its keys: the other pending calls have other keys. -/
theorem notMem_eraseIdx {l : List (List ρ)} {i : Nat} {c : List ρ} (hi : l[i]? = some c)
    (hnd : (l.flatten.map cfg.recordKey).Nodup) {k : String} (hk : k ∈ (l.eraseIdx i).flatten.map cfg.recordKey) :
    k ∉ c.map cfg.recordKey := by
  obtain ⟨hlt, rfl⟩ := List.getElem?_eq_some_iff.1 hi
  have hperm : l.Perm (l[i] :: l.eraseIdx i) := (List.getElem_cons_eraseIdx_perm hlt).symm
  have hnd' := (hperm.flatten.map cfg.recordKey).nodup_iff.1 hnd
  rw [List.flatten_cons, List.map_append, List.nodup_append] at hnd'
  exact fun h => hnd'.2.2 k h k hk rfl

/-- **One step out of the window.** It keeps the invariant and every spent mark. -/
theorem ClearStep.keeps {s t : Net ρ} {a : Act ρ} (h : ClearStep cfg s a t) (hs : s.Ok cfg) :
    t.Ok cfg ∧ ∀ k, Spent s.db.tokens k → Spent t.db.tokens k := by
  obtain ⟨hclear, hstep⟩ := h
  cases a with
  | insertClaim records =>
    obtain ⟨c, hc, hsub, hnd, hun, -, hst, -⟩ := claim_spec cfg records s.db.tokens
    simp only [Net.step, hc, Option.some.injEq] at hstep
    subst hstep
    have hsp : ∀ k, Spent (claim cfg records s.db.tokens).2 k ↔ Spent s.db.tokens k := fun k => by
      rw [hst]
      exact spent_claim hnd k
    have hkeys : (c.map (claimPut cfg s.db.tokens)).map Prod.fst = c.map cfg.recordKey := by rw [List.map_map]; rfl
    have hold : ∀ k, Claimed s.db.tokens k → (claim cfg records s.db.tokens).2.lookup k = s.db.tokens.lookup k := by
      intro k hk
      rw [hst]
      refine FMap.lookup_putAll_of_notMem (hkeys ▸ fun hm => ?_) _
      obtain ⟨r, hr, rfl⟩ := List.mem_map.1 hm
      exact hun r hr hk
    refine ⟨⟨?_, ?_, ?_⟩, fun k hk => (hsp k).2 hk⟩
    · rw [pendingKeys_claim]
      refine List.nodup_append.2 ⟨hs.nodup, hnd, fun k hk k' hk' he => ?_⟩
      subst he
      obtain ⟨r, hr, rfl⟩ := List.mem_map.1 hk'
      exact hun r hr (hs.claimed _ hk)
    · intro k hk
      rw [pendingKeys_claim, List.mem_append] at hk
      rcases hk with hk | hk
      · exact (claimed_congr (hold k (hs.claimed k hk))).2 (hs.claimed k hk)
      · obtain ⟨r, hr, rfl⟩ := List.mem_map.1 hk
        have hmem : (cfg.recordKey r, (claimPut cfg s.db.tokens r).2) ∈ c.map (claimPut cfg s.db.tokens) :=
          List.mem_map.2 ⟨r, hr, rfl⟩
        simp only [Claimed, hget, hst]
        rw [FMap.lookup_putAll_of_mem (hkeys ▸ hnd) hmem]
        simp [claimPut]
    · intro k hk
      rw [pendingKeys_claim, List.mem_append] at hk
      rw [hsp]
      rcases hk with hk | hk
      · exact hs.unspent k hk
      · obtain ⟨r, hr, rfl⟩ := List.mem_map.1 hk
        exact fun hspent => hun r hr (hclear r (hsub.subset hr) hspent)
  | insertFill call =>
    obtain ⟨c, hc, rfl⟩ := Option.map_eq_some_iff.1 hstep
    have hcsub : (c.map cfg.recordKey).Sublist (s.pendingKeys cfg) := by
      obtain ⟨hlt, rfl⟩ := List.getElem?_eq_some_iff.1 hc
      exact (List.sublist_flatten_of_mem (List.getElem_mem hlt)).map _
    have hlook : ∀ k, k ∉ c.map cfg.recordKey →
        (fill cfg c s.db.tokens).2.lookup k = s.db.tokens.lookup k := fun k hk => by
      rw [fill_spec cfg c _ (hs.nodup.sublist hcsub)]
      exact FMap.lookup_putAll_of_notMem (by rw [List.map_map]; exact hk) _
    refine ⟨hs.of_lookup ((flatten_eraseIdx_sublist _ _).map _) fun k hk => ?_, fun k hk => ?_⟩
    · exact hlook k (notMem_eraseIdx hc hs.nodup hk)
    · exact (spent_congr (hlook k fun hm => hs.unspent k (hcsub.subset hm) hk)).2 hk
  | replace now ns op =>
    obtain rfl : _ = t := Option.some.inj hstep
    refine ⟨hs.of_lookup (List.Sublist.refl _) fun k hk => ?_, fun k hk => ?_⟩
    · exact lookup_replaceLua_of_mem (mem_of_claimed (hs.claimed k hk)) fun hr hin => hclear hr k hin hk
    · exact (spent_congr (lookup_replaceLua_of_mem (mem_of_spent hk) fun hr hin => (hr k hin).2 hk)).2 hk
  | burn now ns hash record =>
    obtain rfl : _ = t := Option.some.inj hstep
    refine ⟨hs.of_lookup (List.Sublist.refl _) fun k hk => ?_, fun k hk => ?_⟩
    · refine lookup_burnLua_of_ne fun hr he => hclear hr ?_
      exact he ▸ hk
    · exact (spent_congr (lookup_burnLua_of_ne fun hr he => hr.2 (he ▸ hk))).2 hk

theorem checkTokens_spent_iff {db : Db} {ns : Namespace} {h : String} :
    checkTokens cfg ns [h] db = .ok [(h, some true)] ↔ Spent db.tokens (cfg.tokenKey ns h) := by
  simp [checkTokens, Spent]

/-- **Spent is final, away from the window.** From a store without half-done inserts, in every
interleaving whose steps are all `Clear`: a token `check_tokens` reports as spent in some state
is reported as spent in every later state. -/
theorem spent_is_final (cfg : StoreConfig ρ) (net₀ s t : Net ρ) (as bs : List (Act ρ)) (h0 : net₀.pending = [])
    (hs : Run (ClearStep cfg) net₀ as s) (ht : Run (ClearStep cfg) s bs t) (ns : Namespace) (h : String)
    (hspent : checkTokens cfg ns [h] s.db = .ok [(h, some true)]) :
    checkTokens cfg ns [h] t.db = .ok [(h, some true)] := by
  have hok₀ : net₀.Ok cfg := ⟨by simp [Net.pendingKeys, h0], by simp [Net.pendingKeys, h0],
    by simp [Net.pendingKeys, h0]⟩
  have hok : s.Ok cfg := Run.invariant (fun _ _ _ hst hI => (hst.keeps hI).1) hs hok₀
  have hlast := Run.invariant (I := fun u => u.Ok cfg ∧ Spent u.db.tokens (cfg.tokenKey ns h))
    (fun _ _ _ hst hI => ⟨(hst.keeps hI.1).1, (hst.keeps hI.1).2 _ hI.2⟩) ht
      ⟨hok, checkTokens_spent_iff.1 hspent⟩
  exact checkTokens_spent_iff.2 hlast.2

end

/-! ## The window -/

open Webycash.Redis.Sample

def burnOf (c : Char) : Act RgbFungibleRecord := .burn ⟨0⟩ ns (hash c) ⟨"burn-1", hash c, 0, ⟨0⟩⟩

/-- An insert that completes before its token is burnt, and a later insert of another token. -/
theorem burn_after_insert : ∃ s t : Net RgbFungibleRecord,
    Run (ClearStep cfg) ⟨Db.empty, []⟩ [.insertClaim [record 'a' 5 none], .insertFill 0, burnOf 'a'] s ∧
    Run (ClearStep cfg) s [.insertClaim [record 'b' 6 none], .insertFill 0] t ∧
    checkTokens cfg ns [hash 'a'] s.db = .ok [(hash 'a', some true)] ∧
    checkTokens cfg ns [hash 'a'] t.db = .ok [(hash 'a', some true)] := by
  have hrun : ((Run.exec (Net.clearStep cfg) ⟨Db.empty, []⟩
      [.insertClaim [record 'a' 5 none], .insertFill 0, burnOf 'a']).any fun s =>
        decide (checkTokens cfg ns [hash 'a'] s.db = .ok [(hash 'a', some true)]) &&
          (Run.exec (Net.clearStep cfg) s [.insertClaim [record 'b' 6 none], .insertFill 0]).isSome) = true := by
    decide +kernel
  obtain ⟨s, hs, hspent⟩ := (Option.any_eq_true _ _).1 hrun
  rw [Bool.and_eq_true, decide_eq_true_eq] at hspent
  obtain ⟨t, ht⟩ := Option.isSome_iff_exists.1 hspent.2
  have hs' := Run.of_exec clearStep_sound hs
  have ht' := Run.of_exec clearStep_sound ht
  exact ⟨s, t, hs', ht', hspent.1, spent_is_final cfg ⟨Db.empty, []⟩ s t _ _ rfl hs' ht' ns (hash 'a') hspent.1⟩

/-- A burn between the two pipelines of an insert: the token is reported spent, and reported
unspent once the insert finishes. -/
theorem burn_inside_insert :
    ((Run.exec (Net.step cfg) ⟨Db.empty, []⟩ [.insertClaim [record 'a' 5 none], burnOf 'a']).map fun s =>
      checkTokens cfg ns [hash 'a'] s.db) = some (.ok [(hash 'a', some true)]) ∧
    ((Run.exec (Net.step cfg) ⟨Db.empty, []⟩ [.insertClaim [record 'a' 5 none], burnOf 'a', .insertFill 0]).map
      fun s => checkTokens cfg ns [hash 'a'] s.db) = some (.ok [(hash 'a', some false)]) := by
  decide +kernel

end Webycash.Redis
