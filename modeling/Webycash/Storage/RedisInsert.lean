import Webycash.Storage.RedisScripts
/-!
# `insert_tokens` on Redis

`claim_spec` and `fill_spec` describe the two pipelines, `insertTokens_spec` the whole call: the
records whose key had no `amount_wats` yet, each the first of its key in the batch, are laid
over what their keys hold, and the answer is `Ok` when that is every record.
-/

namespace Webycash.Redis

open Stride

section

variable {ρ : Type} (cfg : StoreConfig ρ)

/-- The field `HSETNX` looks at is there. -/
def Claimed (t : Tokens) (k : String) : Prop := (hget t k "amount_wats").isSome

instance decidableClaimed (t : Tokens) (k : String) : Decidable (Claimed t k) := inferInstanceAs (Decidable (_ = true))

theorem mem_of_claimed {t : Tokens} {k : String} (h : Claimed t k) : k ∈ t := by
  by_contra hk
  rw [Claimed, hget_eq_lookup_hgetall, hgetall_of_notMem hk] at h
  simp at h

/-- What the first pipeline writes for a record it creates. -/
def claimPut (t : Tokens) (r : ρ) : String × Fields :=
  (cfg.recordKey r, (hgetall t (cfg.recordKey r)).insert "amount_wats" (cfg.codec.amountWats r).toText)

/-- What the second pipeline writes for it. -/
def fillPut (t : Tokens) (r : ρ) : String × Fields :=
  (cfg.recordKey r, FMap.putAll (hgetall t (cfg.recordKey r)) (restFields cfg r))

/-- What the whole call writes for it: the record's fields over what the key held. -/
def overlay (t : Tokens) (r : ρ) : String × Fields :=
  (cfg.recordKey r, FMap.putAll (hgetall t (cfg.recordKey r)) (cfg.codec.toFields r))

theorem restFields_ne_nil (r : ρ) : restFields cfg r ≠ [] :=
  List.ne_nil_of_mem (List.mem_filter.2 ⟨cfg.codec.spent_mem r, by simp⟩)

theorem putAll_insert_restFields (f : Fields) (r : ρ) :
    FMap.putAll (f.insert "amount_wats" (cfg.codec.amountWats r).toText) (restFields cfg r) =
      FMap.putAll f (cfg.codec.toFields r) :=
  FMap.putAll_insert_filter (cfg.codec.names_nodup r) (cfg.codec.amount_mem r) f

/-! ## First pipeline -/

theorem hsetnx_of_claimed {t : Tokens} {r : ρ} (h : Claimed t (cfg.recordKey r)) :
    hsetnx t (cfg.recordKey r) "amount_wats" (cfg.codec.amountWats r).toText = (false, t) := if_pos h

theorem hsetnx_of_not_claimed {t : Tokens} {r : ρ} (h : ¬ Claimed t (cfg.recordKey r)) :
    hsetnx t (cfg.recordKey r) "amount_wats" (cfg.codec.amountWats r).toText =
      (true, t.insert (cfg.recordKey r) (claimPut cfg t r).2) := if_neg h

theorem created_cons (b : Bool) (nx : List Bool) (r : ρ) (rs : List ρ) :
    created (b :: nx) (r :: rs) = if b then r :: created nx rs else created nx rs := by
  cases b <;> rfl

theorem claimed_insert {t : Tokens} {r : ρ} {k : String} :
    Claimed (t.insert (cfg.recordKey r) (claimPut cfg t r).2) k ↔ k = cfg.recordKey r ∨ Claimed t k := by
  unfold Claimed hget
  rw [FMap.lookup_insert_ite]
  by_cases hk : k = cfg.recordKey r
  · simp [hk, claimPut]
  · simp [hk]

theorem length_claim : ∀ (rs : List ρ) (t : Tokens), (claim cfg rs t).1.length = rs.length
  | [], _ => rfl
  | r :: rs, t => by
    rw [claim, List.length_cons, length_claim rs, List.length_cons]

/-- **First pipeline.** It creates, in order, the records whose key is not claimed yet. -/
theorem claim_spec : ∀ (rs : List ρ) (t : Tokens), ∃ c, created (claim cfg rs t).1 rs = c ∧
    c.Sublist rs ∧ (c.map cfg.recordKey).Nodup ∧ (∀ r ∈ c, ¬ Claimed t (cfg.recordKey r)) ∧
    (∀ r ∈ rs, Claimed t (cfg.recordKey r) ∨ ∃ r' ∈ c, cfg.recordKey r' = cfg.recordKey r) ∧
    (claim cfg rs t).2 = FMap.putAll t (c.map (claimPut cfg t)) ∧
    ((∀ b ∈ (claim cfg rs t).1, b = true) ↔ c = rs)
  | [], t => ⟨[], rfl, List.Sublist.refl _, by simp, by simp, by simp, rfl, by simp [claim]⟩
  | r :: rs, t => by
    by_cases h : Claimed t (cfg.recordKey r)
    · obtain ⟨c, hc, hsub, hnd, hun, hall, hst, hiff⟩ := claim_spec rs t
      refine ⟨c, ?_, hsub.cons r, hnd, hun, ?_, ?_, ?_⟩
      · simp only [claim, hsetnx_of_claimed cfg h, created_cons, hc, Bool.false_eq_true, if_false]
      · intro r' hr'
        rcases List.mem_cons.1 hr' with rfl | hr'
        · exact Or.inl h
        · exact hall r' hr'
      · simp only [claim, hsetnx_of_claimed cfg h, hst]
      · simp only [claim, hsetnx_of_claimed cfg h, List.mem_cons, forall_eq_or_imp, Bool.false_eq_true, false_and,
          false_iff]
        intro he
        have := hsub.length_le
        rw [he, List.length_cons] at this
        omega
    · obtain ⟨c, hc, hsub, hnd, hun, hall, hst, hiff⟩ :=
        claim_spec rs (t.insert (cfg.recordKey r) (claimPut cfg t r).2)
      have hun' : ∀ r' ∈ c, cfg.recordKey r' ≠ cfg.recordKey r ∧
          ¬ Claimed t (cfg.recordKey r') := fun r' hr' =>
        not_or.1 fun hcl => hun r' hr' ((claimed_insert cfg).2 hcl)
      refine ⟨r :: c, ?_, hsub.cons_cons r, ?_, ?_, ?_, ?_, ?_⟩
      · simp only [claim, hsetnx_of_not_claimed cfg h, created_cons, hc, if_true]
      · rw [List.map_cons, List.nodup_cons]
        refine ⟨fun hmem => ?_, hnd⟩
        obtain ⟨r', hr', hk⟩ := List.mem_map.1 hmem
        exact (hun' r' hr').1 hk
      · intro r' hr'
        rcases List.mem_cons.1 hr' with rfl | hr'
        · exact h
        · exact (hun' r' hr').2
      · intro r' hr'
        rcases List.mem_cons.1 hr' with rfl | hr'
        · exact Or.inr ⟨r', List.mem_cons_self, rfl⟩
        · rcases hall r' hr' with hcl | ⟨r'', hr'', hk⟩
          · rcases (claimed_insert cfg).1 hcl with hk | hcl
            · exact Or.inr ⟨r, List.mem_cons_self, hk.symm⟩
            · exact Or.inl hcl
          · exact Or.inr ⟨r'', List.mem_cons_of_mem _ hr'', hk⟩
      · -- later records have other keys, so they read the original map
        simp only [claim, hsetnx_of_not_claimed cfg h, hst, List.map_cons, FMap.putAll_cons]
        refine congrArg (FMap.putAll _) (List.map_congr_left fun r' hr' => ?_)
        simp only [claimPut, hgetall, FMap.lookup_insert_ite, (hun' r' hr').1, if_false]
      · simp only [claim, hsetnx_of_not_claimed cfg h, List.mem_cons, forall_eq_or_imp, true_and, hiff,
          List.cons.injEq]

/-! ## Second pipeline -/

theorem fill_cons (r : ρ) (rs : List ρ) (t : Tokens) : fill cfg (r :: rs) t =
    fill cfg rs (t.insert (cfg.recordKey r) (FMap.putAll (hgetall t (cfg.recordKey r)) (restFields cfg r))) := by
  rw [fill, hset_flattenPairs t _ (restFields_ne_nil cfg r)]

/-- **Second pipeline.** Every command succeeds; the remaining fields go over what is there. -/
theorem fill_spec : ∀ (rs : List ρ) (t : Tokens), (rs.map cfg.recordKey).Nodup →
    fill cfg rs t = (true, FMap.putAll t (rs.map (fillPut cfg t)))
  | [], _, _ => rfl
  | r :: rs, t, hnd => by
    rw [List.map_cons, List.nodup_cons] at hnd
    rw [fill_cons, fill_spec rs _ hnd.2, List.map_cons, FMap.putAll_cons]
    refine congrArg (fun l => (true, FMap.putAll _ l)) (List.map_congr_left fun r' hr' => ?_)
    have hne : cfg.recordKey r' ≠ cfg.recordKey r := fun he => hnd.1 (List.mem_map.2 ⟨r', hr', he⟩)
    simp only [fillPut, hgetall, FMap.lookup_insert_ite, hne, if_false]

/-- Both pipelines over the same created records: their own fields over what was there. -/
theorem fill_over_claim {c : List ρ} (hnd : (c.map cfg.recordKey).Nodup) (t : Tokens) :
    FMap.putAll (FMap.putAll t (c.map (claimPut cfg t)))
      (c.map (fillPut cfg (FMap.putAll t (c.map (claimPut cfg t))))) =
      FMap.putAll t (c.map (overlay cfg t)) := by
  have hkeys : (c.map (claimPut cfg t)).map Prod.fst = c.map cfg.recordKey := by rw [List.map_map]; rfl
  have hover : c.map (fillPut cfg (FMap.putAll t (c.map (claimPut cfg t)))) = c.map (overlay cfg t) := by
    refine List.map_congr_left fun r hr => ?_
    have hmem : (cfg.recordKey r, (claimPut cfg t r).2) ∈ c.map (claimPut cfg t) := List.mem_map.2 ⟨r, hr, rfl⟩
    have hlook : (FMap.putAll t (c.map (claimPut cfg t))).lookup (cfg.recordKey r) = some (claimPut cfg t r).2 :=
      FMap.lookup_putAll_of_mem (hkeys ▸ hnd) hmem t
    rw [fillPut, hgetall, hlook, Option.getD_some, claimPut, putAll_insert_restFields, overlay]
  rw [hover]
  refine FMap.putAll_putAll_of_subset ?_ t
  rw [hkeys, List.map_map]
  exact fun _ h => h

/-! ## The whole call -/

theorem insertAnswer_ok_iff {nx : List Bool} : ∀ {rs : List ρ}, nx.length = rs.length →
    (insertAnswer cfg nx rs = .ok () ↔ ∀ b ∈ nx, b = true) := by
  induction nx with
  | nil => intro rs _; simp [insertAnswer]
  | cons b nx ih =>
    intro rs hlen
    obtain ⟨r, rs, rfl⟩ := List.exists_cons_of_length_eq_add_one hlen.symm
    cases b with
    | false => simp [insertAnswer]
    | true =>
      rw [List.forall_mem_cons, ← ih (by simpa using hlen)]
      simp [insertAnswer]

theorem insertTokens_nil (db : Db) : insertTokens cfg [] db = (.ok (), db) := rfl

/-- **`insert_tokens` on Redis.** The created records `c` are laid over their keys and the
answer is `Ok` exactly when `c` is the whole batch. -/
theorem insertTokens_spec (rs : List ρ) (db : Db) : ∃ c : List ρ, c.Sublist rs ∧ (c.map cfg.recordKey).Nodup ∧
    (∀ r ∈ c, ¬ Claimed db.tokens (cfg.recordKey r)) ∧
    (∀ r ∈ rs, Claimed db.tokens (cfg.recordKey r) ∨ ∃ r' ∈ c, cfg.recordKey r' = cfg.recordKey r) ∧
    (insertTokens cfg rs db).2 = { db with tokens := FMap.putAll db.tokens (c.map (overlay cfg db.tokens)) } ∧
    ((insertTokens cfg rs db).1 = .ok () ↔ c = rs) := by
  cases rs with
  | nil => exact ⟨[], List.Sublist.refl _, by simp, by simp, by simp, rfl, by simp [insertTokens_nil]⟩
  | cons r rs =>
    obtain ⟨c, hc, hsub, hnd, hun, hall, hst, hiff⟩ := claim_spec cfg (r :: rs) db.tokens
    have hfill := fill_spec cfg c (claim cfg (r :: rs) db.tokens).2 hnd
    refine ⟨c, hsub, hnd, hun, hall, ?_, ?_⟩
    · simp only [insertTokens, hc, hfill]
      rw [hst, fill_over_claim cfg hnd]
    · simp only [insertTokens, hc, hfill, if_true]
      rw [insertAnswer_ok_iff cfg (length_claim cfg (r :: rs) db.tokens), hiff]

/-- **Which batches Redis accepts.** Distinct keys without an `amount_wats`. -/
theorem insertTokens_ok_iff {rs : List ρ} {db : Db} : (insertTokens cfg rs db).1 = .ok () ↔
    (rs.map cfg.recordKey).Nodup ∧ ∀ r ∈ rs, ¬ Claimed db.tokens (cfg.recordKey r) := by
  obtain ⟨c, hsub, hnd, hun, hall, -, hiff⟩ := insertTokens_spec cfg rs db
  rw [hiff]
  constructor
  · rintro rfl
    exact ⟨hnd, hun⟩
  · rintro ⟨hnd', hun'⟩
    refine hsub.eq_of_length_le ((List.Nodup.of_map _ hnd').subperm fun r hr => ?_).length_le
    rcases hall r hr with hcl | ⟨r', hr', hk⟩
    · exact absurd hcl (hun' r hr)
    · rwa [List.inj_on_of_nodup_map hnd' (hsub.subset hr') hr hk] at hr'

theorem insertTokens_of_ok {rs : List ρ} {db : Db} (h : (insertTokens cfg rs db).1 = .ok ()) :
    (insertTokens cfg rs db).2 = { db with tokens := FMap.putAll db.tokens (rs.map (overlay cfg db.tokens)) } := by
  obtain ⟨c, -, -, -, -, hst, hiff⟩ := insertTokens_spec cfg rs db
  rw [hst, hiff.1 h]

end

/-! ## Cut pipelines -/

section

variable {ρ : Type} {cfg : StoreConfig ρ} {t : Tokens} {k : String}

theorem claimed_claim_of_claimed (rs : List ρ) (h : Claimed t k) : Claimed (claim cfg rs t).2 k := by
  induction rs generalizing t with
  | nil => exact h
  | cons r rs ih =>
    by_cases hr : Claimed t (cfg.recordKey r)
    · simpa only [claim, hsetnx_of_claimed cfg hr] using ih h
    · simpa only [claim, hsetnx_of_not_claimed cfg hr] using ih ((claimed_insert cfg).2 (Or.inr h))

/-- After the first pipeline every key is claimed. -/
theorem claimed_claim {rs : List ρ} {r : ρ} (h : r ∈ rs) : Claimed (claim cfg rs t).2 (cfg.recordKey r) := by
  induction rs generalizing t with
  | nil => cases h
  | cons r' rs ih =>
    rcases List.mem_cons.1 h with rfl | h
    · by_cases hr : Claimed t (cfg.recordKey r)
      · simpa only [claim, hsetnx_of_claimed cfg hr] using claimed_claim_of_claimed rs hr
      · simpa only [claim, hsetnx_of_not_claimed cfg hr] using
          claimed_claim_of_claimed rs ((claimed_insert cfg).2 (Or.inl rfl))
    · exact ih h

/-- The first pipeline changes nothing when every key is taken. -/
theorem claim_eq_self_iff {rs : List ρ} : (claim cfg rs t).2 = t ↔ ∀ r ∈ rs, Claimed t (cfg.recordKey r) := by
  constructor
  · intro h r hr
    rw [← h]
    exact claimed_claim hr
  · intro h
    induction rs with
    | nil => rfl
    | cons r rs ih =>
      simp only [claim, hsetnx_of_claimed cfg (h r List.mem_cons_self)]
      exact ih fun r' hr' => h r' (List.mem_cons_of_mem _ hr')

theorem claimed_fill (rs : List ρ) (h : Claimed t k) : Claimed (fill cfg rs t).2 k := by
  induction rs generalizing t with
  | nil => exact h
  | cons r rs ih =>
    rw [fill_cons]
    apply ih
    unfold Claimed hget at h ⊢
    rw [FMap.lookup_insert_ite]
    by_cases hk : k = cfg.recordKey r
    · subst hk
      have hnone : "amount_wats" ∉ (restFields cfg r).map Prod.fst := by
        intro hmem
        obtain ⟨p, hp, he⟩ := List.mem_map.1 hmem
        have := (List.mem_filter.1 hp).2
        simp [he] at this
      cases ht : t.lookup (cfg.recordKey r) with
      | none => simp [ht] at h
      | some f => simpa [hgetall, ht, FMap.lookup_putAll_of_notMem hnone] using h
    · simpa [hk] using h

/-- Records with distinct free keys are all created, and only those. -/
theorem created_claim_eq_self_iff {rs : List ρ} (hnd : (rs.map cfg.recordKey).Nodup) :
    created (claim cfg rs t).1 rs = rs ↔ ∀ r ∈ rs, ¬ Claimed t (cfg.recordKey r) := by
  obtain ⟨c, hc, hsub, -, hun, hall, -, -⟩ := claim_spec cfg rs t
  rw [hc]
  constructor
  · rintro rfl
    exact hun
  · intro hfree
    refine hsub.eq_of_length_le ((List.Nodup.of_map _ hnd).subperm fun r hr => ?_).length_le
    rcases hall r hr with hcl | ⟨r', hr', hk⟩
    · exact absurd hcl (hfree r hr)
    · rwa [List.inj_on_of_nodup_map hnd (hsub.subset hr') hr hk] at hr'

end

end Webycash.Redis
