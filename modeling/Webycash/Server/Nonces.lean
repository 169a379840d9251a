import Webycash.Server.Plans
/-!
# Replay protection

The nonce cache keeps the accepted `(fingerprint, nonce)` pairs, up to `max_size` of them. A call
that finds it full empties it before the pair is looked up, so a pair is good once per filling of
the cache and not once and for all. `nonce_accepted_once` says what is left of replay protection,
for the cache and for the issue requests behind it.

| here | there |
| --- | --- |
| `NonceCache.withCapacity` | auth/src/lib.rs:184 |
| `NonceCache.Accepts`, `NonceCache.next` | the answer and the effect of `check_and_insert` (auth/src/lib.rs:193) |
| `nonceOf` | what `issue` hands to the cache (server-core/src/lib.rs:912) |
-/

namespace Webycash

/-- What a call of the cache is about. -/
abbrev NoncePair := PgpFingerprint × String

namespace NonceCache

def withCapacity (maxSize : Nat) : NonceCache := ⟨[], maxSize⟩

/-- `format!("{}:{}", fp.0, nonce)`. -/
def keyOf (p : NoncePair) : String := p.1.hex ++ ":" ++ p.2

def Accepts (c : NonceCache) (p : NoncePair) : Prop := (c.checkAndInsert p.1 p.2).1 = .ok ()

def next (c : NonceCache) (p : NoncePair) : NonceCache := (c.checkAndInsert p.1 p.2).2

/-- The cache after a sequence of calls. -/
def after (c : NonceCache) (calls : List NoncePair) : NonceCache := calls.foldl next c

/-- The next call will clear the cache. -/
def Full (c : NonceCache) : Prop := c.maxSize ≤ c.seen.length

instance decidableAccepts (c : NonceCache) (p : NoncePair) : Decidable (c.Accepts p) :=
  match h : (c.checkAndInsert p.1 p.2).1 with
  | .ok () => isTrue h
  | .error e => isFalse fun h' => by rw [Accepts, h] at h'; cases h'

instance decidableFull (c : NonceCache) : Decidable c.Full := inferInstanceAs (Decidable (_ ≤ _))

variable {c : NonceCache} {p q : NoncePair} {calls : List NoncePair}

/-- What is left of the cache when the pair is looked up. -/
def remembered (c : NonceCache) : List String := if c.Full then [] else c.seen

/-- Everything a call can do. -/
theorem checkAndInsert_cases (c : NonceCache) (p : NoncePair) :
    (keyOf p ∈ c.remembered ∧ c.checkAndInsert p.1 p.2 = (.error .replayedNonce, ⟨c.remembered, c.maxSize⟩)) ∨
    (keyOf p ∉ c.remembered ∧ c.checkAndInsert p.1 p.2 = (.ok (), ⟨keyOf p :: c.remembered, c.maxSize⟩)) := by
  by_cases hmem : keyOf p ∈ c.remembered
  · exact Or.inl ⟨hmem, if_pos hmem⟩
  · exact Or.inr ⟨hmem, if_neg hmem⟩

theorem accepts_iff : c.Accepts p ↔ c.Full ∨ keyOf p ∉ c.seen := by
  have hrem : keyOf p ∉ c.remembered ↔ c.Full ∨ keyOf p ∉ c.seen := by
    unfold remembered
    by_cases hfull : c.Full <;> simp [hfull]
  rw [← hrem, Accepts]
  rcases checkAndInsert_cases c p with ⟨hmem, he⟩ | ⟨hmem, he⟩ <;> simp [he, hmem]

/-- A refused call is answered with the replay error. -/
theorem checkAndInsert_of_not_accepts (h : ¬ c.Accepts p) : (c.checkAndInsert p.1 p.2).1 = .error .replayedNonce := by
  rw [Accepts] at h
  rcases checkAndInsert_cases c p with ⟨-, he⟩ | ⟨-, he⟩
  · rw [he]
  · simp [he] at h

@[simp] theorem maxSize_next : (c.next p).maxSize = c.maxSize := by
  rw [next]
  rcases checkAndInsert_cases c p with ⟨-, he⟩ | ⟨-, he⟩ <;> rw [he]

/-- Whatever the answer, the pair is in the cache afterwards. -/
theorem mem_next_self : keyOf p ∈ (c.next p).seen := by
  rw [next]
  rcases checkAndInsert_cases c p with ⟨hmem, he⟩ | ⟨-, he⟩
  · rw [he]
    exact hmem
  · rw [he]
    exact List.mem_cons_self

/-- Only a full cache forgets. -/
theorem mem_next (hfull : ¬ c.Full) {key : String} (h : key ∈ c.seen) : key ∈ (c.next p).seen := by
  have hrem : c.remembered = c.seen := if_neg hfull
  rw [next]
  rcases checkAndInsert_cases c p with ⟨-, he⟩ | ⟨-, he⟩
  · simpa [he, hrem] using h
  · simp [he, hrem, h]

theorem length_next_le : (c.next p).seen.length ≤ c.seen.length + 1 := by
  have hrem : c.remembered.length ≤ c.seen.length := by
    unfold remembered
    by_cases hfull : c.Full <;> simp [hfull]
  rw [next]
  rcases checkAndInsert_cases c p with ⟨-, he⟩ | ⟨-, he⟩
  · rw [he]
    exact Nat.le_succ_of_le hrem
  · rw [he]
    exact Nat.succ_le_succ hrem

theorem after_cons : c.after (p :: calls) = (c.next p).after calls := rfl

theorem after_append (calls' : List NoncePair) : c.after (calls ++ calls') = (c.after calls).after calls' := by
  unfold after
  rw [List.foldl_append]

@[simp] theorem maxSize_after (calls : List NoncePair) : (c.after calls).maxSize = c.maxSize := by
  induction calls generalizing c with
  | nil => rfl
  | cons q calls ih => rw [after_cons, ih, maxSize_next]

theorem length_after_le (calls : List NoncePair) : (c.after calls).seen.length ≤ c.seen.length + calls.length := by
  induction calls generalizing c with
  | nil => simp [after]
  | cons q calls ih =>
    have hstep : (c.next q).seen.length ≤ c.seen.length + 1 := length_next_le
    have hrest := ih (c := c.next q)
    rw [after_cons, List.length_cons]
    omega

/-- A pair stays in the cache through calls none of which finds it full. -/
theorem mem_after {key : String} (h : key ∈ c.seen)
    (hkeep : ∀ first q, first ++ [q] <+: calls → ¬ (c.after first).Full) :
    key ∈ (c.after calls).seen := by
  induction calls generalizing c with
  | nil => exact h
  | cons q calls ih =>
    rw [after_cons]
    refine ih (mem_next (hkeep [] q (by simp)) h) fun first r hpre => ?_
    exact hkeep (q :: first) r (by simpa using hpre)

/-- **Accepted again, only after a clear.** -/
theorem full_of_accepts_again (h : ((c.next p).after calls).Accepts p) : ∃ first, first <+: calls ∧
    ((c.next p).after first).Full := by
  by_contra hno
  push Not at hno
  have hmem : keyOf p ∈ ((c.next p).after calls).seen :=
    mem_after mem_next_self fun first q hpre => hno first ((List.prefix_append first [q]).trans hpre)
  rcases accepts_iff.1 h with hfull | hfresh
  · exact hno calls List.prefix_rfl hfull
  · exact hfresh hmem

/-- An empty cache is not full before `max_size` calls. -/
theorem le_length_of_full {cap : Nat} (h : ((withCapacity cap).after calls).Full) : cap ≤ calls.length := by
  unfold Full at h
  rw [maxSize_after] at h
  have hlen := length_after_le (c := withCapacity cap) calls
  have hcap : (withCapacity cap).maxSize = cap := rfl
  have hseen : (withCapacity cap).seen.length = 0 := rfl
  omega

end NonceCache

/-! ## Issue requests -/

section

variable {σ ρ : Type}

/-- The pair an issue request brings to the cache: the signed ones only. -/
def nonceOf (cfg : ServeConfig) (req : IssueRequest) : Option NoncePair :=
  (authorise cfg req).toOption.map fun x => (x.1, x.2.nonce)

/-- The cache after a sequence of issue requests. No other endpoint touches it. -/
def noncesAfter (A : Asset σ ρ) (I : IssuedAsset σ) (check : List σ → Except String Unit) (cfg : ServeConfig) :
    List (RequestEnv × IssueRequest) → NonceCache → NonceCache
  | [], nonces => nonces
  | (env, req) :: reqs, nonces => noncesAfter A I check cfg reqs (planIssue A I check cfg env req nonces).2

variable {A : Asset σ ρ} {I : IssuedAsset σ} {check : List σ → Except String Unit} {cfg : ServeConfig}
  {env : RequestEnv} {req : IssueRequest} {nonces : NonceCache}

theorem planIssue_nonces : (planIssue A I check cfg env req nonces).2 = nonces.after (nonceOf cfg req).toList := by
  unfold planIssue nonceOf
  cases authorise cfg req with
  | error e => rfl
  | ok x =>
    obtain ⟨issuer, parsed⟩ := x
    have hnext : nonces.after (((Except.ok (issuer, parsed) : Except String (PgpFingerprint × IssueBody)).toOption.map
        fun x => (x.1, x.2.nonce)).toList) = (nonces.checkAndInsert issuer parsed.nonce).2 := rfl
    rw [hnext]
    dsimp only
    split
    · rename_i h; rw [h]
    · rename_i h; rw [h]

theorem noncesAfter_eq (reqs : List (RequestEnv × IssueRequest)) :
    noncesAfter A I check cfg reqs nonces = nonces.after (reqs.filterMap fun r => nonceOf cfg r.2) := by
  induction reqs generalizing nonces with
  | nil => rfl
  | cons r reqs ih =>
    obtain ⟨env, req⟩ := r
    rw [noncesAfter, ih, planIssue_nonces, List.filterMap_cons]
    cases nonceOf cfg req with
    | none => rfl
    | some p => rfl

/-- A signed request whose pair the cache refuses ends with the replay error. -/
theorem planIssue_of_refused {p : NoncePair} (hp : nonceOf cfg req = some p) (h : ¬ nonces.Accepts p) :
    (planIssue A I check cfg env req nonces).1 = .error "nonce: nonce already seen (replay)" := by
  unfold nonceOf at hp
  unfold planIssue
  cases hauth : authorise cfg req with
  | error e => simp [hauth, Except.toOption] at hp
  | ok x =>
    obtain ⟨issuer, parsed⟩ := x
    obtain rfl : (issuer, parsed.nonce) = p := by simpa [hauth, Except.toOption] using hp
    have hans := NonceCache.checkAndInsert_of_not_accepts h
    dsimp only at hans ⊢
    split
    · rename_i e nonces' heq
      rw [heq] at hans
      cases hans
      rfl
    · rename_i nonces' heq
      rw [heq] at hans
      cases hans

/-- **A nonce is accepted at most once per filling of the cache.** For every capacity and every
sequence of calls: between two acceptances of one pair some call after the first has found the
cache full, and an empty cache is not full before `max_size` calls. So a signed request that
comes again is answered with the replay error, unless since its first time the cache was full. -/
theorem nonce_accepted_once (A : Asset σ ρ) (I : IssuedAsset σ) (check : List σ → Except String Unit)
    (cfg : ServeConfig) (cap : Nat) :
    (∀ (before between : List NoncePair) (p : NoncePair),
      ((NonceCache.withCapacity cap).after before).Accepts p →
      ((NonceCache.withCapacity cap).after (before ++ p :: between)).Accepts p →
      ∃ first, first <+: between ∧ ((NonceCache.withCapacity cap).after (before ++ p :: first)).Full) ∧
    (∀ calls : List NoncePair, ((NonceCache.withCapacity cap).after calls).Full → cap ≤ calls.length) ∧
    (∀ (before between : List (RequestEnv × IssueRequest)) (env env' : RequestEnv) (req : IssueRequest)
      (p : NoncePair),
      nonceOf cfg req = some p →
      (∀ first, first <+: between →
        ¬ (noncesAfter A I check cfg (before ++ (env, req) :: first) (NonceCache.withCapacity cap)).Full) →
      (planIssue A I check cfg env' req
        (noncesAfter A I check cfg (before ++ (env, req) :: between) (NonceCache.withCapacity cap))).1 =
          .error "nonce: nonce already seen (replay)") := by
  refine ⟨fun before between p _ h => ?_, fun calls => NonceCache.le_length_of_full,
    fun before between env env' req p hp hkeep => ?_⟩
  · rw [NonceCache.after_append, NonceCache.after_cons] at h
    obtain ⟨first, hpre, hfull⟩ := NonceCache.full_of_accepts_again h
    exact ⟨first, hpre, by rwa [NonceCache.after_append, NonceCache.after_cons]⟩
  · -- the requests in between reach the cache as the pairs of the signed ones
    have hcache : ∀ reqs, noncesAfter A I check cfg (before ++ (env, req) :: reqs) (NonceCache.withCapacity cap) =
        ((noncesAfter A I check cfg before (NonceCache.withCapacity cap)).next p).after
          (reqs.filterMap fun r => nonceOf cfg r.2) := by
      intro reqs
      rw [noncesAfter_eq, List.filterMap_append, List.filterMap_cons, hp, NonceCache.after_append, ← noncesAfter_eq]
      rfl
    refine planIssue_of_refused hp fun hacc => ?_
    rw [hcache] at hacc
    obtain ⟨first, hpre, hfull⟩ := NonceCache.full_of_accepts_again hacc
    obtain ⟨reqs, hreqs, rfl⟩ := List.prefix_filterMap_iff.1 hpre
    exact hkeep reqs hreqs (hcache reqs ▸ hfull)

end

/-! ## A captured request -/

namespace Sample

/-- The voucher issuer whose Ed25519 seed is thirty-two bytes of 42. -/
def issuerKey : String := "197f6b23e16c8532c6abc838facd5ea789be0c76b2920334039bfa8b3d368d61"

def cafe : PgpFingerprint := ⟨"197f6b23e16c8532c6abc838facd5ea789be0c76"⟩

def voucherToken (amount : String) (c : Char) : String := token amount c ++ ":cafe-2026:" ++ cafe.hex

/-- The request body as it goes over the wire. -/
def issueText : String :=
  "\x7b\"issuer_fp\":\"" ++ cafe.hex ++ "\",\"outputs\":[\"" ++ voucherToken "1" 'a' ++
    "\"],\"nonce\":\"n-1\",\"legalese\":\x7b\"terms\":true\x7d\x7d"

/-- The issuer's signature of those bytes. -/
def issueSignature : String :=
  "f04da74d48fa250c0d9f27f84190a4f5aec2eeac966a859b79b66de13f7a3a27" ++
    "97b393db6a723ade060f74711581a3e6aba1f63e836623a49a707a588a17e70f"

def issueRequest : IssueRequest :=
  ⟨some issueSignature, asBytes issueText, .ok ⟨cafe.hex, [voucherToken "1" 'a'], "n-1", some true⟩⟩

/-- Only one signature is known to be good. -/
def registry : IssuerRegistry where
  keys := FMap.ofPairs [(cafe.hex, (Hex.decode (asBytes issuerKey)).toOption.getD [])]
  verifies key body sig := decide (Except.ok key = Hex.decode (asBytes issuerKey) ∧ body = asBytes issueText ∧
    Except.ok sig = Hex.decode (asBytes issueSignature))
  toLowercase := String.toLower

/-- Mining is off. -/
def issuerConfig : ServeConfig where
  mining := ⟨.disabled, 0, 0, none, false⟩
  issuers := some registry
  decodePreimage _ := .error "expected value at line 1 column 1"

/-- The pair of the signed request, and another one. -/
def firstPair : NoncePair := (cafe, "n-1")
def secondPair : NoncePair := (cafe, "n-2")

end Sample

open Sample

/-- A cache for two pairs: after two different nonces the first one is accepted again, and so is
the captured request that carried it. -/
theorem nonce_accepted_twice :
    (NonceCache.withCapacity 2).Accepts firstPair ∧
    ((NonceCache.withCapacity 2).after [firstPair]).Accepts secondPair ∧
    ((NonceCache.withCapacity 2).after [firstPair, secondPair]).Accepts firstPair ∧
    nonceOf issuerConfig issueRequest = some firstPair ∧
    (planIssue (voucher .atEpoch).toAsset issuedSecrets (fun _ => .ok ()) issuerConfig env issueRequest
      ((NonceCache.withCapacity 2).after [firstPair, secondPair])).1.isOk = true := by
  decide +kernel

/-- In a cache for three pairs the second try is refused. -/
theorem captured_request_refused :
    nonceOf issuerConfig issueRequest = some firstPair ∧
    ((NonceCache.withCapacity 2).after [firstPair, secondPair]).Full ∧
    (planIssue (voucher .atEpoch).toAsset issuedSecrets (fun _ => .ok ()) issuerConfig env issueRequest
      (noncesAfter (voucher .atEpoch).toAsset issuedSecrets (fun _ => .ok ()) issuerConfig [(env, issueRequest)]
        (NonceCache.withCapacity 3))).1 = .error "nonce: nonce already seen (replay)" := by
  have hp : nonceOf issuerConfig issueRequest = some firstPair := by decide +kernel
  have hacc : (NonceCache.withCapacity 2).Accepts firstPair ∧
      ((NonceCache.withCapacity 2).after [firstPair, secondPair]).Accepts firstPair := by decide +kernel
  have honce := nonce_accepted_once (voucher .atEpoch).toAsset issuedSecrets (fun _ => .ok ()) issuerConfig
  obtain ⟨first, hpre, hfull⟩ := (honce 2).1 [] [secondPair] firstPair hacc.1 hacc.2
  have hfirst : first = [secondPair] := by
    rcases List.prefix_cons_iff.1 hpre with rfl | ⟨rest, rfl, hrest⟩
    · exact absurd hfull (by decide +kernel)
    · rw [List.prefix_nil.1 hrest]
  refine ⟨hp, hfirst ▸ hfull, (honce 3).2.2 [] [] env env issueRequest firstPair hp fun first hpre => ?_⟩
  obtain rfl : first = [] := List.prefix_nil.1 hpre
  decide +kernel

end Webycash
