import Webycash.Legacy.Miner
/-!
# Replace validation of the monolithic server (`server/src/effects/replace.rs`)

The checks are those of `replace` in the newer server with one more per token: its amount must be
positive. `legacy_accepts_iff` compares the two on every request the newer server has summed up.
-/

namespace Webycash.Legacy.Replace

/-- The fold both lists go through. -/
def parseTokens (invalid notPositive overflow : String) : List String → Amount →
    Except String (List SecretWebcash × Amount)
  | [], total => .ok ([], total)
  | token :: tokens, total => do
    let secret ← require? (fromStr token) (invalid ++ "invalid token format: " ++ token)
    let _ ← require (0 < secret.amount.wats.val) notPositive
    match total.checkedAdd secret.amount with
    | none => .error overflow
    | some total' => do
      let (secrets, sum) ← parseTokens invalid notPositive overflow tokens total'
      return (secret :: secrets, sum)

/-- `parse_inputs`. -/
def parseInputs (webcashes : List String) : Except String (List String × Amount) := do
  let (secrets, total) ← parseTokens "invalid input webcash: " "input amount must be positive" "input amount overflow"
    webcashes .zero
  return (secrets.map fun s => s.toPublic.hash, total)

def replacedRecord (now : DateTime) (s : SecretWebcash) : TokenRecord :=
  ⟨s.toPublic.hash, s.amount.wats, false, now, none, .replaced⟩

/-- `parse_outputs`. -/
def parseOutputs (newWebcashes : List String) (now : DateTime) : Except String (List TokenRecord × Amount) := do
  let (secrets, total) ← parseTokens "invalid output webcash: " "output amount must be positive"
    "output amount overflow"
    newWebcashes .zero
  return (secrets.map (replacedRecord now), total)

structure ReplaceValidated where
  inputHashes : List String
  outputRecords : List TokenRecord
  record : ReplacementRecord

def ReplaceValidated.intoOp (v : ReplaceValidated) : ReplaceOp TokenRecord :=
  ⟨v.inputHashes, v.outputRecords, v.record⟩

def parseAndValidateReplace (env : RequestEnv) (webcashes newWebcashes : List String) :
    Except String ReplaceValidated := do
  let (inputHashes, inputTotal) ← parseInputs webcashes
  let (outputRecords, outputTotal) ← parseOutputs newWebcashes env.now
  let _ ← require (inputTotal = outputTotal)
    ("amount mismatch: inputs=" ++ inputTotal.display ++ " outputs=" ++ outputTotal.display)
  let _ ← require (0 < inputTotal.wats.val) "replacement must have positive amount"
  return ⟨inputHashes, outputRecords,
    ⟨env.uuid, inputHashes, outputRecords.map WebcashRecord.publicHash, inputTotal.wats, env.now⟩⟩

/-! ## Beside the newer server -/

/-- What the newer parser reads the older one reads alike. -/
theorem fromStr_of_parse {t : String} {s : SecretWebcash} (h : SecretWebcash.parse t = some s) :
    fromStr t = some s := by
  obtain ⟨⟨amount, hex⟩, htoken, rfl⟩ := Option.map_eq_some_iff.1 h
  unfold webcashToken at htoken
  obtain ⟨⟨amt, hexChars⟩, hc, htoken⟩ := Option.bind_eq_some_iff.1 htoken
  obtain ⟨⟨amt', hex', rest⟩, hhead, he⟩ := Option.map_eq_some_iff.1 (complete_eq_some.1 hc)
  obtain ⟨a, ha, htoken⟩ := Option.bind_eq_some_iff.1 htoken
  cases he
  cases htoken
  unfold fromStr
  rw [hhead]
  simp only [Option.bind_eq_bind, Option.bind_some, ha, Option.pure_def]

variable {chrono : Codec} {invalid overflow invalid' notPositive overflow' : String}

/-- A list the newer server sums up passes the older loop exactly when every amount is positive. -/
theorem parseTokens_of_sum : ∀ {tokens : List String} {total sum : Amount} {ss : List SecretWebcash},
    sumTokens (webcash chrono) invalid overflow tokens total = .ok (ss, sum) →
    ((∀ s ∈ ss, 0 < s.amount.wats.val) → parseTokens invalid' notPositive overflow' tokens total =
      .ok (ss, sum)) ∧
      ∀ out, parseTokens invalid' notPositive overflow' tokens total = .ok out → ∀ s ∈ ss, 0 < s.amount.wats.val
  | [], total, sum, ss, h => by
    cases h
    exact ⟨fun _ => rfl, fun _ _ s hs => by cases hs⟩
  | token :: tokens, total, sum, ss, h => by
    unfold sumTokens at h
    obtain ⟨s, hs, h⟩ := Except.bind_ok_iff.1 h
    rw [orElse_ok_iff] at hs
    have hfrom : fromStr token = some s := fromStr_of_parse (parseOr_ok hs)
    split at h
    · cases h
    rename_i total' htotal
    obtain ⟨⟨ss', sum'⟩, hrec, h⟩ := Except.bind_ok_iff.1 h
    cases h
    have hadd : total.checkedAdd s.amount = some total' := htotal
    obtain ⟨hpass, hpos⟩ := parseTokens_of_sum hrec
    constructor
    · intro hall
      have hhead : require (0 < s.amount.wats.val) notPositive = .ok () := require_ok_iff.2 (hall s List.mem_cons_self)
      unfold parseTokens
      rw [require?_ok_iff.2 hfrom]
      refine Except.bind_ok_iff.2 ⟨s, rfl, Except.bind_ok_iff.2 ⟨(), hhead, ?_⟩⟩
      rw [hadd]
      exact Except.bind_ok_iff.2 ⟨_, hpass fun x hx => hall x (List.mem_cons_of_mem _ hx), rfl⟩
    · intro out hout
      unfold parseTokens at hout
      obtain ⟨s₁, hs₁, hout⟩ := Except.bind_ok_iff.1 hout
      obtain rfl : s₁ = s := Option.some.inj ((require?_ok_iff.1 hs₁).symm.trans hfrom)
      obtain ⟨_, hhead, hout⟩ := Except.bind_ok_iff.1 hout
      rw [hadd] at hout
      obtain ⟨out', hrest, -⟩ := Except.bind_ok_iff.1 hout
      intro x hx
      rcases List.mem_cons.1 hx with rfl | hx
      · exact require_ok_iff.1 hhead
      · exact hpos out' hrest x hx

/-- **Where the two servers differ.** Of the requests whose totals agree the older server accepts
those that move something and name no token of amount zero. -/
theorem legacy_accepts_iff {env : RequestEnv} {webcashes newWebcashes : List String} {ins outs : List SecretWebcash}
    {total : Amount} (hin : sumTokens (webcash chrono) invalid overflow webcashes .zero = .ok (ins, total))
    (hout : sumTokens (webcash chrono) invalid overflow newWebcashes .zero = .ok (outs, total)) :
    (∃ v, parseAndValidateReplace env webcashes newWebcashes = .ok v) ↔
      (∀ s ∈ ins ++ outs, 0 < s.amount.wats.val) ∧ 0 < total.wats.val := by
  constructor
  · rintro ⟨v, hv⟩
    unfold parseAndValidateReplace at hv
    obtain ⟨⟨hashes, total₁⟩, hi, hv⟩ := Except.bind_ok_iff.1 hv
    obtain ⟨⟨records, total₂⟩, ho, hv⟩ := Except.bind_ok_iff.1 hv
    obtain ⟨_, -, hv⟩ := Except.bind_ok_iff.1 hv
    obtain ⟨_, hpos, -⟩ := Except.bind_ok_iff.1 hv
    obtain ⟨parsedIn, hi', hi⟩ := Except.bind_ok_iff.1 hi
    obtain ⟨parsedOut, ho', -⟩ := Except.bind_ok_iff.1 ho
    have hinpos := (parseTokens_of_sum hin).2 _ hi'
    rw [(parseTokens_of_sum hin).1 hinpos] at hi'
    cases hi'
    cases hi
    refine ⟨fun s hs => ?_, require_ok_iff.1 hpos⟩
    exact (List.mem_append.1 hs).elim (hinpos s) ((parseTokens_of_sum hout).2 _ ho' s)
  · rintro ⟨hall, htotal⟩
    have hi : parseInputs webcashes = .ok (ins.map fun s => s.toPublic.hash, total) :=
      Except.bind_ok_iff.2 ⟨_, (parseTokens_of_sum hin).1 fun s hs => hall s (List.mem_append_left _ hs), rfl⟩
    have ho : parseOutputs newWebcashes env.now = .ok (outs.map (replacedRecord env.now), total) :=
      Except.bind_ok_iff.2 ⟨_, (parseTokens_of_sum hout).1 fun s hs => hall s (List.mem_append_right _ hs), rfl⟩
    unfold parseAndValidateReplace
    rw [hi, ho]
    simp only [require, htotal, bind, Except.bind, if_true]
    exact ⟨_, rfl⟩

end Webycash.Legacy.Replace
