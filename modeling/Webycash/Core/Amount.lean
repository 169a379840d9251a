import Webycash.Lib.I64
/-!
# Fixed-point amounts (`asset-core/src/amount.rs`)

An `Amount` is an `i64` count of wats, eight decimals. Text goes through lists of characters
so that parsing is structural.

| here | there |
| --- | --- |
| `Amount`           | `Amount { wats: i64 }` (amount.rs:17) |
| `Amount.checkedAdd`| `Amount::checked_add` (amount.rs:55) |
| `Amount.display`   | `impl Display for Amount` (amount.rs:72) |
| `parseAmountStr`   | `parse_amount_str` (amount.rs:141) |
-/

namespace Webycash

structure Amount where
  wats : I64
  deriving DecidableEq

namespace Amount

/-- `const DECIMALS` and `const SCALE` (amount.rs:12). -/
def decimals : Nat := 8
def scale : I64 := ⟨100000000, by decide, by decide⟩

def zero : Amount := ⟨0⟩

def checkedAdd (a b : Amount) : Option Amount := (a.wats.checkedAdd b.wats).map Amount.mk

theorem val_checkedAdd {a b c : Amount} (h : a.checkedAdd b = some c) : c.wats.val = a.wats.val + b.wats.val := by
  obtain ⟨w, hw, rfl⟩ := Option.map_eq_some_iff.1 h
  exact I64.val_checkedAdd hw

/-- `{:08}` of a fraction below `SCALE`. -/
def pad8 (n : Nat) : String :=
  String.ofList (List.replicate (8 - (toString n).length) '0') ++ toString n

def display (a : Amount) : String :=
  let abs := a.wats.val.natAbs
  let digits := toString (abs / 100000000) ++ "." ++ pad8 (abs % 100000000)
  if a.wats.val < 0 then "-" ++ digits else digits

end Amount

inductive AmountError
  | invalidFormat (input : String)
  | overflow
  | tooManyDecimals
  deriving DecidableEq

namespace AmountError

def display : AmountError → String
  | invalidFormat s => "invalid amount format: " ++ s
  | overflow => "amount overflow"
  | tooManyDecimals => "too many decimal places (max 8)"

end AmountError

/-- `str::split` on one character: always at least one part. -/
def splitOnChar (sep : Char) : List Char → List (List Char)
  | [] => [[]]
  | c :: cs =>
    if c = sep then [] :: splitOnChar sep cs
    else match splitOnChar sep cs with
      | part :: parts => (c :: part) :: parts
      | [] => [[c]]

/-- Length in bytes of the UTF-8 text. -/
def byteLen (cs : List Char) : Nat := (cs.map Char.utf8Size).sum

/-- `-wats`; the two's-complement edge is unreachable from `parseAmountStr`. -/
def negate (negative : Bool) (w : I64) : Amount := ⟨if negative then I64.wrap (-w.val) else w⟩

/-- `parse_amount_str`: an optional `-`, then one or two parts around a dot. -/
def parseAmountChars (input : List Char) : Except AmountError Amount :=
  let negative := input.head? == some '-'
  let s := if negative then input.tail else input
  let bad := AmountError.invalidFormat (String.ofList input)
  match splitOnChar '.' s with
  | [whole] =>
    match I64.ofChars whole with
    | none => .error bad
    | some whole =>
      match whole.checkedMul Amount.scale with
      | none => .error .overflow
      | some wats => .ok (negate negative wats)
  | [whole, frac] =>
    match I64.ofChars whole with
    | none => .error bad
    | some whole =>
      if byteLen frac > Amount.decimals then .error .tooManyDecimals
      else
        match I64.ofChars (frac ++ List.replicate (8 - frac.length) '0') with
        | none => .error bad
        | some frac =>
          match (whole.checkedMul Amount.scale).bind (·.checkedAdd frac) with
          | none => .error .overflow
          | some wats => .ok (negate negative wats)
  | _ => .error bad

def parseAmountStr (s : String) : Except AmountError Amount := parseAmountChars s.toList

end Webycash
