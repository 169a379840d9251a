import Webycash.Lib.FMap
/-!
# JSON values

The part of `serde_json::Value` a store that keeps documents needs: an object is a finite map
from field names to values, `asBool` is `Value::as_bool`. `toText` is the compact text of
`serde_json::to_vec`, with the members of an object in the order they are listed in.
-/

inductive Json
  | null
  | bool (b : Bool)
  | num (n : Int)
  | str (s : String)
  | obj (fields : List (String × Json))

/-- A JSON object. -/
abbrev Doc := FMap String Json

namespace Json

/-- `Value::as_bool`. -/
def asBool : Json → Option Bool
  | bool b => some b
  | _ => none

/-- `Value::as_str`. -/
def asStr : Json → Option String
  | str s => some s
  | _ => none

/-- `Value::as_i64`. -/
def asInt : Json → Option Int
  | num n => some n
  | _ => none

/-- Field of an object literal; the last binding of a name wins. -/
def field (v : Json) (name : String) : Option Json :=
  match v with
  | obj fields => FMap.lastPut fields name
  | _ => none

/-! ## Text -/

/-- The escapes of serde_json: the two quoting characters, the named controls, `\u00xx` for the rest. -/
def escape (c : Char) : List Char :=
  let n := c.toNat
  if n = 34 then "\\\"".toList else if n = 92 then "\\\\".toList
  else if n = 8 then "\\b".toList else if n = 9 then "\\t".toList else if n = 10 then "\\n".toList
  else if n = 12 then "\\f".toList else if n = 13 then "\\r".toList
  else if n < 32 then "\\u00".toList ++ [Nat.digitChar (n / 16), Nat.digitChar (n % 16)]
  else [c]

def quote (s : String) : List Char := "\"".toList ++ s.toList.flatMap escape ++ "\"".toList

mutual

def toChars : Json → List Char
  | null => "null".toList
  | bool b => (if b then "true" else "false").toList
  | num n => (toString n).toList
  | str s => quote s
  | obj fields => "\x7b".toList ++ membersToChars fields ++ "\x7d".toList

def membersToChars : List (String × Json) → List Char
  | [] => []
  | [m] => memberToChars m
  | m :: m' :: l => memberToChars m ++ ",".toList ++ membersToChars (m' :: l)

def memberToChars : String × Json → List Char
  | (name, v) => quote name ++ ":".toList ++ toChars v

end

def toText (v : Json) : String := String.ofList v.toChars

end Json
