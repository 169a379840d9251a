import Webycash.Server.Handlers
/-!
# `health_check` (`server-core/src/lib.rs`)

Both variants parse every token, sort the hashes into one bucket per namespace, look the buckets
up in the order a `HashMap` hands them out, and write the answer by hand. They return no store:
a health check changes nothing.

| here | there |
| --- | --- |
| `healthCheck`               | lib.rs:420 |
| `healthCheckCollectible`    | lib.rs:964 |
| `watsToString`              | lib.rs:1396 |
| `productionNormalizePublic`, `normalizeAmountStr` | lib.rs:1413, lib.rs:1424 |
-/

namespace Webycash

/-- Minimal decimal text, without trailing zeros. -/
def watsToString (wats : I64) : String :=
  let abs := wats.val.natAbs
  let frac := abs % 100000000
  let sign := if wats.val < 0 then "-" else ""
  if frac = 0 then sign ++ toString (abs / 100000000)
  else sign ++ toString (abs / 100000000) ++ "." ++
    String.ofList ((Amount.pad8 frac).toList.reverse.dropWhile (· = '0')).reverse

example : watsToString ⟨19531250000, by decide, by decide⟩ = "195.3125" := by decide

/-- `split_once(sep)`. -/
def splitOnce (sep : Char) : List Char → Option (List Char × List Char)
  | [] => none
  | c :: cs => if c = sep then some ([], cs) else (splitOnce sep cs).map fun (a, b) => (c :: a, b)

/-- Drop an all-zero fraction. -/
def normalizeAmountStr (s : List Char) : List Char :=
  match splitOnce '.' s with
  | some (whole, frac) => if frac.all (· = '0') && !frac.isEmpty then whole else s
  | none => s

def productionNormalizePublic (token : String) : String :=
  match chars token with
  | 'e' :: rest =>
    match splitOnce ':' rest with
    | some (amt, suffix) => String.ofList ('e' :: normalizeAmountStr amt ++ ':' :: suffix)
    | none => token
  | _ => token

/-- The hashes of one namespace, each with its place in the request. -/
abbrev Bucket := Namespace × List (Nat × String)

/-- The order in which a `HashMap` hands out its entries. -/
structure IterationOrder where
  apply : List Bucket → List Bucket
  perm : ∀ l, (apply l).Perm l

/-- `by_ns.entry(ns).or_default().push(item)`. -/
def pushBucket (ns : Namespace) (item : Nat × String) : List Bucket → List Bucket
  | [] => [(ns, [item])]
  | (ns', items) :: rest => if ns' = ns then (ns', items ++ [item]) :: rest else (ns', items) :: pushBucket ns item rest

def bucketsOf (views : List PublicView) : List Bucket :=
  views.zipIdx.foldl (fun acc (v, idx) => pushBucket (.ofEnvelope v.envelope) (idx, v.publicHash) acc) []

/-- What the answer shows of a token: spent flag and stored amount. -/
abbrev Lookup := Option Bool × Option I64

/-- A quote, a backslash. -/
def quote : Char := Char.ofNat 34
def backslash : Char := Char.ofNat 92

/-- The key of an answer line, with quotes and backslashes escaped. -/
def escapeKey (key : String) : String :=
  String.ofList ((chars key).flatMap fun c => if c = quote ∨ c = backslash then [backslash, c] else [c])

def spentText : Option Bool → String
  | none => "null"
  | some true => "true"
  | some false => "false"

/-- Present for a token that is known: its amount while unspent, `null` once spent. -/
def amountText : Lookup → String
  | (some false, some wats) => ", \"amount\": \"" ++ watsToString wats ++ "\""
  | (some true, _) => ", \"amount\": null"
  | _ => ""

/-- The whole answer; `amount` is written by the splittable variant only. -/
def renderResults (amount : Lookup → String) (keys : List String) (lookups : List Lookup) : String :=
  "\x7b\"status\": \"success\", \"results\": \x7b" ++
    ", ".intercalate ((lookups.zip keys).map fun (l, key) =>
      "\"" ++ escapeKey key ++ "\": \x7b\"spent\": " ++ spentText l.1 ++ amount l ++ "\x7d") ++ "\x7d\x7d"

section

variable {σ ρ δ : Type}

def parsePublics (A : Asset σ ρ) : List String → Except String (List PublicView)
  | [] => .ok []
  | token :: tokens => do
    let p ← orElse (fun _ => "invalid token: " ++ token) (A.parsePublic token)
    let ps ← parsePublics A tokens
    return p :: ps

/-- One pass over the buckets; `look` fills the places of a bucket. -/
def fillLookups (look : Namespace → List String → Except String (List Lookup)) : List Bucket → List Lookup →
    Except String (List Lookup)
  | [], lookups => .ok lookups
  | (ns, items) :: rest, lookups => do
    let found ← look ns (items.map Prod.snd)
    fillLookups look rest ((items.zip found).foldl (fun acc (item, l) => acc.set item.1 l) lookups)

/-- `get_tokens` for the amounts and `check_tokens` for the spent flags. -/
def lookBoth (codec : HashRecord ρ) (store : LedgerStore δ ρ) (db : δ) (ns : Namespace) (hashes : List String) :
    Except String (List Lookup) := do
  let amounts ← orElse ("storage: " ++ ·) (store.getTokens ns hashes db)
  let spents ← orElse ("storage: " ++ ·) (store.checkTokens ns hashes db)
  return (spents.zip amounts).map fun (s, r) => (s.2, r.map codec.amountWats)

def lookSpent (store : LedgerStore δ ρ) (db : δ) (ns : Namespace) (hashes : List String) :
    Except String (List Lookup) := do
  let spents ← orElse ("storage: " ++ ·) (store.checkTokens ns hashes db)
  return spents.map fun s => (s.2, none)

/-- The shared course of the two variants. -/
def healthCheckWith (A : Asset σ ρ) (look : Namespace → List String → Except String (List Lookup))
    (amount : Lookup → String)
    (keyOf : String → String) (order : IterationOrder) (tokens : Except String (List String)) : Response :=
  match (do
    let tokens ← orElse ("parse: " ++ ·) tokens
    let views ← parsePublics A tokens
    let lookups ← fillLookups look (order.apply (bucketsOf views)) (List.replicate views.length (none, none))
    return renderResults amount (tokens.map keyOf) lookups : Except String String) with
  | .ok body => .ok body
  | .error e => .serverError e

def healthCheck (A : SplittableAsset σ ρ) (store : LedgerStore δ ρ) (order : IterationOrder)
    (tokens : Except String (List String)) (db : δ) : Response :=
  healthCheckWith A.toAsset (lookBoth A.codec store db) amountText productionNormalizePublic order tokens

/-- Spent flags only, keys as they were sent. -/
def healthCheckCollectible (A : CollectibleAsset σ ρ) (store : LedgerStore δ ρ) (order : IterationOrder)
    (tokens : Except String (List String)) (db : δ) : Response :=
  healthCheckWith A.toAsset (lookSpent store db) (fun _ => "") id order tokens

end

end Webycash
