import SeriesAlarm.Template.Value
import SeriesAlarm.Text.Blank
import SeriesAlarm.Text.LetterCase
import SeriesAlarm.Width

/-!
# Filters and tests

The filters and tests that a template may name. `round` writes a number with a count of places;
`lower` and `upper` change the case of a text.
-/

namespace SeriesAlarm
namespace Template

open Text

/-- Arguments by position and by name. -/
structure Args where
  positional : List Value := []
  named : List (String × Value) := []

namespace Args

/-- Only arguments by position, at most so many. -/
def atMost (a : Args) (n : Nat) : Option (List Value) :=
  if a.named.isEmpty && a.positional.length ≤ n then some a.positional else none

def given? (v : Value) : Option Value :=
  match v with
  | .undefined | .null => none
  | v => some v

/-- The argument at a place, or by its name; absent when undefined or none. -/
def get? (a : Args) (place : Nat) (name : String) : Option Value :=
  match a.positional[place]? with
  | some v => given? v
  | none => (Value.lookupName name a.named).bind given?

def drop (a : Args) (n : Nat) : Args := { a with positional := a.positional.drop n }

end Args

def escapedChar (c : Char) : List Char :=
  match c with
  | '<' => "&lt;".toList
  | '>' => "&gt;".toList
  | '&' => "&amp;".toList
  | '"' => "&quot;".toList
  | '\'' => "&#x27;".toList
  | '/' => "&#x2f;".toList
  | c => [c]

def escaped (s : String) : String := String.ofList (s.toList.flatMap escapedChar)

def isPunctuation (c : Char) : Bool :=
  let n := c.toNat
  (33 ≤ n && n ≤ 47) || (58 ≤ n && n ≤ 64) || (91 ≤ n && n ≤ 96) || (123 ≤ n && n ≤ 126)

/-- Upper case after white space and punctuation, lower case elsewhere. -/
def titleFrom : Bool → List Char → List Char
  | _, [] => []
  | first, c :: cs =>
    if isPunctuation c || isBlank c then c :: titleFrom true cs
    else (if first then upperChar c else lowerChar c) ++ titleFrom false cs

def capitalized (s : String) : String :=
  match s.toList with
  | [] => ""
  | c :: cs => String.ofList (upperChar c) ++ lowerCase (String.ofList cs)

def lineList (s : String) : List String :=
  let parts := splitOnChar '\n' s.toList
  let parts := if parts.getLast? = some [] then parts.dropLast else parts
  parts.map fun cs => String.ofList (match cs.reverse with
    | '\r' :: r => r.reverse
    | _ => cs)

/-- Joins texts; the separator is left out as long as nothing has been written. -/
def joinTexts (sep : String) (parts : List String) : String :=
  parts.foldl (fun acc p => (if acc = "" then acc else acc ++ sep) ++ p) ""

def path (v : Value) (s : String) : Option Value :=
  (splitOnChar '.' s.toList).foldlM (fun v part =>
    match digits? part with
    | some n => v.item (.int n)
    | none => v.item (.str (String.ofList part))) v

def insertBy (less : Value → Value → Bool) (v : Value) : List Value → List Value
  | [] => [v]
  | w :: ws => if less v w then v :: w :: ws else w :: insertBy less v ws

def sortBy (less : Value → Value → Bool) (vs : List Value) : List Value :=
  vs.foldl (fun acc v => insertBy less v acc) []

/-- Texts without regard to case, unless it counts. -/
def sortKey (caseSensitive : Bool) : Value → Value
  | .string s safe => if caseSensitive then .string s safe else .str (lowerCase s)
  | v => v

def orderBy (caseSensitive : Bool) (a b : Value) : Ordering :=
  Value.compareWith (sortKey caseSensitive a) (sortKey caseSensitive b)

def flagArg (a : Args) (name : String) (d : Bool) : Bool :=
  ((Value.lookupName name a.named).map Value.isTrue).getD d

def chunksOf (n : Nat) : Nat → List Value → List (List Value)
  | 0, _ => []
  | _, [] => []
  | fuel + 1, vs => vs.take n :: chunksOf n fuel (vs.drop n)

/-- The number of places of `round`, at most 16 bits wide. -/
def places? (a : List Value) : Option Nat :=
  match a.head?.bind Args.given? with
  | none => some 0
  | some v => v.asInt?.bind fun n => if 0 ≤ n ∧ n < wordSize 16 then some n.toNat else none

def roundFilter (v : Value) (a : Args) : Option Value := do
  let args ← a.atMost 1
  let x ← match v with
    | .int n => some (Value.floatOfInt n)
    | .float x => some x
    | _ => none
  let n ← places? args
  return .str (Decimal.fixed n x)

def intFilter (v : Value) (a : Args) : Option Value :=
  let parsed : Option Value := match v with
    | .undefined | .null => some (.int 0)
    | .string s _ =>
      match Text.int? s.toList with
      | some n => Value.checkedInt n
      | none => (Decimal.float? s).map fun x =>
          .int (if x.isNaN then 0 else if x.isInf then (if x < 0.0 then Value.leastInt else Value.greatestInt)
            else Value.truncated x)
    | .float x => some (.int (if x.isNaN || x.isInf then 0 else Value.truncated x))
    | v => v.asInt?.map .int
  parsed.orElse fun _ => a.get? 0 "default"

def floatFilter (v : Value) (a : Args) : Option Value :=
  let parsed : Option Value := match v with
    | .undefined | .null => some (.float 0.0)
    | .string s _ => (Decimal.float? s).map .float
    | v => v.asFloat?.map .float
  parsed.orElse fun _ => a.get? 0 "default"

def indentFilter (v : Value) (a : Args) : Option Value := do
  let width ← (a.get? 0 "width").bind Value.asInt?
  let first := ((a.get? 1 "first").map Value.isTrue).getD false
  let blank := ((a.get? 2 "blank").map Value.isTrue).getD false
  let pad := Value.repeated width.toNat " "
  match lineList v.text with
  | [] => return .str ""
  | l :: ls =>
    let rest := ls.map fun s => if s = "" ∧ ¬blank then s else pad ++ s
    return .str ("\n".intercalate ((if first then pad ++ l else l) :: rest))

def sortFilter (v : Value) (a : Args) : Option Value := do
  let items ← v.items?
  let sensitive := flagArg a "case_sensitive" false
  let down := flagArg a "reverse" false
  let key (w : Value) : Value :=
    match Value.lookupName "attribute" a.named with
    | some p => (path w p.text).getD .undefined
    | none => w
  let less (x y : Value) : Bool :=
    match orderBy sensitive (key x) (key y) with
    | .lt => !down
    | .gt => down
    | .eq => false
  return .list (sortBy less items)

def uniqueFilter (v : Value) (a : Args) : Option Value := do
  let items ← v.items?
  let sensitive := flagArg a "case_sensitive" false
  let same (x y : Value) : Bool := orderBy sensitive x y == .eq
  return .list (items.foldl (fun acc x => if acc.any (same x) then acc else acc ++ [x]) [])

def extreme (pick : Ordering) (v : Value) : Option Value := do
  let items ← v.items?
  match items with
  | [] => return .undefined
  | x :: xs => return xs.foldl (fun b y => if Value.compareWith y b == pick then y else b) x

def dictsortFilter (v : Value) (a : Args) : Option Value := do
  let ms ← match v with
    | .map ms => some ms
    | _ => none
  let byValue := (Value.lookupName "by" a.named).map (·.text) == some "value"
  let sensitive := flagArg a "case_sensitive" false
  let down := flagArg a "reverse" false
  let key : Value → Value
    | .list [k, w] => if byValue then w else k
    | w => w
  let less (x y : Value) : Bool := orderBy sensitive (key x) (key y) == (if down then .gt else .lt)
  return .list (sortBy less (ms.map fun m => .list [m.1, m.2]))

def splitTexts (sep : List Char) : Nat → List Char → List String
  | 0, cs => [String.ofList cs]
  | fuel + 1, cs =>
    match splitOnText sep cs with
    | some (a, b) => String.ofList a :: splitTexts sep fuel b
    | none => [String.ofList cs]

def wordList (cs : List Char) : List String :=
  let close (w : List Char) (ws : List String) := if w = [] then ws else String.ofList w :: ws
  let (w, ws) := cs.foldr (fun c (w, ws) => if isBlank c then ([], close w ws) else (c :: w, ws)) ([], [])
  close w ws

def splitFilter (v : Value) (a : Args) : Option Value :=
  let s := v.text.toList
  let limit := (((a.get? 1 "maxsplits").bind Value.asInt?).map Int.toNat).getD s.length
  match a.get? 0 "split" with
  | none => some (.list ((wordList s).map .str))
  | some sep =>
    if sep.text = "" then none else some (.list ((splitTexts sep.text.toList limit s).map .str))

def trimFilter (v : Value) (a : Args) : Option Value :=
  match a.get? 0 "chars" with
  | none => some (.str (trim v.text))
  | some set =>
    let drop (cs : List Char) := cs.dropWhile fun c => set.text.toList.contains c
    some (.str (String.ofList (drop (drop v.text.toList).reverse).reverse))

def batchFilter (v : Value) (a : Args) : Option Value := do
  let items ← v.items?
  let n ← (a.get? 0 "count").bind Value.asInt?
  if n ≤ 0 then none
  else
    let parts := chunksOf n.toNat (items.length + 1) items
    let fill (p : List Value) :=
      match a.get? 1 "fill_with" with
      | some f => p ++ List.replicate (n.toNat - p.length) f
      | none => p
    return .list (parts.map fun p => .list (fill p))

def basicFilter (name : String) (v : Value) (a : Args) : Option Value :=
  match name with
  | "round" => roundFilter v a
  | "upper" => (a.atMost 0).map fun _ => .str (upperCase v.text)
  | "lower" => (a.atMost 0).map fun _ => .str (lowerCase v.text)
  | "title" => (a.atMost 0).map fun _ => .str (String.ofList (titleFrom true v.text.toList))
  | "capitalize" => (a.atMost 0).map fun _ => .str (capitalized v.text)
  | "trim" => trimFilter v a
  | "replace" => do
    let from_ ← a.positional[0]?
    let new ← a.positional[1]?
    let part := from_.text.toList
    let new := new.text.toList
    let cs := v.text.toList
    return .str (String.ofList
      (if part = [] then new ++ cs.flatMap (fun c => c :: new) else replaceAll part new cs))
  | "length" | "count" => do
    let _ ← a.atMost 0
    let n ← v.length?
    return .int n
  | "default" | "d" =>
    let lax := ((a.get? 1 "boolean").map Value.isTrue).getD false
    if v.isUndefined || (lax && !v.isTrue) then some ((a.positional[0]?).getD (.str "")) else some v
  | "first" => v.items?.map fun vs => vs.head?.getD .undefined
  | "last" => v.items?.map fun vs => vs.getLast?.getD .undefined
  | "reverse" =>
    match v with
    | .string s _ => some (.str (String.ofList s.toList.reverse))
    | v => v.items?.map fun vs => .list vs.reverse
  | "join" =>
    match v with
    | .undefined | .null => some (.str "")
    | v => v.items?.map fun vs =>
        .str (joinTexts (((a.get? 0 "d").map Value.text).getD "") (vs.map Value.text))
  | "list" => v.items?.map .list
  | "string" => some (match v with
    | .string .. => v
    | v => .str v.text)
  | "bool" => some (.bool v.isTrue)
  | "int" => intFilter v a
  | "float" => floatFilter v a
  | "abs" =>
    match v with
    | .int n => some (.int n.natAbs)
    | .float x => some (.float x.abs)
    | _ => none
  | "sort" => sortFilter v a
  | "unique" => uniqueFilter v a
  | "min" => extreme .lt v
  | "max" => extreme .gt v
  | "sum" => v.items?.bind fun vs => vs.foldlM Value.add (.int 0)
  | "escape" | "e" => some (match v with
    | .string s true => .string s true
    | v => .string (escaped v.text) true)
  | "safe" => some (.string v.text true)
  | "attr" => (a.get? 0 "name").bind fun n => v.item n
  | "items" =>
    match v with
    | .map ms => some (.list (ms.map fun m => .list [m.1, m.2]))
    | _ => none
  | "dictsort" => dictsortFilter v a
  | "indent" => indentFilter v a
  | "lines" => some (.list ((lineList v.text).map .str))
  | "split" => splitFilter v a
  | "batch" => batchFilter v a
  | "pprint" => some (.str v.debugText)
  | _ => none

def filterNames : List String :=
  ["round", "upper", "lower", "title", "capitalize", "trim", "replace", "length", "count",
    "default", "d", "first", "last", "reverse", "join", "list", "string", "bool", "int", "float",
    "abs", "sort", "unique", "min", "max", "sum", "escape", "e", "safe", "attr", "items",
    "dictsort", "indent", "lines", "split", "batch", "pprint", "map", "select", "reject",
    "selectattr", "rejectattr"]

def testNames : List String :=
  ["defined", "undefined", "none", "true", "false", "boolean", "number", "integer", "int", "float",
    "string", "sequence", "mapping", "iterable", "odd", "even", "divisibleby", "startingwith",
    "endingwith", "lower", "upper", "eq", "equalto", "==", "ne", "!=", "lt", "lessthan", "<", "le",
    "<=", "gt", "greaterthan", ">", "ge", ">=", "in", "sameas", "safe", "escaped", "filter", "test"]

def plainTest? (name : String) (v : Value) : Option Bool :=
  match name with
  | "defined" => some !v.isUndefined
  | "undefined" => some v.isUndefined
  | "none" => some v.isNull
  | "true" => some (match v with
    | .bool b => b
    | _ => false)
  | "false" => some (match v with
    | .bool b => !b
    | _ => false)
  | "boolean" => some (match v with
    | .bool _ => true
    | _ => false)
  | "number" => some v.isNumber
  | "integer" | "int" => some (match v with
    | .int _ => true
    | _ => false)
  | "float" => some (match v with
    | .float _ => true
    | _ => false)
  | "string" => some v.isString
  | "sequence" => some v.isSequence
  | "mapping" => some (match v with
    | .map _ | .space _ => true
    | _ => false)
  | "iterable" => some v.items?.isSome
  | "odd" => some ((v.asInt?.map fun n => n % 2 != 0).getD false)
  | "even" => some ((v.asInt?.map fun n => n % 2 == 0).getD false)
  | "lower" => some (v.isString && lowerCase v.text == v.text)
  | "upper" => some (v.isString && upperCase v.text == v.text)
  | "safe" | "escaped" => some (match v with
    | .string _ safe => safe
    | _ => false)
  | "filter" => some (filterNames.contains v.text)
  | "test" => some (testNames.contains v.text)
  | _ => none

def comparingTest? (name : String) (v w : Value) : Option Bool :=
  match name with
  | "eq" | "equalto" | "==" | "sameas" => some (Value.equals v w)
  | "ne" | "!=" => some !(Value.equals v w)
  | "lt" | "lessthan" | "<" => some (Value.compareWith v w == .lt)
  | "le" | "<=" => some (Value.compareWith v w != .gt)
  | "gt" | "greaterthan" | ">" => some (Value.compareWith v w == .gt)
  | "ge" | ">=" => some (Value.compareWith v w != .lt)
  | "in" => some ((Value.contains w v).getD false)
  | "divisibleby" =>
    match v.asInt?, w.asInt? with
    | some a, some b => some (b != 0 && a % b == 0)
    | _, _ => some false
  | "startingwith" =>
    if v.isString && w.isString then
      some (dropLeading? w.text.toList v.text.toList).isSome
    else none
  | "endingwith" =>
    if v.isString && w.isString then
      some (dropLeading? w.text.toList.reverse v.text.toList.reverse).isSome
    else none
  | _ => none

def applyTest (name : String) (v : Value) (a : List Value) : Option Bool :=
  match a with
  | [] => plainTest? name v
  | [w] => comparingTest? name v w
  | _ => none

def mapFilter (v : Value) (a : Args) : Option Value := do
  let items ← v.items?
  match Value.lookupName "attribute" a.named with
  | some p =>
    let fallback := Value.lookupName "default" a.named
    let one (w : Value) : Option Value :=
      match path w p.text with
      | some .undefined => some (fallback.getD .undefined)
      | some x => some x
      | none => fallback
    return .list (← items.mapM one)
  | none =>
    let name ← a.positional[0]?
    return .list (← items.mapM fun w => basicFilter name.text w (a.drop 1))

/-- Keeps the items for which a test answers `want`, on the item or on one of its fields. -/
def selectFilter (onField want : Bool) (v : Value) (a : Args) : Option Value := do
  let items ← v.items?
  let field := if onField then a.positional[0]? else none
  if onField && field.isNone then none
  let rest := if onField then a.positional.drop 1 else a.positional
  let keeps (w : Value) : Option Bool := do
    let x ← match field with
      | some f => path w f.text
      | none => some w
    match rest with
    | [] => return x.isTrue == want
    | name :: args => return (← applyTest name.text x args) == want
  return .list (← items.filterM keeps)

def applyFilter (name : String) (v : Value) (a : Args) : Option Value :=
  match name with
  | "map" => mapFilter v a
  | "select" => selectFilter false true v a
  | "reject" => selectFilter false false v a
  | "selectattr" => selectFilter true true v a
  | "rejectattr" => selectFilter true false v a
  | _ => basicFilter name v a

end Template
end SeriesAlarm
