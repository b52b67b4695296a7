import SeriesAlarm.Decimal.Text
import SeriesAlarm.Text.Replace
import SeriesAlarm.Width
import SeriesAlarm.Yaml.Node

/-!
# YAML values

What the nodes of a document stand for. A plain scalar is null, a truth value, a number or a text by
its form; a tag can force one of these.
-/

namespace SeriesAlarm
namespace Yaml

open Text

inductive Value
  | null
  | bool (b : Bool)
  /-- A whole number of 64 bits. -/
  | int (n : Int)
  | float (x : Float)
  | string (s : String)
  | sequence (items : List Value)
  | mapping (members : List (Value × Value))
  deriving Inhabited

def isNullText (s : String) : Bool := s == "null" || s == "Null" || s == "NULL" || s == "~"

def boolText? (s : String) : Option Bool :=
  if s = "true" ∨ s = "True" ∨ s = "TRUE" then some true
  else if s = "false" ∨ s = "False" ∨ s = "FALSE" then some false
  else none

def baseDigits? (base : Nat) (cs : List Char) : Option Nat :=
  if cs = [] then none
  else
    cs.foldlM (fun n c =>
      (Json.hexValue? c).bind fun d => if d < base then some (base * n + d) else none) 0

def prefixed? (cs : List Char) : Option Nat :=
  match cs with
  | '0' :: 'x' :: ds => baseDigits? 16 ds
  | '0' :: 'o' :: ds => baseDigits? 8 ds
  | '0' :: 'b' :: ds => baseDigits? 2 ds
  | _ => none

/-- Digits with a leading zero, perhaps after a sign: a text. -/
def isZeroPadded (cs : List Char) : Bool :=
  let ds := match cs with
    | '-' :: ds | '+' :: ds => ds
    | ds => ds
  match ds with
  | '0' :: d :: ds => (d :: ds).all isDigit
  | _ => false

/-- A whole number of any size: an optional sign, and digits in base ten or after the mark of another
base. -/
def wholeNumber? (cs : List Char) : Option Int :=
  let natural (ds : List Char) : Option Nat :=
    (prefixed? ds).orElse fun _ => if isZeroPadded cs then none else digits? ds
  match cs with
  | '-' :: ds => (natural ds).map fun n => -(n : Int)
  | '+' :: ds => (natural ds).map fun n => (n : Int)
  | ds => (natural ds).map fun n => (n : Int)

def float? (s : String) : Option Float :=
  let cs := s.toList
  let unsigned := match cs with
    | '+' :: ds => ds
    | ds => ds
  if cs.head? == some '+' && (unsigned.head? == some '+' || unsigned.head? == some '-') then none
  else
    let body := String.ofList unsigned
    if body = ".inf" ∨ body = ".Inf" ∨ body = ".INF" then some (1.0 / 0.0)
    else if s = "-.inf" ∨ s = "-.Inf" ∨ s = "-.INF" then some (-1.0 / 0.0)
    else if s = ".nan" ∨ s = ".NaN" ∨ s = ".NAN" then some (0.0 / 0.0)
    else (Decimal.float? body).filter (·.isFinite)

/-- A whole number of a scalar; nothing inside for one that only 128 bits hold. -/
def int? (s : String) : Option (Option Value) :=
  (wholeNumber? s.toList).bind fun n =>
    if fitsWord 64 n then some (some (.int n))
    else if fitsWord 128 n then some none
    else none

def Value.ofPlain? (s : String) : Option Value :=
  if s = "" || isNullText s then some .null
  else
    match boolText? s with
    | some b => some (.bool b)
    | none =>
      match int? s with
      | some v => v
      | none =>
        match if isZeroPadded s.toList then none else float? s with
        | some x => some (.float x)
        | none => some (.string s)

def tagStart : String := "tag:yaml.org,2002:"

/-- The value of a scalar. A tag of the program's own has none. -/
def Value.ofScalar? (tag : Option String) (s : String) (style : ScalarStyle) : Option Value :=
  match tag with
  | none => if style = .plain then Value.ofPlain? s else some (.string s)
  | some t =>
    if t.toList.head? = some '!' then none
    else if t = tagStart ++ "bool" then (boolText? s).map .bool
    else if t = tagStart ++ "int" then (int? s).join
    else if t = tagStart ++ "float" then (float? s).map .float
    else if t = tagStart ++ "null" then if isNullText s then some .null else none
    else some (.string s)

namespace Value

def isOwnTag (tag : Option String) : Bool := tag.any fun t => t.toList.head? == some '!'

mutual

def ofNode? : Node → Option Value
  | .scalar tag s style => ofScalar? tag s style
  | .sequence tag items => if isOwnTag tag then none else (ofItems? items).map .sequence
  | .mapping tag members => if isOwnTag tag then none else (ofMembers? members).map .mapping

def ofItems? : List Node → Option (List Value)
  | [] => some []
  | n :: ns => do
    let v ← ofNode? n
    let vs ← ofItems? ns
    return v :: vs

def ofMembers? : List (Node × Node) → Option (List (Value × Value))
  | [] => some []
  | (k, n) :: ms => do
    let k ← ofNode? k
    let v ← ofNode? n
    let rest ← ofMembers? ms
    return (k, v) :: rest

end

mutual

/-- Whether two values are the same as keys; a NaN is the same as any NaN. -/
def same : Value → Value → Bool
  | .null, .null => true
  | .bool a, .bool b => a == b
  | .int a, .int b => a == b
  | .float a, .float b => a == b || (a.isNaN && b.isNaN)
  | .string a, .string b => a == b
  | .sequence a, .sequence b => sameItems a b
  | .mapping a, .mapping b => a.length == b.length && sameMembers a b
  | _, _ => false

def sameItems : List Value → List Value → Bool
  | [], [] => true
  | v :: vs, w :: ws => same v w && sameItems vs ws
  | _, _ => false

def sameMembers : List (Value × Value) → List (Value × Value) → Bool
  | [], _ => true
  | (k, v) :: ms, others => (others.any fun m => same k m.1 && same v m.2) && sameMembers ms others

end

def repeats : List Value → Bool
  | [] => false
  | k :: ks => ks.any (same k) || repeats ks

mutual

def hasRepeatedKey : Value → Bool
  | .sequence items => anyRepeatedKey items
  | .mapping members => repeats (members.map (·.1)) || anyMemberRepeated members
  | _ => false

def anyRepeatedKey : List Value → Bool
  | [] => false
  | v :: vs => hasRepeatedKey v || anyRepeatedKey vs

def anyMemberRepeated : List (Value × Value) → Bool
  | [] => false
  | (k, v) :: ms => hasRepeatedKey k || hasRepeatedKey v || anyMemberRepeated ms

end

def floatText (x : Float) : String :=
  if x.isNaN then ".nan"
  else if x.isInf then Decimal.signed x ".inf"
  else Decimal.dataText x

def text? : Value → Option String
  | .null => some "null"
  | .bool b => some (if b then "true" else "false")
  | .int n => some (toString n)
  | .float x => some (floatText x)
  | .string s => some s
  | .sequence _ | .mapping _ => none

end Value

def Value.ofText? (text : String) : Option Value := (Node.ofText? text).bind Value.ofNode?

end Yaml
end SeriesAlarm
