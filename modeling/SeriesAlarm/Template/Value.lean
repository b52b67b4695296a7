import SeriesAlarm.Decimal.Text
import SeriesAlarm.Template.Syntax
import SeriesAlarm.Text.Replace
import SeriesAlarm.Width

/-!
# Values in templates

What the variables of a template hold: how values are written, compared, looked into and combined.
-/

namespace SeriesAlarm
namespace Template

/-- The members of a map are sorted by key. A loop and a namespace have named fields; a macro keeps
the variables of the place where it was defined. -/
inductive Value
  | undefined
  | null
  | bool (b : Bool)
  | int (n : Int)
  | float (x : Float)
  | string (s : String) (safe : Bool)
  | list (items : List Value)
  | map (members : List (Value × Value))
  | loop (fields : List (String × Value))
  | space (fields : List (String × Value))
  | macro_ (params : List (String × Option Expr)) (body : List Stmt)
      (closure : List (String × Value))
  deriving Inhabited

namespace Value

def str (s : String) : Value := .string s false

def isUndefined : Value → Bool
  | .undefined => true
  | _ => false

def isNull : Value → Bool
  | .null => true
  | _ => false

def isString : Value → Bool
  | .string .. => true
  | _ => false

def isNumber : Value → Bool
  | .int _ | .float _ => true
  | _ => false

/-- Floats always show a point. -/
def floatText (x : Float) : String :=
  let s := Decimal.plain x
  if x.isNaN || x.isInf || s.toList.contains '.' then s else s ++ ".0"

def debugChar (c : Char) : List Char :=
  match c with
  | '"' => ['\\', '"']
  | '\\' => ['\\', '\\']
  | '\n' => ['\\', 'n']
  | '\r' => ['\\', 'r']
  | '\t' => ['\\', 't']
  | c => if c.toNat = 0 then ['\\', '0'] else [c]

def debugString (s : String) : String :=
  "\"" ++ String.ofList (s.toList.flatMap debugChar) ++ "\""

mutual

/-- The form of a value inside a list. -/
def debugText : Value → String
  | .undefined => "undefined"
  | .null => "none"
  | .bool b => if b then "true" else "false"
  | .int n => toString n
  | .float x => floatText x
  | .string s _ => debugString s
  | .list items => "[" ++ ", ".intercalate (debugItems items) ++ "]"
  | .map ms => "\x7b" ++ ", ".intercalate (debugMembers ms) ++ "\x7d"
  | .loop fields => "\x7b" ++ ", ".intercalate (debugFields fields) ++ "\x7d"
  | .space fields => "\x7b" ++ ", ".intercalate (debugFields fields) ++ "\x7d"
  | .macro_ .. => "<macro>"

def debugItems : List Value → List String
  | [] => []
  | v :: vs => debugText v :: debugItems vs

def debugMembers : List (Value × Value) → List String
  | [] => []
  | (k, v) :: ms => (debugText k ++ ": " ++ debugText v) :: debugMembers ms

def debugFields : List (String × Value) → List String
  | [] => []
  | (k, v) :: ms => (debugString k ++ ": " ++ debugText v) :: debugFields ms

end

/-- The form of a value in the output; an undefined value is written as nothing. -/
def text : Value → String
  | .undefined => ""
  | .string s _ => s
  | v => debugText v

def isTrue : Value → Bool
  | .undefined | .null => false
  | .bool b => b
  | .int n => n != 0
  | .float x => x != 0.0
  | .string s _ => s != ""
  | .list items => !items.isEmpty
  | .map ms => !ms.isEmpty
  | .loop _ | .space _ | .macro_ .. => true

def leastInt : Int := -(wordSize 127 : Int)

def greatestInt : Int := wordSize 127 - 1

/-- A whole number of 128 bits. -/
def inRange (n : Int) : Bool := leastInt ≤ n && n ≤ greatestInt

def checkedInt (n : Int) : Option Value := if inRange n then some (.int n) else none

/-- The integral part of a finite float. -/
def truncated (x : Float) : Int :=
  let b := Decimal.Binary.ofFloat x
  let r := Decimal.Ratio.scaled b.mantissa 2 b.exponent
  let n : Nat := r.num / r.den
  if Decimal.isNegative x then -(n : Int) else n

def isWhole (x : Float) : Bool :=
  !x.isNaN && !x.isInf &&
    (let b := Decimal.Binary.ofFloat x
     let r := Decimal.Ratio.scaled b.mantissa 2 b.exponent
     r.num % r.den == 0)

def floatOfInt (n : Int) : Float :=
  let x := Decimal.nearest n.natAbs 0
  if n < 0 then -x else x

def asFloat? : Value → Option Float
  | .bool b => some (if b then 1.0 else 0.0)
  | .int n => some (floatOfInt n)
  | .float x => some x
  | _ => none

def asInt? : Value → Option Int
  | .bool b => some (if b then 1 else 0)
  | .int n => some n
  | .float x => if isWhole x && inRange (truncated x) then some (truncated x) else none
  | _ => none

/-- Two values brought to one kind. -/
inductive Pair
  | ints (a b : Int)
  | floats (a b : Float)
  | texts (a b : String)

def pair? : Value → Value → Option Pair
  | .string a _, .string b _ => some (.texts a b)
  | .float a, .float b => some (.floats a b)
  | .float a, b => b.asFloat?.map fun b => .floats a b
  | a, .float b => a.asFloat?.map fun a => .floats a b
  | a, b =>
    match a.asInt?, b.asInt? with
    | some a, some b => some (.ints a b)
    | _, _ => none

def kindRank : Value → Nat
  | .undefined => 0
  | .null => 1
  | .bool _ => 2
  | .int _ | .float _ => 3
  | .string .. => 4
  | .list _ => 6
  | .map _ => 7
  | .loop _ | .space _ => 8
  | .macro_ .. => 9

def floatKey (x : Float) : Int :=
  let n := x.toBits.toNat
  if wordSize 63 ≤ n then -((n : Int) - wordSize 63) - 1 else n

def compareText (a b : String) : Ordering :=
  if a < b then .lt else if a = b then .eq else .gt

mutual

def compareWith : Value → Value → Ordering
  | .null, .null => .eq
  | .undefined, .undefined => .eq
  | .list xs, .list ys => compareItems xs ys
  | .map xs, .map ys => compareMembers xs ys
  | a, b =>
    match pair? a b with
    | some (.ints x y) => compare x y
    | some (.floats x y) => compare (floatKey x) (floatKey y)
    | some (.texts x y) => compareText x y
    | none => compare a.kindRank b.kindRank

def compareItems : List Value → List Value → Ordering
  | [], [] => .eq
  | [], _ :: _ => .lt
  | _ :: _, [] => .gt
  | x :: xs, y :: ys => (compareWith x y).then (compareItems xs ys)

def compareMembers : List (Value × Value) → List (Value × Value) → Ordering
  | [], [] => .eq
  | [], _ :: _ => .lt
  | _ :: _, [] => .gt
  | (k, v) :: xs, (l, w) :: ys =>
    ((compareWith k l).then (compareWith v w)).then (compareMembers xs ys)

end

mutual

def equals : Value → Value → Bool
  | .null, .null => true
  | .undefined, .undefined => true
  | .list xs, .list ys => equalItems xs ys
  | .map xs, .map ys => equalMembers xs ys
  | a, b =>
    match pair? a b with
    | some (.ints x y) => x == y
    | some (.floats x y) => x == y
    | some (.texts x y) => x == y
    | none => false

def equalItems : List Value → List Value → Bool
  | [], [] => true
  | x :: xs, y :: ys => equals x y && equalItems xs ys
  | _, _ => false

def equalMembers : List (Value × Value) → List (Value × Value) → Bool
  | [], [] => true
  | (k, v) :: xs, (l, w) :: ys => equals k l && equals v w && equalMembers xs ys
  | _, _ => false

end

def insertMember (k v : Value) : List (Value × Value) → List (Value × Value)
  | [] => [(k, v)]
  | m :: ms =>
    match compareWith k m.1 with
    | .lt => (k, v) :: m :: ms
    | .eq => (k, v) :: ms
    | .gt => m :: insertMember k v ms

def mapOf (ms : List (Value × Value)) : Value :=
  .map (ms.foldl (fun acc m => insertMember m.1 m.2 acc) [])

def record (fields : List (String × Value)) : Value :=
  mapOf (fields.map fun f => (str f.1, f.2))

def lookupMember (k : Value) (ms : List (Value × Value)) : Option Value :=
  (ms.find? fun m => equals m.1 k).map (·.2)

def lookupName (name : String) (fields : List (String × Value)) : Option Value :=
  (fields.find? fun f => f.1 == name).map (·.2)

def field? (v : Value) (name : String) : Option Value :=
  match v with
  | .map ms => lookupMember (str name) ms
  | .loop fields | .space fields => lookupName name fields
  | _ => none

/-- A field; an unknown one is undefined, and an undefined value has none. -/
def attr (v : Value) (name : String) : Option Value :=
  match v with
  | .undefined => none
  | v => some ((v.field? name).getD .undefined)

def nth? {α : Type} (xs : List α) (i : Int) : Option α :=
  if 0 ≤ i then xs[i.toNat]?
  else if -(xs.length : Int) ≤ i then xs[(xs.length + i).toNat]?
  else none

def item (v k : Value) : Option Value :=
  match v with
  | .undefined => none
  | .list xs => some (((k.asInt?).bind (nth? xs)).getD .undefined)
  | .string s _ =>
    some (((k.asInt?).bind fun i => (nth? s.toList i).map fun c => str (String.ofList [c])).getD
      .undefined)
  | .map ms => some ((lookupMember k ms).getD .undefined)
  | .loop fs | .space fs => some ((lookupName k.text fs).getD .undefined)
  | _ => some .undefined

/-- The items that a loop over the value goes through. -/
def items? : Value → Option (List Value)
  | .undefined | .null => some []
  | .string s _ => some (s.toList.map fun c => str (String.ofList [c]))
  | .list xs => some xs
  | .map ms => some (ms.map (·.1))
  | .space fs | .loop fs => some (fs.map fun f => str f.1)
  | _ => none

def length? : Value → Option Nat
  | .string s _ => some s.length
  | .list xs => some xs.length
  | .map ms => some ms.length
  | .loop fs | .space fs => some fs.length
  | _ => none

/-- Membership: a part of a text, an item of a list, a key of a map. -/
def contains (container v : Value) : Option Bool :=
  match container with
  | .undefined => some false
  | .string s _ => some (Text.splitOnText v.text.toList s.toList).isSome
  | .list xs => some (xs.any fun x => equals x v)
  | .map ms => some (lookupMember v ms).isSome
  | .space fs | .loop fs => some (lookupName v.text fs).isSome
  | _ => none

def isSequence : Value → Bool
  | .list _ => true
  | _ => false

def repeated (n : Nat) (s : String) : String := String.join (List.replicate n s)

def add : Value → Value → Option Value
  | .list xs, .list ys => some (.list (xs ++ ys))
  | a, b =>
    match pair? a b with
    | some (.ints x y) => checkedInt (x + y)
    | some (.floats x y) => some (.float (x + y))
    | some (.texts x y) => some (str (x ++ y))
    | none => none

def sub (a b : Value) : Option Value :=
  match pair? a b with
  | some (.ints x y) => checkedInt (x - y)
  | some (.floats x y) => some (.float (x - y))
  | _ => none

def mul : Value → Value → Option Value
  | .string s _, .int n | .int n, .string s _ =>
    if n < 0 then none else some (str (repeated n.toNat s))
  | .list xs, .int n | .int n, .list xs =>
    if n < 0 then none else some (.list (List.replicate n.toNat xs).flatten)
  | a, b =>
    match pair? a b with
    | some (.ints x y) => checkedInt (x * y)
    | some (.floats x y) => some (.float (x * y))
    | _ => none

/-- The quotient is always a float. -/
def div (a b : Value) : Option Value :=
  match a.asFloat?, b.asFloat? with
  | some x, some y => some (.float (x / y))
  | _, _ => none

/-- The largest whole float up to the quotient, for a positive divisor; the least one from it on for
a negative. -/
def floorDivFloat (x y : Float) : Float :=
  let q := x / y
  if q.isNaN || q.isInf then q
  else
    let whole := floatOfInt (truncated q)
    let r := x - y * whole
    if r < 0.0 then (if 0.0 < y then whole - 1.0 else whole + 1.0) else whole

def floorDiv (a b : Value) : Option Value :=
  match pair? a b with
  | some (.ints x y) => if y = 0 then none else checkedInt (x / y)
  | some (.floats x y) => some (.float (floorDivFloat x y))
  | _ => none

/-- The remainder with the sign of the dividend. -/
def remFloat (x y : Float) : Float :=
  if x.isNaN || y.isNaN || x.isInf || y == 0.0 then notANumber
  else if y.isInf then x
  else
    let bx := Decimal.Binary.ofFloat x
    let dy := Decimal.Binary.ofFloat y
    let e := min bx.exponent dy.exponent
    let n := bx.mantissa * wordSize (bx.exponent - e).toNat % (dy.mantissa * wordSize (dy.exponent - e).toNat)
    let r := Decimal.Ratio.scaled n 2 e
    let z := Float.ofNat r.num / Float.ofNat r.den
    if Decimal.isNegative x then -z else z

def rem (a b : Value) : Option Value :=
  match pair? a b with
  | some (.ints x y) => if y = 0 then none else checkedInt (x % y)
  | some (.floats x y) => some (.float (remFloat x y))
  | _ => none

def pow (a b : Value) : Option Value :=
  match pair? a b with
  | some (.ints x y) =>
    if y < 0 ∨ (200 < y ∧ 1 < x.natAbs) then none else checkedInt (x.pow (y.toNat % wordSize 32))
  | some (.floats x y) => some (.float (x.pow y))
  | _ => none

def neg : Value → Option Value
  | .float x => some (.float (-x))
  | .int n => checkedInt (-n)
  | _ => none

end Value
end Template
end SeriesAlarm
