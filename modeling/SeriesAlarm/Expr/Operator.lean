import SeriesAlarm.Text.Blank
import SeriesAlarm.Text.LetterCase

/-!
# Operators

The twelve binary operators of a rule, their spellings, and what they make of two floats.
-/

namespace SeriesAlarm

open Text

/-- Neither zero nor NaN. -/
def isTruthy (x : Float) : Bool := x != 0.0 && !x.isNaN

def truthValue (b : Bool) : Float := if b then 1.0 else 0.0

inductive Operator
  | add | subtract | multiply | divide | and | or
  | equals | notEqual | greaterThan | greaterThanOrEqual | lessThan | lessThanOrEqual
  deriving DecidableEq, Repr, Inhabited

namespace Operator

def all : List Operator :=
  [.add, .subtract, .multiply, .divide, .and, .or, .equals, .notEqual, .greaterThan,
    .greaterThanOrEqual, .lessThan, .lessThanOrEqual]

def symbol : Operator → String
  | .add => "+"
  | .subtract => "-"
  | .multiply => "*"
  | .divide => "/"
  | .and => "&&"
  | .or => "||"
  | .equals => "=="
  | .notEqual => "!="
  | .greaterThan => ">"
  | .greaterThanOrEqual => ">="
  | .lessThan => "<"
  | .lessThanOrEqual => "<="

def name : Operator → String
  | .add => "Add"
  | .subtract => "Subtract"
  | .multiply => "Multiply"
  | .divide => "Divide"
  | .and => "And"
  | .or => "Or"
  | .equals => "Equals"
  | .notEqual => "NotEqual"
  | .greaterThan => "GreaterThan"
  | .greaterThanOrEqual => "GreaterThanOrEqual"
  | .lessThan => "LessThan"
  | .lessThanOrEqual => "LessThanOrEqual"

def words : Operator → List String
  | .add => ["add", "plus"]
  | .subtract => ["subtract", "minus"]
  | .multiply => ["multiply", "times"]
  | .divide => ["divide"]
  | .and => ["and"]
  | .or => ["or"]
  | .equals => ["equals", "eq"]
  | .notEqual => ["notequal", "ne"]
  | .greaterThan => ["greaterthan", "gt"]
  | .greaterThanOrEqual => ["greaterthanorequal", "ge"]
  | .lessThan => ["lessthan", "lt"]
  | .lessThanOrEqual => ["lessthanorequal", "le"]

def isArithmetic : Operator → Bool
  | .add | .subtract | .multiply | .divide => true
  | _ => false

def isBoolean (op : Operator) : Bool := !op.isArithmetic

def apply (op : Operator) (x y : Float) : Float :=
  match op with
  | .add => x + y
  | .subtract => x - y
  | .multiply => x * y
  | .divide => x / y
  | .and => truthValue (isTruthy x && isTruthy y)
  | .or => truthValue (isTruthy x || isTruthy y)
  | .equals => truthValue (x == y)
  | .notEqual => truthValue (x != y)
  | .greaterThan => truthValue (y < x)
  | .greaterThanOrEqual => truthValue (y ≤ x)
  | .lessThan => truthValue (x < y)
  | .lessThanOrEqual => truthValue (x ≤ y)

def isSeparator (c : Char) : Bool := c == '_' || c == '-' || c == ' '

/-- Reads a symbol, or a word in any letter case with separators anywhere. -/
def ofText? (s : String) : Option Operator :=
  let text := trim s
  let word := String.ofList ((lower text).toList.filter fun c => !isSeparator c)
  (all.find? fun op => op.symbol == text).orElse fun _ =>
    all.find? fun op => op.words.contains word

def unknownMessage (s : String) : String := "unknown operator: '" ++ trim s ++ "'"

end Operator
end SeriesAlarm
