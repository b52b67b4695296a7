import SeriesAlarm.Document.Fields
import SeriesAlarm.Expr.Operator
import SeriesAlarm.Expr.Leaf

/-!
# Formulas

An expression as it is written in a document: operations on formulas, functions of series, and
constants. What a node is follows from its fields, tried in this order.
-/

namespace SeriesAlarm

open Yaml (Value)
open Document

inductive Formula
  | operation (op : Operator) (left right : Formula) (message : Option String)
  | function (kind : FunctionKind) (args : List String) (message : Option String)
      (missingValue : Option Float)
  | constant (x : Float) (message : Option String)
  deriving Inhabited

namespace Formula

def size : Formula → Nat
  | .operation _ left right _ => 1 + left.size + right.size
  | _ => 1

abbrev Members := List (Value × Value × Option Formula)

def formulaOf (members : Members) (names : List String) (name : String) : Option Formula :=
  (members.find? fun m => Fields.keyName? names m.1 == some (some name)).bind (·.2.2)

def plain (members : Members) : List (Value × Value) := members.map fun m => (m.1, m.2.1)

def message? (fs : Fields) : Option (Option String) := fs.optional? "message" string?

def operation? (members : Members) : Option Formula := do
  let names := ["op", "left", "right", "message"]
  let fs ← Fields.lenient? names (plain members)
  let op ← ((fs.get? "op").bind string?).bind Operator.ofText?
  let left ← formulaOf members names "left"
  let right ← formulaOf members names "right"
  return .operation op left right (← message? fs)

def function? (members : Members) : Option Formula := do
  let fs ← Fields.lenient? ["function", "args", "message", "missing_value"] (plain members)
  let kind ← ((fs.get? "function").bind string?).bind FunctionKind.ofText?
  let args ← fs.default? "args" [] (listOf? string?)
  return .function kind args (← message? fs) (← fs.optional? "missing_value" Document.float?)

def constant? (members : Members) : Option Formula := do
  let fs ← Fields.lenient? ["constant", "message"] (plain members)
  let x ← (fs.get? "constant").bind Document.float?
  return .constant x (← message? fs)

def ofMembers? (members : Members) : Option Formula :=
  ((operation? members).orElse fun _ => function? members).orElse fun _ => constant? members

mutual

def ofValue? : Value → Option Formula
  | .mapping members => ofMembers? (withFormulas members)
  | _ => none

def withFormulas : List (Value × Value) → Members
  | [] => []
  | (k, v) :: ms => (k, v, ofValue? v) :: withFormulas ms

end

def optionalField {α : Type} (name : String) (write : α → Value) : Option α → List (Value × Value)
  | some a => [(.string name, write a)]
  | none => []

def value : Formula → Value
  | .operation op left right message =>
    .mapping ([(.string "op", .string op.symbol), (.string "left", left.value),
      (.string "right", right.value)] ++ optionalField "message" .string message)
  | .function kind args message missingValue =>
    .mapping ([(.string "function", .string kind.name),
      (.string "args", .sequence (args.map .string))] ++
      optionalField "message" .string message ++ optionalField "missing_value" .float missingValue)
  | .constant x message =>
    .mapping ([(.string "constant", .float x)] ++ optionalField "message" .string message)

/-- Equality by the values of numbers, so that a NaN differs from itself. -/
def equals : Formula → Formula → Bool
  | .operation op l r m, .operation op' l' r' m' => op == op' && l.equals l' && r.equals r' && m == m'
  | .function k a m x, .function k' a' m' x' => k == k' && a == a' && m == m' && x == x'
  | .constant x m, .constant x' m' => x == x' && m == m'
  | _, _ => false

end Formula
end SeriesAlarm
