import SeriesAlarm.Series.Source
import SeriesAlarm.Yaml.Value

/-!
# Fields of records

How the fields of a record are read from a value. A text field takes any scalar for its text; an
exact field takes a value of its own type only.
-/

namespace SeriesAlarm
namespace Document

open Yaml (Value)

abbrev Fields := List (String × Value)

namespace Fields

def get? (fs : Fields) (name : String) : Option Value := fs.lookup name

def namesRepeat (fs : Fields) : Bool :=
  fs.length != (sortedNames (fs.map (·.1))).length

/-- The fields of a record: a mapping with these names only, or their values in order. -/
def strict? (names : List String) : Value → Option Fields
  | .mapping members => do
    let fs ← members.mapM fun (k, v) => do
      let name ← k.text?
      if names.contains name then some (name, v) else none
    if namesRepeat fs then none else some fs
  | .sequence items => if items.length ≤ names.length then some (names.zip items) else none
  | _ => none

/-- The field that a key names: by its text, or by its place among the names. -/
def keyName? (names : List String) : Value → Option (Option String)
  | .string s => some (if names.contains s then some s else none)
  | .int n => if 0 ≤ n then some names[n.toNat]? else none
  | _ => none

def named (names : List String) : List (Value × Value) → Option Fields
  | [] => some []
  | (k, v) :: ms => do
    let name ← keyName? names k
    let rest ← named names ms
    return match name with
      | some name => (name, v) :: rest
      | none => rest

/-- The fields of a record among other members of a mapping. -/
def lenient? (names : List String) (members : List (Value × Value)) : Option Fields := do
  let fs ← named names members
  if namesRepeat fs then none else some fs

def text? (fs : Fields) (name : String) : Option String := (fs.get? name).bind Value.text?

def textOr? (fs : Fields) (name default : String) : Option String :=
  match fs.get? name with
  | none => some default
  | some v => v.text?

/-- A field that may be absent or null. -/
def optional? {α : Type} (fs : Fields) (name : String) (read : Value → Option α) :
    Option (Option α) :=
  match fs.get? name with
  | none | some .null => some none
  | some v => (read v).map some

/-- A field that may be absent but not null. -/
def default? {α : Type} (fs : Fields) (name : String) (default : α) (read : Value → Option α) :
    Option α :=
  match fs.get? name with
  | none => some default
  | some v => read v

end Fields

def bool? : Value → Option Bool
  | .bool b => some b
  | _ => none

def natural? (bound : Nat) : Value → Option Nat
  | .int n => if 0 ≤ n ∧ n < bound then some n.toNat else none
  | _ => none

def float? : Value → Option Float
  | .float x => some x
  | .int n => Source.float? (.int n)
  | _ => none

def string? : Value → Option String
  | .string s => some s
  | _ => none

def listOf? {α : Type} (read : Value → Option α) : Value → Option (List α)
  | .sequence items => items.mapM read
  | _ => none

/-- A mapping from texts to texts, sorted; the last member of a name counts. -/
def texts? : Value → Option (List (String × String))
  | .mapping members => do
    let ms ← members.mapM fun (k, v) => do return (← string? k, ← string? v)
    let names := sortedNames (ms.map (·.1))
    return names.map fun name => (name, (ms.reverse.lookup name).getD "")
  | _ => none

end Document
end SeriesAlarm
