import SeriesAlarm.Expr.Message
import SeriesAlarm.Expr.Operator
import SeriesAlarm.Series.Source

/-!
# Leaves of a rule

A leaf is a constant or reads one series: its value, its change over one interval, or whether it is
missing. Series are bound to the slots of a leaf for one pass; an unbound slot reads as missing.
-/

namespace SeriesAlarm

open Text

inductive FunctionKind
  | constant | getValue | delta | isMissing | isNotMissing
  deriving DecidableEq, Repr, Inhabited

namespace FunctionKind

def all : List FunctionKind := [.constant, .getValue, .delta, .isMissing, .isNotMissing]

def name : FunctionKind → String
  | .constant => "Constant"
  | .getValue => "GetValue"
  | .delta => "Delta"
  | .isMissing => "IsMissing"
  | .isNotMissing => "IsNotMissing"

def arity : FunctionKind → Nat
  | .constant => 0
  | _ => 1

def defaultMessage : FunctionKind → String
  | .constant => "$VALUE"
  | .getValue => "$TSID[0] value $VALUE at $DATETIME"
  | .delta => "$TSID[0] changed by $VALUE at $DATETIME"
  | .isMissing => "$TSID[0] is missing at $DATETIME"
  | .isNotMissing => "$TSID[0] is not missing at $DATETIME"

def ofText? (s : String) : Option FunctionKind :=
  let word (s : String) := (lower s).toList.filter (· != '_')
  all.find? fun k => word k.name == word (trim s)

def unknownMessage (s : String) : String := "unknown function: '" ++ trim s ++ "'"

end FunctionKind

/-- Why identifiers do not fit a function. -/
inductive LeafError
  | constantWithInputs
  | wrongCount (kind : FunctionKind) (got : Nat)
  | emptyInput (kind : FunctionKind) (position : Nat)
  deriving DecidableEq, Repr

def LeafError.message : LeafError → String
  | .constantWithInputs => "Constant takes a value, not identifiers"
  | .wrongCount kind got =>
    kind.name ++ " takes " ++ Nat.repr kind.arity ++ " argument(s), got " ++ Nat.repr got
  | .emptyInput kind position => kind.name ++ " argument " ++ Nat.repr position ++ " is empty"

/-- A slot of `bound` for each input; `last` is the value of the latest evaluation. -/
structure Leaf where
  kind : FunctionKind
  inputs : List String := []
  constant : Float := notANumber
  message : Option String := none
  missingValue : Option Float := none
  bound : List (Option Series) := []
  last : Float := notANumber

namespace Leaf

def ofConstant (x : Float) : Leaf := { kind := .constant, constant := x }

def isBlankText (s : String) : Bool := s.toList.all isBlank

def ofInputs (kind : FunctionKind) (inputs : List String) : Except LeafError Leaf :=
  if kind = .constant then .error .constantWithInputs
  else if inputs.length ≠ kind.arity then .error (.wrongCount kind inputs.length)
  else
    match inputs.findIdx? isBlankText with
    | some i => .error (.emptyInput kind i)
    | none => .ok { kind, inputs, bound := inputs.map fun _ => none }

def positions (f : Leaf) : List Nat := List.range f.inputs.length

/-- Binds every slot to what the source answers for the window, whatever it held before. The flag
tells whether all of them resolved. -/
def bindFrom (source : Source) (first last : Instant) : List String →
    Option (List (Option Series) × Bool)
  | [] => some ([], true)
  | id :: ids =>
    match source.resolve id first last with
    | .fault => none
    | .series s => (bindFrom source first last ids).map fun (slots, ok) => (some s :: slots, ok)
    | .error _ | .silent => (bindFrom source first last ids).map fun (slots, _) => (none :: slots, false)

/-- The leaf with its slots bound for a window; nothing when the source cannot be asked for it. -/
def resolve? (f : Leaf) (source : Source) (first last : Instant) : Option (Leaf × Bool) :=
  (bindFrom source first last f.inputs).map fun (slots, ok) => ({ f with bound := slots }, ok)

def bindSlot (f : Leaf) (position : Nat) (s : Option Series) : Leaf :=
  { f with bound := f.bound.set position s }

def series? (f : Leaf) (position : Nat) : Option Series := (f.bound[position]?).join

def boundIntervals (f : Leaf) : List Interval := f.bound.filterMap fun s => s.map (·.interval)

/-- What a missing sample reads as: the leaf's own sentinel, else that of the series. -/
def sentinel (f : Leaf) (position : Nat) : Float :=
  f.missingValue.getD (((f.series? position).map (·.missing)).getD notANumber)

def sample (f : Leaf) (position : Nat) (t : Instant) : Float :=
  match f.series? position with
  | some s => s.valueAt t
  | none => f.sentinel position

def isMissingAt (f : Leaf) (position : Nat) (t : Instant) : Bool :=
  isMissingValue (f.sample position t) (f.sentinel position)

/-- The sample one interval later less the one at `t`, or the sentinel if either is missing. -/
def delta? (f : Leaf) (t : Instant) : Option Float :=
  match f.series? 0 with
  | none => some (f.sentinel 0)
  | some s =>
    (s.interval.next? t).map fun next =>
      if f.isMissingAt 0 t || f.isMissingAt 0 next then f.sentinel 0
      else s.valueAt next - s.valueAt t

/-- The value at an instant; nothing when looking ahead leaves the calendar. -/
def value? (f : Leaf) (t : Instant) : Option Float :=
  match f.kind with
  | .constant => some f.constant
  | .getValue => some (f.sample 0 t)
  | .delta => f.delta? t
  | .isMissing => some (truthValue (f.isMissingAt 0 t))
  | .isNotMissing => some (truthValue !(f.isMissingAt 0 t))

def evaluate? (f : Leaf) (t : Instant) : Option Leaf :=
  (f.value? t).map fun x => { f with last := x }

def explanation (f : Leaf) (t : Instant) : String :=
  Message.substitute (f.message.getD f.kind.defaultMessage) t f.last f.inputs

def wildcard : Char := '*'

def hasWildcard (id : String) : Bool := id.toList.contains wildcard

def wildcardPositions (f : Leaf) : List Nat :=
  f.positions.filter fun i => hasWildcard (f.inputs.getD i "")

def wildcards (f : Leaf) : List String := f.inputs.filter hasWildcard

def capturedInput (capture : String) (id : String) : String :=
  String.ofList (replaceFirst wildcard capture.toList id.toList)

/-- Replaces the first wildcard of every input that has one and unbinds those slots. -/
def setWildcards (f : Leaf) (capture : String) : Leaf :=
  { f with
    inputs := f.inputs.map fun id => if hasWildcard id then capturedInput capture id else id
    bound := f.bound.mapIdx fun i slot =>
      if hasWildcard (f.inputs.getD i "") then none else slot }

end Leaf
end SeriesAlarm
