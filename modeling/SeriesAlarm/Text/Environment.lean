import SeriesAlarm.Text.Replace

/-!
# Environments

Named texts, and texts that refer to them as `${NAME}`.
-/

namespace SeriesAlarm

open Text

/-- Variables by name; of a name that is repeated the first counts. -/
abbrev Environment := List (String × String)

/-- Why the references in a text cannot be replaced. -/
inductive ReferenceError
  | unclosed (text : String)
  | unknown (name : String)
  deriving DecidableEq, Repr

def ReferenceError.message : ReferenceError → String
  | .unclosed text => "unclosed env var reference in: " ++ text
  | .unknown name => "env var not found: " ++ name

namespace Environment

/-- A variable is found by the text `NAME=` at the front of its line `NAME=value`. -/
def get? (env : Environment) (name : String) : Option String :=
  if name = "" then none
  else env.findSome? fun (k, v) =>
    (dropLeading? (name.toList ++ ['=']) (k.toList ++ '=' :: v.toList)).map String.ofList

def nonempty? (env : Environment) (name : String) : Option String :=
  (env.get? name).filter (· ≠ "")

def set (env : Environment) (name value : String) : Environment := (name, value) :: env

/-- The text with every reference replaced; values are not looked into. The first argument counts
characters of a reference that are still to be passed over, and `whole` is the text for messages. -/
def expandFrom (env : Environment) (whole : String) : Nat → List Char → Except ReferenceError (List Char)
  | _, [] => .ok []
  | skip + 1, _ :: cs => expandFrom env whole skip cs
  | 0, c :: cs =>
    match dropLeading? ['$', '\x7b'] (c :: cs) with
    | none => (expandFrom env whole 0 cs).map (c :: ·)
    | some rest =>
      match splitAt? '\x7d' rest with
      | none => .error (.unclosed whole)
      | some (name, _) =>
        match env.get? (String.ofList name) with
        | none => .error (.unknown (String.ofList name))
        | some value => (expandFrom env whole (name.length + 2) cs).map (value.toList ++ ·)

def expand (env : Environment) (text : String) : Except ReferenceError String :=
  (expandFrom env text 0 text.toList).map String.ofList

end Environment
end SeriesAlarm
