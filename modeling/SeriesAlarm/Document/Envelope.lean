import SeriesAlarm.Document.Fields

/-!
# Envelopes

What every document begins with: the version, the kind and the metadata. The other members are kept
as values until the kind is known.
-/

namespace SeriesAlarm

open Yaml (Value Node)

structure Metadata where
  id : String
  name : String
  description : Option String := none
  tags : Option (List String) := none
  enabled : Bool := true
  deriving DecidableEq, Repr

structure Envelope where
  apiVersion : String
  kind : String
  metadata : Metadata
  rest : Document.Fields

namespace Yaml.Node

/-- The text of a scalar as it stands, whatever it could be read as. -/
def text? : Node → Option String
  | .scalar _ s _ => some s
  | _ => none

/-- Whether a plain scalar is absent or null; nothing for a null tag on another text. -/
def isNull? : Node → Option Bool
  | .scalar tag s .plain =>
    match tag with
    | none => some (s = "" || isNullText s)
    | some t => if t = tagStart ++ "null" then (if isNullText s then some true else none) else some false
  | _ => some false

/-- A truth value, written plain or in a tagged block. -/
def bool? : Node → Option Bool
  | .scalar _ s .plain => boolText? s
  | .scalar (some t) s .literal => if t = tagStart ++ "bool" then boolText? s else none
  | _ => none

def texts? : Node → Option (List String)
  | .sequence _ items => items.mapM text?
  | _ => none

def unlessNull? {α : Type} (read : Node → Option α) (n : Node) : Option (Option α) := do
  if ← n.isNull? then return none else (read n).map some

end Yaml.Node

namespace Metadata

def names : List String := ["id", "name", "description", "tags", "enabled"]

def ofFields? (fs : List (String × Node)) : Option Metadata := do
  let id ← (fs.lookup "id").bind Node.text?
  let name ← (fs.lookup "name").bind Node.text?
  let description ← (fs.lookup "description").elim (some none) (Node.unlessNull? Node.text?)
  let tags ← (fs.lookup "tags").elim (some none) (Node.unlessNull? Node.texts?)
  let enabled ← (fs.lookup "enabled").elim (some true) Node.bool?
  return { id, name, description, tags, enabled }

/-- A mapping with these fields only, each at most once, or their nodes in order. -/
def ofNode? : Node → Option Metadata
  | .mapping _ members => do
    let fs ← members.mapM fun (k, n) => do
      let name ← k.text?
      if names.contains name then some (name, n) else none
    if fs.length = (sortedNames (fs.map (·.1))).length then ofFields? fs else none
  | .sequence _ items => if items.length ≤ names.length then ofFields? (names.zip items) else none
  | _ => none

end Metadata

namespace Envelope

def single? (members : List (String × Node)) (name : String) : Option Node :=
  match members.filter fun m => m.1 == name with
  | [m] => some m.2
  | _ => none

def ownNames : List String := ["apiVersion", "kind", "metadata"]

def ofNode? : Node → Option Envelope
  | .mapping _ members => do
    let named ← members.mapM fun (k, n) => do return (← k.text?, n)
    let apiVersion ← (single? named "apiVersion").bind Node.text?
    let kind ← (single? named "kind").bind Node.text?
    let metadata ← (single? named "metadata").bind Metadata.ofNode?
    let others := named.filter fun m => !ownNames.contains m.1
    let rest ← others.mapM fun (name, n) => do return (name, ← Value.ofNode? n)
    if Document.Fields.namesRepeat rest || rest.any fun f => f.2.hasRepeatedKey then none
    else return { apiVersion, kind, metadata, rest }
  | _ => none

def ofText? (text : String) : Option Envelope := (Node.ofText? text).bind ofNode?

end Envelope
end SeriesAlarm
