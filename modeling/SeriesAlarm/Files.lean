/-!
# Directories as values

A directory is a tree of named entries. A file holds a text, or bytes that are no text.
-/

namespace SeriesAlarm

inductive FileNode
  | file (content : Option String)
  | folder (entries : List (String × FileNode))
  deriving Inhabited

abbrev FilePath := List String

namespace FileNode

def empty : FileNode := .folder []

def entries : FileNode → List (String × FileNode)
  | .file _ => []
  | .folder es => es

def isFolder : FileNode → Bool
  | .file _ => false
  | .folder _ => true

def lookup (name : String) : List (String × FileNode) → Option FileNode
  | [] => none
  | e :: es => if e.1 = name then some e.2 else lookup name es

def setEntry (name : String) (node : FileNode) : List (String × FileNode) → List (String × FileNode)
  | [] => [(name, node)]
  | e :: es => if e.1 = name then (name, node) :: es else e :: setEntry name node es

def find? (n : FileNode) : FilePath → Option FileNode
  | [] => some n
  | name :: rest =>
    match n with
    | .file _ => none
    | .folder es => (lookup name es).bind fun m => m.find? rest

/-- Puts an entry at a path and makes the folders above it. A file on the way is left as it is. -/
def put (n : FileNode) (node : FileNode) : FilePath → FileNode
  | [] => node
  | name :: rest =>
    match n with
    | .file c => .file c
    | .folder es => .folder (setEntry name (((lookup name es).getD .empty).put node rest) es)

def remove (n : FileNode) : FilePath → FileNode
  | [] => n
  | [name] =>
    match n with
    | .file c => .file c
    | .folder es => .folder (es.filter fun e => e.1 ≠ name)
  | name :: rest =>
    match n with
    | .file c => .file c
    | .folder es =>
      match lookup name es with
      | some m => .folder (setEntry name (m.remove rest) es)
      | none => .folder es

/-- The text of the file at a path, unless there is none or it is no text. -/
def text? (n : FileNode) (path : FilePath) : Option String :=
  match n.find? path with
  | some (.file content) => content
  | _ => none

/-- The extension is what follows the last point, which is not the first character of the name. -/
def splitExtension (name : String) : String × Option String :=
  let (tail, head) := name.toList.reverse.span (· != '.')
  match head with
  | '.' :: stem => if stem = [] then (name, none) else (String.ofList stem.reverse, some (String.ofList tail.reverse))
  | _ => (name, none)

def isHidden (name : String) : Bool := name.toList.head? == some '.'

def splitPath (s : String) : FilePath := (s.splitOn "/").filter fun part => part ≠ "" ∧ part ≠ "."

end FileNode
end SeriesAlarm
