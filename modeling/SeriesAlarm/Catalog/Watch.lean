import SeriesAlarm.Catalog.Scan

/-!
# Following the changes of a folder

Changes of files raise events, and events keep a catalog up to date. An event only says which files
to look at: what they hold is read when the event is taken up. A file that cannot be read as a
document keeps the document that it gave before.
-/

namespace SeriesAlarm

inductive FileEventKind
  | created | modified | renamed | removed | other
  deriving DecidableEq, Repr

structure FileEvent where
  kind : FileEventKind
  paths : List FilePath
  deriving DecidableEq, Repr

namespace Catalog

/-- Looks at a file that may have changed or gone. -/
def refresh (folder : FileNode) (c : Catalog) (path : FilePath) : Catalog :=
  if (folder.find? path).isNone then c.removePath path
  else
    match folder.document path with
    | .ok d => c.upsert path d
    | .error _ => c

def handlePath (folder : FileNode) (kind : FileEventKind) (c : Catalog) (path : FilePath) :
    Catalog :=
  if (skipReason? path).isSome then c
  else
    match kind with
    | .created | .modified | .renamed => c.refresh folder path
    | .removed => c.removePath path
    | .other => c

def handle (folder : FileNode) (c : Catalog) (e : FileEvent) : Catalog :=
  e.paths.foldl (handlePath folder e.kind) c

end Catalog

/-- A change of a folder. A file is placed complete, or written where it stands. -/
inductive FileChange
  | place (path : FilePath) (content : Option String)
  | write (path : FilePath) (content : Option String)
  | delete (path : FilePath)
  | rename (old new : FilePath)
  | makeFolder (path : FilePath)
  deriving DecidableEq, Repr

namespace FileChange

def apply (n : FileNode) : FileChange → FileNode
  | .place path content | .write path content => n.put (.file content) path
  | .delete path => n.remove path
  | .rename old new =>
    match n.find? old with
    | some node => (n.remove old).put node new
    | none => n
  | .makeFolder path => if (n.find? path).isSome then n else n.put .empty path

def events (n : FileNode) : FileChange → List FileEvent
  | .place path _ => [⟨.renamed, [path]⟩]
  | .write path _ =>
    (if (n.find? path).isSome then [] else [⟨.created, [path]⟩]) ++
      [⟨.modified, [path]⟩, ⟨.other, [path]⟩]
  | .delete path =>
    match n.find? path with
    | some node =>
      (node.filesFrom (fun _ => false) path).map (fun f => ⟨.removed, [f.1]⟩) ++
        [⟨.removed, [path]⟩]
    | none => []
  | .rename old new =>
    if (n.find? old).isSome then
      [⟨.renamed, [old]⟩, ⟨.renamed, [new]⟩, ⟨.renamed, [old, new]⟩]
    else []
  | .makeFolder path => if (n.find? path).isSome then [] else [⟨.created, [path]⟩]

end FileChange

namespace FileNode

/-- An event for every file in which two states of a folder differ. -/
def eventsBetween (old new : FileNode) : List FileEvent :=
  let gone := old.allFiles.filter fun f => (new.find? f.1).isNone
  let changed := new.allFiles.filter fun f => (old.allFiles.lookup f.1) != some f.2
  gone.map (fun f => ⟨.removed, [f.1]⟩) ++ changed.map fun f => ⟨.modified, [f.1]⟩

end FileNode

/-- A folder of documents, which may be missing, with its catalog. -/
structure RuleFolder where
  folder : Option FileNode := some .empty
  catalog : Catalog := {}
  watched : Bool := false

namespace RuleFolder

/-- The folder at a path of a tree. A missing one is made, unless a file is in the way. -/
def ofTree (tree : FileNode) (path : FilePath) : RuleFolder where
  folder := (if (tree.find? path).isSome then tree else tree.put .empty path).find? path

def load (r : RuleFolder) : RuleFolder × List LoadResult :=
  let (catalog, results) := r.catalog.load r.folder
  ({ r with catalog }, results)

/-- Events are taken up from now on. A missing folder cannot be watched. -/
def watch? (r : RuleFolder) : Option RuleFolder :=
  r.folder.map fun _ => { r with watched := true }

def change (r : RuleFolder) (c : FileChange) : RuleFolder :=
  let old := r.folder.getD .empty
  let new := c.apply old
  { r with
    folder := some new
    catalog := if r.watched then (c.events old).foldl (Catalog.handle new) r.catalog else r.catalog }

def replace (r : RuleFolder) (new : Option FileNode) : RuleFolder :=
  let now := new.getD .empty
  let events := (r.folder.getD .empty).eventsBetween now
  { r with
    folder := new
    catalog := if r.watched then events.foldl (Catalog.handle now) r.catalog else r.catalog }

/-- The folder removed with all it holds. What is made in its place is not watched. -/
def vanish (r : RuleFolder) : RuleFolder := { r.replace none with watched := false }

end RuleFolder
end SeriesAlarm
