import SeriesAlarm.Catalog.Basic

/-!
# Reading a folder of documents

A scan visits every file outside hidden folders, the entries of a folder in the order of their
names. Files that are no visible YAML files are skipped, those that hold no document fail, and so
does a file with an id that an earlier one has.
-/

namespace SeriesAlarm

namespace FileNode

mutual

/-- The files at or below an entry with their paths, folders of the names to be skipped left out,
and the entries of a folder in the order of their names. -/
def filesFrom (skip : String → Bool) (path : FilePath) : FileNode → List (FilePath × Option String)
  | .file content => [(path, content)]
  | .folder es =>
    ((filesOfEntries skip path es).mergeSort fun a b => decide (a.1 ≤ b.1)).flatMap (·.2)

def filesOfEntries (skip : String → Bool) (path : FilePath) :
    List (String × FileNode) → List (String × List (FilePath × Option String))
  | [] => []
  | (name, node) :: es =>
    (name, if node.isFolder && skip name then [] else filesFrom skip (path ++ [name]) node) ::
      filesOfEntries skip path es

end

/-- The files of a folder; a file is no folder and has none. -/
def visibleFiles (n : FileNode) : List (FilePath × Option String) :=
  if n.isFolder then n.filesFrom isHidden [] else []

def allFiles (n : FileNode) : List (FilePath × Option String) := n.filesFrom (fun _ => false) []

end FileNode

inductive SkipReason
  | hidden
  | notYaml
  deriving DecidableEq, Repr

def SkipReason.message : SkipReason → String
  | .hidden => "dotfile"
  | .notYaml => "not a YAML file"

/-- Why a file gives no document. -/
inductive LoadError
  | unreadable
  | invalid (cause : DocumentError)
  | duplicate (id : String)
  deriving DecidableEq, Repr

/-- What the system says of an unreadable file is cut to a tag. -/
def LoadError.message : LoadError → String
  | .unreadable => "IO error: <io>"
  | .invalid cause => cause.message
  | .duplicate id => "duplicate rule id '" ++ id ++ "'"

inductive LoadStatus
  | loaded (id : String)
  | skipped (reason : SkipReason)
  | failed (error : LoadError)
  deriving DecidableEq, Repr

structure LoadResult where
  path : FilePath
  status : LoadStatus
  deriving DecidableEq, Repr

namespace LoadResult

def isLoaded (r : LoadResult) : Bool :=
  match r.status with
  | .loaded _ => true
  | _ => false

def isFailed (r : LoadResult) : Bool :=
  match r.status with
  | .failed _ => true
  | _ => false

end LoadResult

def isYamlName (name : String) : Bool :=
  (FileNode.splitExtension name).2 == some "yml" || (FileNode.splitExtension name).2 == some "yaml"

def fileName (path : FilePath) : String := path.getLastD ""

def skipReason? (path : FilePath) : Option SkipReason :=
  if FileNode.isHidden (fileName path) then some .hidden
  else if isYamlName (fileName path) then none
  else some .notYaml

def readDocument : Option String → Except LoadError Document
  | none => .error .unreadable
  | some text => (Document.parse text).mapError .invalid

def FileNode.document (folder : FileNode) (path : FilePath) : Except LoadError Document :=
  readDocument (folder.text? path)

/-- What a scan found so far: documents to be taken up, and files that give none. -/
structure Findings where
  documents : List (FilePath × Document) := []
  results : List LoadResult := []

namespace Findings

def visit (f : Findings) (file : FilePath × Option String) : Findings :=
  match skipReason? file.1 with
  | some reason => { f with results := f.results ++ [⟨file.1, .skipped reason⟩] }
  | none =>
    match readDocument file.2 with
    | .ok d => { f with documents := f.documents ++ [(file.1, d)] }
    | .error e => { f with results := f.results ++ [⟨file.1, .failed e⟩] }

def ofFiles (files : List (FilePath × Option String)) : Findings := files.foldl visit {}

end Findings

namespace Catalog

/-- Takes up a document that was found, unless its id is taken. -/
def take (s : Catalog × List LoadResult) (found : FilePath × Document) :
    Catalog × List LoadResult :=
  if (s.1.document? found.2.id).isSome then
    (s.1, s.2 ++ [⟨found.1, .failed (.duplicate found.2.id)⟩])
  else
    ({ s.1 with
        documents := insertDocument found.2 s.1.documents
        sources := (found.1, found.2.id) :: s.1.sources },
      s.2 ++ [⟨found.1, .loaded found.2.id⟩])

/-- Replaces everything by the documents of a folder, which may be missing. Files that give no
document come first among the results. -/
def load (c : Catalog) (folder : Option FileNode) : Catalog × List LoadResult :=
  let found := Findings.ofFiles ((folder.map FileNode.visibleFiles).getD [])
  found.documents.foldl take ({ generation := c.generation + 1 }, found.results)

end Catalog
end SeriesAlarm
