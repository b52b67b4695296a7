import SeriesAlarm.Document.Basic
import SeriesAlarm.Files

/-!
# The catalog of documents

The documents of a folder by id, and which file each came from. Every change raises the generation,
so whoever remembers a generation can tell that something changed since.
-/

namespace SeriesAlarm

structure Catalog where
  /-- Sorted by id, one for each. -/
  documents : List Document := []
  /-- The id that each file gave. -/
  sources : List (FilePath × String) := []
  generation : Nat := 0

namespace Catalog

def insertDocument (d : Document) : List Document → List Document
  | [] => [d]
  | e :: es =>
    if d.id < e.id then d :: e :: es
    else if d.id = e.id then d :: es
    else e :: insertDocument d es

def removeDocument (id : String) (ds : List Document) : List Document :=
  ds.filter fun d => d.id ≠ id

def document? (c : Catalog) (id : String) : Option Document := c.documents.find? fun d => d.id = id

def source? (c : Catalog) (path : FilePath) : Option String := c.sources.lookup path

def withoutSource (path : FilePath) (sources : List (FilePath × String)) :
    List (FilePath × String) :=
  sources.filter fun s => s.1 ≠ path

/-- Takes up the document of a file. If the file gave another id before, that id is dropped. -/
def upsert (c : Catalog) (path : FilePath) (d : Document) : Catalog where
  documents :=
    insertDocument d (match c.source? path with
      | some old => if old = d.id then c.documents else removeDocument old c.documents
      | none => c.documents)
  sources := (path, d.id) :: withoutSource path c.sources
  generation := c.generation + 1

/-- Drops the id that a file gave; a file that gave none changes nothing. -/
def removePath (c : Catalog) (path : FilePath) : Catalog :=
  match c.source? path with
  | none => c
  | some id => {
      documents := removeDocument id c.documents
      sources := withoutSource path c.sources
      generation := c.generation + 1 }

end Catalog
end SeriesAlarm
