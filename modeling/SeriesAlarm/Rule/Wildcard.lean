import SeriesAlarm.Rule.Test

/-!
# Wildcards

A test with a `*` in an identifier stands for one test per matching series. The first such
identifier of the tree drives the match, and every wildcard of the tree receives the same capture.
-/

namespace SeriesAlarm
namespace Wildcard

open Text

/-- What stands between a beginning and an ending, if it is not empty. -/
def between? (start finish text : List Char) : Option (List Char) :=
  match dropLeading? start text with
  | none => none
  | some rest =>
    match dropLeading? finish.reverse rest.reverse with
    | none => none
    | some middle => if middle = [] then none else some middle.reverse

/-- The text that the only wildcard of a pattern stands for in a candidate. -/
def capture? (pattern candidate : String) : Option String :=
  match splitAt? Leaf.wildcard pattern.toList with
  | none => none
  | some (start, finish) =>
    if Leaf.wildcard ∈ finish then none
    else (between? start finish candidate.toList).map String.ofList

def captures (pattern : String) (identifiers : List String) : List String :=
  sortedNames (identifiers.filterMap (capture? pattern))

def copyId (id capture : String) : String := id ++ "[" ++ capture ++ "]"

def copyFor (s : Test) (capture : String) : Test :=
  { s.setWildcards capture with id := copyId s.id capture }

/-- The copies of a test for the identifiers that match; a test without wildcards is its only
copy. -/
def expandTest (s : Test) (identifiers : List String) : List Test :=
  match s.wildcards with
  | [] => [s]
  | pattern :: _ => (captures pattern identifiers).map (copyFor s)

/-- Replaces each test by its copies. Where identifiers are not available a test with a wildcard is
dropped. -/
def expandAll (tests : List Test) (identifiers : Except SourceError (List String)) : List Test :=
  tests.flatMap fun s =>
    if s.wildcards.isEmpty then [s]
    else
      match identifiers with
      | .ok ids => expandTest s ids
      | .error _ => []

end Wildcard
end SeriesAlarm
