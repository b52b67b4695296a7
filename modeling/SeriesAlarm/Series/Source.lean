import SeriesAlarm.Series.Basic
import SeriesAlarm.Json.Reader
import SeriesAlarm.Files
import SeriesAlarm.Text.Names

/-!
# Sources of series

A source answers which identifiers it knows and resolves one of them for a window. Series come from
memory or from a folder with one JSON file a series.
-/

namespace SeriesAlarm

open Text

inductive SourceError
  | unreadable
  | unknownIdentifier (id : String)
  | notAFileName (id : String)
  | malformedFile (id : String)
  | badInterval (cause : IntervalError)
  | unlistable
  deriving DecidableEq, Repr

def SourceError.message : SourceError → String
  | .unreadable => "IO error: <io>"
  | .unknownIdentifier id => "Data source error for '" ++ id ++ "': unknown identifier"
  | .notAFileName id =>
    "Data source error for '" ++ id ++ "': identifier is not a valid file name"
  | .malformedFile id => "Data source error for '" ++ id ++ "': <json>"
  | .badInterval cause => "Parse error: " ++ cause.message
  | .unlistable => "identifiers unavailable"

/-- What comes of resolving an identifier: a series, an error, no answer in the time allowed, or the
fault of a window that ends before it begins. -/
inductive Resolution
  | series (s : Series)
  | error (e : SourceError)
  | silent
  | fault

structure Source where
  resolve : String → Instant → Instant → Resolution
  identifiers : Except SourceError (List String)

namespace Source

/-- Series in memory, the last one of an identifier counting; some identifiers may never answer,
and the list of identifiers may be unavailable. -/
def ofSeries (all : List Series) (hang : List String) (unlistable : Bool) : Source where
  resolve id first last :=
    if hang.contains id then .silent
    else
      match all.reverse.find? fun s => s.identifier == id with
      | none => .error (.unknownIdentifier id)
      | some s =>
        match s.window? first last with
        | some w => .series w
        | none => .fault
  identifiers :=
    if unlistable then .error .unlistable else .ok (sortedNames (all.map (·.identifier)))

def fileName? (id : String) : Except SourceError String :=
  if id = "" ∨ id.toList.any (fun c => c == '/' || c == '\\') ∨ FileNode.isHidden id then
    .error (.notAFileName id)
  else .ok (id ++ ".json")

/-- What a series file holds: an interval, a sentinel and samples, null for a missing one. -/
structure SeriesFile where
  interval : String
  missing : Option Float
  samples : List (Instant × Option Float)
  deriving DecidableEq

def float? : Json → Option Float
  | .float x => some x
  | .int n => some (if 0 ≤ n then (UInt64.ofNat n.toNat).toFloat else -(UInt64.ofNat n.natAbs).toFloat)
  | _ => none

def optionalFloat? : Json → Option (Option Float)
  | .null => some none
  | v => (float? v).map some

def sample? : Json → Option (Instant × Option Float)
  | .array [.string t, value] => do
    let t ← Instant.readAs? Instant.isoLayout t
    let x ← optionalFloat? value
    return (t, x)
  | _ => none

def samples? : Json → Option (List (Instant × Option Float))
  | .array items => items.mapM sample?
  | _ => none

def single? (ms : List (String × Json)) (name : String) : Option (Option Json) :=
  match ms.filter fun m => m.1 == name with
  | [] => some none
  | [m] => some (some m.2)
  | _ => none

/-- Reads an object with the members `interval`, `missing` and `samples`, or an array of the three;
other members are passed over. -/
def SeriesFile.ofJson? : Json → Option SeriesFile
  | .object ms => do
    let interval ← single? ms "interval"
    let missing ← single? ms "missing"
    let samples ← single? ms "samples"
    match interval, samples with
    | some (.string interval), some samples =>
      return { interval, missing := ← optionalFloat? (missing.getD .null), samples := ← samples? samples }
    | _, _ => none
  | .array [.string interval, missing, samples] => do
    return { interval, missing := ← optionalFloat? missing, samples := ← samples? samples }
  | _ => none

def SeriesFile.series (f : SeriesFile) (id : String) (first last : Instant) :
    Except SourceError Series :=
  match Interval.parse f.interval with
  | .error e => .error (.badInterval e)
  | .ok interval =>
    let missing := f.missing.getD notANumber
    let kept := f.samples.filter fun s => first ≤ s.1 ∧ s.1 ≤ last
    .ok (kept.foldl (fun s p => s.insert p.1 (p.2.getD missing)) { identifier := id, interval, missing })

def readSeries (dir : Option FileNode) (id : String) (first last : Instant) :
    Except SourceError Series := do
  let name ← fileName? id
  match dir.bind fun d => d.text? [name] with
  | none => .error .unreadable
  | some content =>
    match (Json.ofText? content).bind SeriesFile.ofJson? with
    | none => .error (.malformedFile id)
    | some file => file.series id first last

def listedIdentifiers (dir : FileNode) : List String :=
  sortedNames (dir.entries.filterMap fun e =>
    match FileNode.splitExtension e.1 with
    | (stem, some "json") => if FileNode.isHidden stem then none else some stem
    | _ => none)

/-- A folder with a file for each series; no folder at all may be there. -/
def ofFolder (dir : Option FileNode) : Source where
  resolve id first last :=
    match readSeries dir id first last with
    | .ok s => .series s
    | .error e => .error e
  identifiers :=
    match dir with
    | some (.folder es) => .ok (listedIdentifiers (.folder es))
    | _ => .error .unreadable

end Source
end SeriesAlarm
