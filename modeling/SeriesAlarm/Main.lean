import SeriesAlarm.Json.Reader
import SeriesAlarm.Worker.Basic

/-!
# The worker program

The surroundings of the worker come on standard input, one JSON object a line: the texts of the
`files` of its folder by path, its variables under `env`, and the time under `now`. A worker that
runs once prints its report; any other takes a turn for every line and stops at the end of the
input.
-/

namespace SeriesAlarm

namespace Surroundings

def texts (j : Json) (name : String) : List (String × String) :=
  match j.field? name with
  | some (.object members) =>
    members.filterMap fun m => match m.2 with
      | .string text => some (m.1, text)
      | _ => none
  | _ => []

def tree (files : List (String × String)) : FileNode :=
  files.foldl (fun n f => n.put (.file (some f.2)) (FileNode.splitPath f.1)) .empty

def ofJson? (j : Json) : Option Surroundings := do
  let .string now ← j.field? "now" | none
  return { files := tree (texts j "files"), env := texts j "env", now := ← Arguments.instant? now }

def ofText? (s : String) : Option Surroundings := (Json.ofText? s).bind ofJson?

end Surroundings

def usage : String :=
  "Usage: [--profile NAME] [--rules-dir DIR] [--data-dir DIR] [--tick SECONDS]\n" ++
    "       [--timeout SECONDS] [--once] [--at 'YYYY-MM-DD HH:MM:SS'] [--no-watch]"

def version : String := "0.1.0"

partial def Worker.loop (input : IO.FS.Stream) (w : Worker) : IO UInt32 := do
  let line ← input.getLine
  if line.isEmpty then return 0
  match Surroundings.ofText? line with
  | none => loop input w
  | some s =>
    match w.turn s with
    | .ok t => loop input t.worker
    | .error e => return UInt32.ofNat e.exitCode

def Worker.main (args : List String) : IO UInt32 := do
  let input ← IO.getStdin
  match Surroundings.ofText? (← input.getLine) with
  | none =>
    IO.eprintln "no surroundings on standard input"
    return 2
  | some s =>
    match Worker.launch args s with
    | .error e =>
      match e with
      | .stopped .help => IO.println usage
      | .stopped .version => IO.println version
      | .stopped .refused => IO.eprintln usage
      | .notWatchable => IO.eprintln "the folder of documents cannot be watched"
      | _ => pure ()
      return UInt32.ofNat e.exitCode
    | .ok (.once t) =>
      IO.println (t.report.json.indented 0)
      return 0
    | .ok (.looping w) =>
      match w.turn s with
      | .ok t => t.worker.loop input
      | .error e => return UInt32.ofNat e.exitCode

end SeriesAlarm

def main (args : List String) : IO UInt32 := SeriesAlarm.Worker.main args
