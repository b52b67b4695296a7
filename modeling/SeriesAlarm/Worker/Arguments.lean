import SeriesAlarm.Calendar.InstantText
import SeriesAlarm.Worker.Config

/-!
# Command line arguments

Options are `--name value` or `--name=value`, each at most once, and none of them is required. The
first argument that cannot be taken ends the reading, and so does a request for help.
-/

namespace SeriesAlarm

open Text

structure Arguments where
  profile : Option String := none
  rulesDir : Option String := none
  dataDir : Option String := none
  tick : Option Nat := none
  timeout : Option Nat := none
  once : Bool := false
  instant : Option Instant := none
  noWatch : Bool := false
  deriving DecidableEq, Repr

/-- Why the arguments do not make a worker run. -/
inductive ArgumentStop
  | help | version | refused
  deriving DecidableEq, Repr

/-- An argument that is not understood is an error of use. -/
def ArgumentStop.exitCode : ArgumentStop → Nat
  | .help | .version => 0
  | .refused => 2

/-- The options that take a value. -/
inductive ArgumentKey
  | profile | rulesDir | dataDir | tick | timeout | instant
  deriving DecidableEq, Repr

namespace ArgumentKey

def all : List ArgumentKey := [.profile, .rulesDir, .dataDir, .tick, .timeout, .instant]

def name : ArgumentKey → String
  | .profile => "profile"
  | .rulesDir => "rules-dir"
  | .dataDir => "data-dir"
  | .tick => "tick"
  | .timeout => "timeout"
  | .instant => "at"

def ofName? (s : String) : Option ArgumentKey := all.find? fun k => k.name = s

end ArgumentKey

namespace Arguments

/-- `2006-05-20 06:00:00`, the same with a `T`, or `2006-05-20 06:00`. -/
def instant? (s : String) : Option Instant :=
  [Instant.stampLayout, Instant.stampLayoutT, Instant.minuteLayout].findSome?
    (Instant.readAs? · s)

def once? {α : Type} (old : Option α) (value : Option α) : Option (Option α) :=
  if old.isSome then none else value.map some

def folderName? (s : String) : Option String := if s = "" then none else some s

/-- Gives an option its value, unless it has one or the value is none that it can have. -/
def set? (a : Arguments) (key : ArgumentKey) (value : String) : Option Arguments :=
  match key with
  | .profile => (once? a.profile (some value)).map fun profile => { a with profile }
  | .rulesDir => (once? a.rulesDir (folderName? value)).map fun rulesDir => { a with rulesDir }
  | .dataDir => (once? a.dataDir (folderName? value)).map fun dataDir => { a with dataDir }
  | .tick => (once? a.tick (Config.number? value)).map fun tick => { a with tick }
  | .timeout => (once? a.timeout (Config.number? value)).map fun timeout => { a with timeout }
  | .instant => (once? a.instant (instant? value)).map fun instant => { a with instant }

def raise? (a : Arguments) (name : String) : Option Arguments :=
  if name = "once" ∧ !a.once then some { a with once := true }
  else if name = "no-watch" ∧ !a.noWatch then some { a with noWatch := true }
  else none

def orRefuse {α : Type} : Option α → Except ArgumentStop α
  | some x => .ok x
  | none => .error .refused

def splitEquals (cs : List Char) : String × Option String :=
  match splitAt? '=' cs with
  | some (name, value) => (String.ofList name, some (String.ofList value))
  | none => (String.ofList cs, none)

/-- What an argument that begins with two dashes asks for: the arguments, and the option that waits
for its value. -/
def long (a : Arguments) (cs : List Char) : Except ArgumentStop (Arguments × Option ArgumentKey) :=
  match splitEquals cs with
  | ("help", none) => .error .help
  | ("version", none) => .error .version
  | (name, value) =>
    match ArgumentKey.ofName? name, value with
    | some key, some value => (orRefuse (a.set? key value)).map fun a => (a, none)
    | some key, none => .ok (a, some key)
    | none, some _ => .error .refused
    | none, none => (orRefuse (a.raise? name)).map fun a => (a, none)

/-- Reads the arguments on. An option that waits takes the next argument, which must not look like
an option; nothing else may stand alone, and nothing may follow two dashes alone. -/
def read (a : Arguments) (waiting : Option ArgumentKey) :
    List String → Except ArgumentStop Arguments
  | [] => if waiting.isSome then .error .refused else .ok a
  | arg :: args =>
    match arg.toList, waiting with
    | ['-', '-'], none => if args = [] then .ok a else .error .refused
    | '-' :: _ :: _, some _ => .error .refused
    | _, some key =>
      match a.set? key arg with
      | some a => read a none args
      | none => .error .refused
    | '-' :: '-' :: cs, none =>
      match a.long cs with
      | .ok (a, waiting) => read a waiting args
      | .error stop => .error stop
    | '-' :: 'h' :: _, none => .error .help
    | '-' :: 'V' :: _, none => .error .version
    | _, none => .error .refused

def parse (args : List String) : Except ArgumentStop Arguments := read {} none args

/-- The configuration of the environment as the arguments change it. A given tick is at least one
second, and a single run watches nothing. -/
def config (a : Arguments) (env : Environment) : Config :=
  let c := match a.profile with
    | some profile => Config.ofProfile env profile
    | none => .ofEnvironment env
  { c with
    rulesDir := a.rulesDir.getD c.rulesDir
    dataDir := a.dataDir.getD c.dataDir
    tickSeconds := (a.tick.map (max 1)).getD c.tickSeconds
    timeoutSeconds := a.timeout.getD c.timeoutSeconds
    watch := c.watch && !a.noWatch && !a.once }

end Arguments
end SeriesAlarm
