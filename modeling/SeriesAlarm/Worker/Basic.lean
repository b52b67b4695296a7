import SeriesAlarm.Calendar.Span
import SeriesAlarm.Catalog.Watch
import SeriesAlarm.Engine.Report
import SeriesAlarm.Text.EnvironmentFile
import SeriesAlarm.Width
import SeriesAlarm.Worker.Arguments

/-!
# The worker

A worker loads the documents of a folder, builds an engine from them and drives it by a clock: once,
or again and again until it is interrupted. It is a value that takes one turn after the other, each
with the folder and the time as they are then.
-/

namespace SeriesAlarm

/-- What a worker finds around it: the folder it works in, its variables, and the time. -/
structure Surroundings where
  files : FileNode := .empty
  env : Environment := []
  now : Instant

namespace Surroundings

/-- The variables, with those of the file `.env` that are not set. -/
def environment (s : Surroundings) : Environment :=
  ((s.files.text? [".env"]).map (EnvironmentFile.load s.env)).getD s.env

end Surroundings

namespace FileNode

/-- Goes on from a path, `..` being one step up; nothing above the top. -/
def resolveFrom : FilePath → FilePath → Option FilePath
  | path, [] => some path
  | path, ".." :: names => if path = [] then none else resolveFrom path.dropLast names
  | path, name :: names => resolveFrom (path ++ [name]) names

/-- The place that a written path denotes in a tree; none outside of it. -/
def locate? (path : String) : Option FilePath :=
  if path.toList.head? = some '/' then none else resolveFrom [] (splitPath path)

end FileNode

/-- Why a worker comes to an end by itself. -/
inductive WorkerEnd
  | stopped (cause : ArgumentStop)
  | finished
  | notWatchable
  | crashed
  deriving DecidableEq, Repr

def WorkerEnd.exitCode : WorkerEnd → Nat
  | .stopped cause => cause.exitCode
  | .finished => 0
  | .notWatchable => 1
  | .crashed => 101

structure Worker where
  config : Config
  env : Environment
  rules : RuleFolder
  engine : Engine
  /-- The generation of the documents that the engine was built from. -/
  seen : Nat

/-- What came of one turn. -/
structure Turn where
  worker : Worker
  report : TickReport
  /-- What the commands of actions wrote to files. -/
  written : List (String × String) := []

namespace Worker

/-- The folder of documents; one outside the tree is as good as empty. -/
def rulesIn (config : Config) (files : FileNode) : RuleFolder :=
  match FileNode.locate? config.rulesDir with
  | some path => .ofTree files path
  | none => {}

def source (config : Config) (files : FileNode) : Source :=
  .ofFolder ((FileNode.locate? config.dataDir).bind files.find?)

def start (config : Config) (env : Environment) (files : FileNode) : Except WorkerEnd Worker :=
  let loaded := ((rulesIn config files).load).1
  match if config.watch then loaded.watch? else some loaded with
  | none => .error .notWatchable
  | some rules =>
    .ok {
      config, env, rules
      engine :=
        .ofRuleSet (.ofDocuments env rules.catalog.documents) (source config files)
      seen := rules.catalog.generation }

/-- Whether the period between ticks is longer than the finest interval of the tests, so that runs come
late; without tests there is none. Nothing if the period makes no span. -/
def isLate? (tickSeconds : Nat) (finest : Option Interval) : Option Bool :=
  match finest with
  | none => some false
  | some i => do
    let period ← Span.ofSeconds? (min tickSeconds (wordSize 63 - 1))
    let length ← i.span?
    return length < period

/-- A ticker has no period of zero. -/
def ticker? (tickSeconds : Nat) : Option Nat := if tickSeconds = 0 then none else some tickSeconds

/-- The period between ticks can be compared with the intervals of the tests, and kept. -/
def canRepeat (w : Worker) : Bool :=
  (isLate? w.config.tickSeconds w.engine.finestInterval).isSome &&
    (ticker? w.config.tickSeconds).isSome

/-- Runs what is due. Commands run; requests are not made. -/
def tick (w : Worker) (files : FileNode) (now : Instant) : Except Fault Turn := do
  let run (attempts : Attempts) :=
    w.engine.tick (source w.config files) (fun _ => false) attempts now
  let done ← run fun a n => (a.channel.deliverOffline w.env n).toOption.isSome
  let attempted ← run fun _ _ => true
  return {
    worker := { w with engine := done.engine }
    report := done.report
    written := attempted.sent.reverse.flatMap fun p => p.1.channel.written w.env p.2 }

def refresh (w : Worker) (files : FileNode) : Worker :=
  let rules := w.rules.replace (rulesIn w.config files).folder
  if rules.catalog.generation = w.seen then { w with rules }
  else
    { w with
      rules
      engine :=
        w.engine.reload (.ofDocuments w.env rules.catalog.documents) (source w.config files)
      seen := rules.catalog.generation }

def orCrash {α : Type} : Except Fault α → Except WorkerEnd α
  | .ok a => .ok a
  | .error _ => .error .crashed

/-- One turn of the loop. The tests of new documents are compared with the period again. -/
def turn (w : Worker) (s : Surroundings) : Except WorkerEnd Turn :=
  let next := w.refresh s.files
  if next.seen = w.seen || next.canRepeat then orCrash (next.tick s.files s.now)
  else .error .crashed

/-- A worker under way: it ran once, or it takes turns until it is interrupted. -/
inductive Launched
  | once (t : Turn)
  | looping (w : Worker)

def launch (args : List String) (s : Surroundings) : Except WorkerEnd Launched := do
  let arguments ← (Arguments.parse args).mapError .stopped
  let env := s.environment
  let w ← start (arguments.config env) env s.files
  if arguments.once then
    let t ← orCrash (w.tick s.files (arguments.instant.getD s.now))
    return .once t
  else if w.canRepeat then return .looping w
  else throw .crashed

end Worker
end SeriesAlarm
