import SeriesAlarm.Text.Blank
import SeriesAlarm.Text.Digits
import SeriesAlarm.Text.Environment

/-!
# Commands

A model of the programs that notifications are handed to: a few plain commands, and command lines
that join them. A run has a standard input, an environment and files, and takes some time.
-/

namespace SeriesAlarm

open Text

namespace Shell

/-- How a program ended. -/
inductive Ending
  | status (code : Nat)
  | signal (number : Nat)
  deriving DecidableEq, Repr

namespace Ending

def signalNames : List (Nat × String) :=
  [(1, "SIGHUP"), (2, "SIGINT"), (3, "SIGQUIT"), (6, "SIGABRT"), (9, "SIGKILL"), (10, "SIGUSR1"),
    (12, "SIGUSR2"), (13, "SIGPIPE"), (14, "SIGALRM"), (15, "SIGTERM")]

def message : Ending → String
  | .status code => "exit status: " ++ Nat.repr code
  | .signal n =>
    "signal: " ++ Nat.repr n ++ ((signalNames.lookup n).map fun name => " (" ++ name ++ ")").getD ""

def succeeded (e : Ending) : Bool := e == .status 0

end Ending

/-- Where a command line stands: what it wrote, whether it read its input, the time it took, and
how its latest command ended. -/
structure Run where
  env : Environment
  input : String
  files : List (String × String) := []
  /-- What the latest command handed to the next one. -/
  passed : String := ""
  errors : String := ""
  inputRead : Bool := false
  millis : Nat := 0
  ending : Ending := .status 0
  stopped : Bool := false

inductive Token
  | word (s : String)
  | mark (c : Char)
  deriving DecidableEq, Repr

/-- The quotes around the character that is read. -/
inductive Quoting
  | bare | single | double
  deriving DecidableEq, Repr

/-- A reader of words: finished tokens, the word and the variable name that are being read. -/
structure Words where
  tokens : List Token := []
  word : Option String := none
  quoting : Quoting := .bare
  reference : Option String := none
  braced : Bool := false
  escaped : Bool := false

namespace Words

def ownNumber : String := "$$"

def add (w : Words) (s : String) : Words := { w with word := some (w.word.getD "" ++ s) }

def endVariable (env : Environment) (w : Words) : Words :=
  match w.reference with
  | some "" => { w.add "$" with reference := none, braced := false }
  | some name => { w.add ((env.get? name).getD "") with reference := none, braced := false }
  | none => w

def endWord (w : Words) : Words :=
  match w.word with
  | some s => { w with tokens := w.tokens ++ [.word s], word := none }
  | none => w

def isMark (c : Char) : Bool := c == ';' || c == '&' || c == '|' || c == '>' || c == '<' || c == '\n'

/-- Reads a character that does not continue a variable name. -/
def plainStep (w : Words) (c : Char) : Words :=
  if w.escaped then { w.add (String.ofList [c]) with escaped := false }
  else
    match w.quoting with
    | .single => if c == '\'' then { w with quoting := .bare } else w.add (String.ofList [c])
    | .double =>
      if c == '"' then { w with quoting := .bare }
      else if c == '$' then { w with reference := some "" }
      else if c == '\\' then { w with escaped := true }
      else w.add (String.ofList [c])
    | .bare =>
      if c == '\'' then { w.add "" with quoting := .single }
      else if c == '"' then { w.add "" with quoting := .double }
      else if c == '$' then { w with reference := some "" }
      else if c == '\\' then { w with escaped := true }
      else if isMark c then { w.endWord with tokens := w.endWord.tokens ++ [.mark c] }
      else if c == ' ' || c == '\t' then w.endWord
      else w.add (String.ofList [c])

def step (env : Environment) (w : Words) (c : Char) : Words :=
  match w.reference with
  | some name =>
    if w.braced then
      if c == '\x7d' then w.endVariable env else { w with reference := some (name.push c) }
    else if name == "" && c == '\x7b' then { w with braced := true }
    else if name == "" && c == '$' then { w.add ownNumber with reference := none }
    else if name == "" && c.isDigit then { w with reference := some (name.push c) }.endVariable env
    else if c.isAlphanum || c == '_' then { w with reference := some (name.push c) }
    else (w.endVariable env).plainStep c
  | none => w.plainStep c

end Words

def tokens (env : Environment) (line : String) : List Token :=
  (((line.toList.foldl (Words.step env) {}).endVariable env).endWord).tokens

/-- Whether a command runs after the one before it, and whether it reads what that one wrote. -/
inductive Joint
  | always | onSuccess | onFailure | piped
  deriving DecidableEq, Repr

/-- Where the output of a command goes. -/
inductive Sink
  | nowhere
  | errors
  | next
  | file (name : String) (append : Bool)
  deriving DecidableEq, Repr

structure Command where
  joint : Joint := .always
  words : List String := []
  sink : Sink := .nowhere
  deriving Repr

def commands : Command → List Token → List Command
  | c, [] => [c]
  | c, .mark '&' :: .mark '&' :: ts => c :: commands { joint := .onSuccess } ts
  | c, .mark '|' :: .mark '|' :: ts => c :: commands { joint := .onFailure } ts
  | c, .mark '|' :: ts =>
    (if c.sink = .nowhere then { c with sink := .next } else c) :: commands { joint := .piped } ts
  | c, .mark '>' :: .mark '&' :: .word "2" :: ts => commands { c with sink := .errors } ts
  | c, .mark '>' :: .mark '>' :: .word f :: ts => commands { c with sink := .file f true } ts
  | c, .mark '>' :: .word f :: ts => commands { c with sink := .file f false } ts
  | c, .mark _ :: ts => c :: commands {} ts
  | c, .word w :: ts => commands { c with words := c.words ++ [w] } ts

def formatted : List String → List Char → List Char
  | _, [] => []
  | args, '%' :: 's' :: cs => (args.headD "").toList ++ formatted args.tail cs
  | args, '%' :: '%' :: cs => '%' :: formatted args cs
  | args, '\\' :: 'n' :: cs => '\n' :: formatted args cs
  | args, '\\' :: 't' :: cs => '\t' :: formatted args cs
  | args, c :: cs => c :: formatted args cs

namespace Run

def textOf (r : Run) (file : String) : Option String := r.files.lookup file

def setFile (r : Run) (file text : String) : Run :=
  { r with files := (file, text) :: r.files.filter fun f => f.1 ≠ file }

def write (r : Run) (text : String) : Sink → Run
  | .nowhere => r
  | .errors => { r with errors := r.errors ++ text }
  | .next => { r with passed := r.passed ++ text }
  | .file name append =>
    if name = "/dev/null" then r
    else r.setFile name ((if append then (r.textOf name).getD "" else "") ++ text)

def ended (r : Run) (code : Nat) : Run := { r with ending := .status code }

def complain (r : Run) (text : String) (code : Nat) : Run :=
  { r with errors := r.errors ++ text }.ended code

def signalNumber (option : String) : Nat :=
  match option.toList with
  | '-' :: cs =>
    match digits? cs with
    | some n => n
    | none =>
      let name := String.ofList cs
      ((Ending.signalNames.find? fun s => s.2 == name || s.2 == "SIG" ++ name).map (·.1)).getD 15
  | _ => 15

def milliseconds (time : String) : Nat :=
  match splitAt? '.' time.toList with
  | some (whole, fraction) =>
    1000 * digitsValue whole + digitsValue (fraction.take 3) * Nat.pow 10 (3 - fraction.length)
  | none => 1000 * (digits? time.toList).getD 0

def firstBytes (count : Nat) (text : String) : String :=
  ((text.toUTF8.toList.take count).toByteArray |> String.fromUTF8?).getD text

/-- Whether a test of texts or files holds; nothing for a test that is not known. -/
def holds? (r : Run) : List String → Option Bool
  | ["-n", a] => some (a ≠ "")
  | ["-z", a] => some (a = "")
  | ["-e", f] | ["-f", f] => some (r.textOf f).isSome
  | ["-s", f] => some ((r.textOf f).any (· ≠ ""))
  | [a, "=", b] => some (a = b)
  | [a, "!=", b] => some (a ≠ b)
  | [a] => some (a ≠ "")
  | [] => some false
  | _ => none

def testing (r : Run) (arguments : List String) : Run :=
  match r.holds? arguments with
  | some b => r.ended (if b then 0 else 1)
  | none => r.ended 2

def command? (r : Run) (words : List String) (sink : Sink) : Option Run :=
  let reading := { r with inputRead := true }
  match words with
  | [] => some (r.write "" sink)
  | ["cat"] | ["cat", "-"] => some ((reading.write r.input sink).ended 0)
  | ["tee", file] => some (((reading.setFile file r.input).write r.input sink).ended 0)
  | ["wc", "-c"] => some ((reading.write (Nat.repr r.input.utf8ByteSize ++ "\n") sink).ended 0)
  | ["head", "-c", count] =>
    some ((reading.write (firstBytes ((digits? count.toList).getD 0) r.input) sink).ended 0)
  | ["grep", "-q", part] =>
    some (reading.ended (if (splitOnText part.toList r.input.toList).isSome then 0 else 1))
  | "test" :: arguments => some (r.testing arguments)
  | "[" :: arguments =>
    some (if arguments.getLast? = some "]" then r.testing arguments.dropLast else r.ended 2)
  | ["printenv", name] =>
    some (match r.env.get? name with
      | some value => (r.write (value ++ "\n") sink).ended 0
      | none => r.ended 1)
  | ["cat", file] =>
    some (match r.textOf file with
      | some text => (r.write text sink).ended 0
      | none => r.complain ("cat: " ++ file ++ ": No such file or directory\n") 1)
  | "echo" :: "-n" :: args => some ((r.write (" ".intercalate args) sink).ended 0)
  | "echo" :: args => some ((r.write (" ".intercalate args ++ "\n") sink).ended 0)
  | "printf" :: format :: args =>
    some ((r.write (String.ofList (formatted args format.toList)) sink).ended 0)
  | "true" :: _ | ":" :: _ => some ((r.write "" sink).ended 0)
  | "false" :: _ => some ((r.write "" sink).ended 1)
  | ["sleep", time] =>
    some { r with millis := r.millis + milliseconds time, ending := .status 0 }
  | ["mv", old, new] =>
    some (match r.textOf old with
      | some text => ({ r with files := r.files.filter fun f => f.1 ≠ old }.setFile new text).ended 0
      | none => r.complain ("mv: cannot stat '" ++ old ++ "': No such file or directory\n") 1)
  | _ => none

def kill (r : Run) (signal : Nat) (target : String) : Run :=
  if target = Words.ownNumber then { r with stopped := true, ending := .signal signal }
  else r.ended 1

def lineCommand (r : Run) (c : Command) : Run :=
  match c.words with
  | ["exit"] => { r with stopped := true }
  | "exit" :: code :: _ =>
    { r with stopped := true, ending := .status ((digits? code.toList).getD 2 % 256) }
  | ["kill", "-s", name, target] => r.kill (signalNumber ("-" ++ name)) target
  | ["kill", option, target] => r.kill (signalNumber option) target
  | ["kill", target] => r.kill 15 target
  | "exec" :: words =>
    match r.command? words c.sink with
    | some r => { r with stopped := true }
    | none =>
      { r.complain ("sh: 1: exec: " ++ words.headD "" ++ ": not found\n") 127 with stopped := true }
  | words =>
    match r.command? words c.sink with
    | some r => r
    | none => r.complain ("sh: 1: " ++ words.headD "" ++ ": not found\n") 127

def runsNext (r : Run) : Joint → Bool
  | .always | .piped => true
  | .onSuccess => r.ending.succeeded
  | .onFailure => !r.ending.succeeded

def pipedCommand (r : Run) (c : Command) : Run :=
  let after := { r with input := r.passed, passed := "" }.lineCommand c
  { after with input := r.input, inputRead := r.inputRead }

def step (r : Run) (c : Command) : Run :=
  if r.stopped || !r.runsNext c.joint then r
  else if c.joint = .piped then r.pipedCommand c
  else { r with passed := "" }.lineCommand c

def line (r : Run) (text : String) : Run := (commands {} (tokens r.env text)).foldl step r

def parameters (args : List String) : Environment :=
  args.zipIdx.map fun (arg, i) => (Nat.repr i, arg)

def programs : List String :=
  ["cat", "echo", "printf", "true", "false", "sleep", "mv", "tee", "wc", "head", "grep", "test",
    "printenv"]

def program? (r : Run) (name : String) (args : List String) : Option Run :=
  let base := ["/bin/", "/usr/bin/"].findSome? fun dir =>
    (dropLeading? dir.toList name.toList).map String.ofList
  let base := base.getD name
  if base = "sh" then
    match args with
    | "-c" :: text :: rest =>
      let own := parameters (if rest = [] then [name] else rest)
      some ({ r with env := own ++ r.env }.line text)
    | _ => some { r with inputRead := true }
  else if programs.contains base then
    some ((r.command? (base :: args) .nowhere).getD (r.ended 1))
  else none

end Run
end Shell
end SeriesAlarm
