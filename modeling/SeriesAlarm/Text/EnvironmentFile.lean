import SeriesAlarm.Text.Blank
import SeriesAlarm.Text.Environment

/-!
# Files of variables

A file with a line `NAME=value` for each variable. A value may be quoted and then run over several
lines, and may refer to variables as `$NAME` or `${NAME}`. Reading stops at the first defect; what
was read before it counts. Variables that are set already are kept.
-/

namespace SeriesAlarm
namespace EnvironmentFile

open Text

/-- Where a line ends: within quotes or after a backslash it goes on. -/
inductive LineState
  | complete | escaped
  | single | singleEscaped
  | double | doubleEscaped
  | blank | comment
  deriving DecidableEq, Repr

namespace LineState

def outside (c : Char) : LineState :=
  if c = '\\' then .escaped
  else if c = '"' then .double
  else if c = '\'' then .single
  else .complete

/-- A number sign begins a comment after white space only. -/
def next (s : LineState) (c : Char) : LineState :=
  match s with
  | .blank => if c = '#' then .comment else outside c
  | .complete => if isBlank c ∧ c ≠ '\n' ∧ c ≠ '\r' then .blank else outside c
  | .escaped => .complete
  | .double => if c = '\\' then .doubleEscaped else if c = '"' then .complete else .double
  | .doubleEscaped => .double
  | .single => if c = '\\' then .singleEscaped else if c = '\'' then .complete else .single
  | .singleEscaped => .single
  | .comment => .comment

def scan : LineState → List Char → LineState × List Char
  | s, [] => (s, [])
  | s, c :: cs =>
    if s.next c = .comment then (.comment, [])
    else
      let (t, kept) := scan (s.next c) cs
      (t, c :: kept)

end LineState

def splitAfterBreaks : List Char → List (List Char)
  | [] => [[]]
  | c :: cs =>
    if c = '\n' then [c] :: splitAfterBreaks cs
    else
      match splitAfterBreaks cs with
      | [] => [[c]]
      | l :: ls => (c :: l) :: ls

def linesOf (cs : List Char) : List (List Char) := (splitAfterBreaks cs).filter (· ≠ [])

def dropBreak (cs : List Char) : List Char :=
  match cs.reverse with
  | '\n' :: '\r' :: r => r.reverse
  | '\n' :: r => r.reverse
  | _ => cs

/-- Joins the lines that go on; the last is nothing if the text ends within one. -/
def joined (s : LineState) (pending : List Char) : List (List Char) → List (Option (List Char))
  | [] => if s = .complete then [] else [none]
  | l :: ls =>
    let text := pending ++ l
    if (trimStart text).head? = some '#' then some [] :: joined .complete [] ls
    else
      match s.scan l with
      | (.complete, _) => some (dropBreak text) :: joined .complete [] ls
      | (.comment, kept) => some (pending ++ kept) :: joined .complete [] ls
      | (t, _) => joined t text ls

/-- How a reference to a variable is being read. -/
inductive Reference
  | absent | bare | braced
  deriving DecidableEq, Repr

/-- A reader of values. -/
structure ValueReader where
  value : List Char := []
  single : Bool := false
  double : Bool := false
  escaped : Bool := false
  ending : Bool := false
  reference : Reference := .absent
  name : List Char := []

namespace ValueReader

def add (r : ValueReader) (c : Char) : ValueReader := { r with value := r.value ++ [c] }

def refer (env : Environment) (r : ValueReader) : ValueReader :=
  { r with
    value := r.value ++ ((env.get? (String.ofList r.name)).getD "").toList
    name := []
    reference := .absent }

/-- Letters and digits continue a name, and every character that is not ASCII does. -/
def isNameChar (c : Char) : Bool := c.isAlphanum || 128 ≤ c.toNat

def referenceStep (env : Environment) (r : ValueReader) (c : Char) : ValueReader :=
  if isNameChar c then { r with name := r.name ++ [c] }
  else if r.reference = .braced then
    if c = '\x7d' then r.refer env else { r with name := r.name ++ [c] }
  else if c = '\x7b' ∧ r.name = [] then { r with reference := .braced }
  else if c = '$' then { r.refer env with reference := .bare }
  else (r.refer env).add c

def plainStep (r : ValueReader) (c : Char) : ValueReader :=
  if c = '$' then { r with reference := .bare }
  else if r.double then
    if c = '"' then { r with double := false }
    else if c = '\\' then { r with escaped := true }
    else r.add c
  else if c = '\'' then { r with single := true }
  else if c = '"' then { r with double := true }
  else if c = '\\' then { r with escaped := true }
  else if c = ' ' ∨ c = '\t' then { r with ending := true }
  else r.add c

def escapeStep? (r : ValueReader) (c : Char) : Option ValueReader :=
  if ['\\', '\'', '"', '$', ' '].contains c then some ({ r with escaped := false }.add c)
  else if c = 'n' then some ({ r with escaped := false }.add '\n')
  else none

def finish? (env : Environment) (r : ValueReader) : Option (List Char) :=
  if r.reference = .braced ∨ r.single ∨ r.double then none else some (r.refer env).value

/-- Reads a value. After its first blank outside quotes only a comment may follow. -/
def read? (env : Environment) (r : ValueReader) : List Char → Option (List Char)
  | [] => r.finish? env
  | c :: cs =>
    if r.ending then
      if c = ' ' ∨ c = '\t' then read? env r cs
      else if c = '#' then r.finish? env
      else none
    else if r.escaped then
      match r.escapeStep? c with
      | some r => read? env r cs
      | none => none
    else if r.single then
      read? env (if c = '\'' then { r with single := false } else r.add c) cs
    else if r.reference ≠ .absent then read? env (r.referenceStep env c) cs
    else read? env (r.plainStep c) cs

end ValueReader

def isKeyStart (c : Char) : Bool := c.isAlpha || c == '_'

def isKeyChar (c : Char) : Bool := c.isAlphanum || c == '_' || c == '.'

/-- A name at the front, and what follows it after white space. -/
def key? (cs : List Char) : Option (List Char × List Char) :=
  if (cs.head?.map isKeyStart).getD false then
    some (cs.takeWhile isKeyChar, trimStart (cs.dropWhile isKeyChar))
  else none

def afterEquals? : List Char → Option (List Char)
  | '=' :: cs => some (trimStart cs)
  | _ => none

/-- The name and the text of the value; the word `export` may stand in front. -/
def assignment? (cs : List Char) : Option (List Char × List Char) := do
  let (name, rest) ← key? cs
  match afterEquals? rest with
  | some value => return (name, value)
  | none =>
    if name = "export".toList then
      let (name, rest) ← key? rest
      return (name, ← afterEquals? rest)
    else none

def isVoid (cs : List Char) : Bool := cs.isEmpty || cs.head? == some '#'

/-- The environment with the variable of a line, unless it is set; nothing for a defective line. -/
def readLine? (env : Environment) (line : List Char) : Option Environment := do
  let line := trimChars line
  if isVoid line then return env
  let (name, text) ← assignment? line
  let value ← if isVoid text then some [] else ValueReader.read? env {} text
  let name := String.ofList name
  return if (env.get? name).isSome then env else env.set name (String.ofList value)

def readLines (env : Environment) : List (Option (List Char)) → Environment
  | some line :: lines =>
    match readLine? env line with
    | some env => readLines env lines
    | none => env
  | _ => env

def withoutMark : List Char → List Char
  | c :: cs => if c.toNat = 0xFEFF then cs else c :: cs
  | [] => []

def load (env : Environment) (text : String) : Environment :=
  readLines env (joined .complete [] (linesOf (withoutMark text.toList)))

end EnvironmentFile
end SeriesAlarm
