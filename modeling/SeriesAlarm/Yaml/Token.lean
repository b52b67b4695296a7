import SeriesAlarm.Json.Reader
import SeriesAlarm.Yaml.Cursor

/-!
# YAML tokens

The tokens of a YAML text and how those with a text of their own are read: anchors, tags, and the
scalars with their rules for folding lines.
-/

namespace SeriesAlarm
namespace Yaml

inductive ScalarStyle
  | plain | single | double | literal | folded
  deriving DecidableEq, Repr, Inhabited

inductive Token
  | version (major minor : Nat)
  | handle (handle start : String)
  | documentStart
  | documentEnd
  | streamEnd
  | sequenceStart
  | mappingStart
  | blockEnd
  | openBracket
  | closeBracket
  | openBrace
  | closeBrace
  | entry
  | comma
  | key
  | value
  | alias (name : String)
  | anchor (name : String)
  | tag (handle suffix : String)
  | scalar (text : String) (style : ScalarStyle)
  deriving DecidableEq, Repr, Inhabited

/-- White space between the parts of a scalar: blanks on one line, or a first line break and the
breaks after it. -/
structure Gap where
  blanks : List Char := []
  first : List Char := []
  more : List Char := []
  broken : Bool := false

namespace Gap

/-- A single line break becomes a space; of several the first is dropped. -/
def folded (g : Gap) : List Char :=
  if !g.broken then g.blanks
  else if g.first = ['\n'] then (if g.more = [] then [' '] else g.more)
  else g.first ++ g.more

/-- Reads white space. A tab that stands in for indentation is refused. -/
def read? (tabColumn : Int) : Nat → Cursor → Gap → Option (Gap × Cursor)
  | 0, c, g => some (g, c)
  | fuel + 1, c, g =>
    match c.head? with
    | none => some (g, c)
    | some ch =>
      if isSpaceOrTab ch then
        if g.broken && ch == '\t' && (c.column : Int) < tabColumn then none
        else read? tabColumn fuel c.skip (if g.broken then g else { g with blanks := g.blanks ++ [ch] })
      else if isBreak ch then
        read? tabColumn fuel c.skipBreak
          (if g.broken then { g with more := g.more ++ c.breakText }
          else { g with blanks := [], first := c.breakText, broken := true })
      else some (g, c)

end Gap

namespace Token

def name? (c : Cursor) : Option (String × Cursor) :=
  let (name, c) := c.skip.takeWhile isWordChar
  let isEnd := endsWord c.head? || c.head?.any fun ch => "?:,]\x7d%@`".toList.contains ch
  if !name.isEmpty && isEnd then some (String.ofList name, c) else none

def isUriChar (inBrackets : Bool) (c : Char) : Bool :=
  isWordChar c || ";/?:@&=+$.!~*'()%".toList.contains c || (inBrackets && ",[]".toList.contains c)

/-- Replaces `%` and two hexadecimal digits by the byte they name. -/
def decodeUri? : List Char → Option (List UInt8)
  | [] => some []
  | '%' :: a :: b :: cs => do
    let a ← Json.hexValue? a
    let b ← Json.hexValue? b
    return UInt8.ofNat (16 * a + b) :: (← decodeUri? cs)
  | '%' :: _ => none
  | c :: cs => do return (String.ofList [c]).toUTF8.toList ++ (← decodeUri? cs)

def uriText? (cs : List Char) : Option String :=
  (decodeUri? cs).bind fun bytes => String.fromUTF8? bytes.toByteArray

def tag? (flow : Bool) (c : Cursor) : Option (Token × Cursor) := do
  let (token, c) ←
    if c.peek 1 == some '<' then
      let (uri, c) := c.skip.skip.takeWhile (isUriChar true)
      if uri ≠ [] ∧ c.isAt '>' then (uriText? uri).map fun u => (Token.tag "" u, c.skip) else none
    else
      let (word, c') := c.skip.takeWhile isWordChar
      if c'.isAt '!' then
        let (uri, c'') := c'.skip.takeWhile (isUriChar false)
        if uri = [] then none
        else (uriText? uri).map fun u => (Token.tag ("!" ++ String.ofList word ++ "!") u, c'')
      else
        let (uri, c'') := c'.takeWhile (isUriChar false)
        (uriText? uri).map fun u =>
          let suffix := String.ofList word ++ u
          (if suffix = "" then Token.tag "" "!" else Token.tag "!" suffix, c'')
  if endsWord c.head? || (flow && c.isAt ',') then some (token, c) else none

def endsPlain (flow : Bool) (c : Cursor) : Bool :=
  (c.isAt ':' && endsWord (c.peek 1)) ||
    (flow && (c.head?.any fun ch => ",[]\x7b\x7d".toList.contains ch))

/-- A colon in a flow collection that neither ends a scalar nor can stand in it. -/
def isStrayColon (flow : Bool) (c : Cursor) : Bool :=
  flow && c.isAt ':' && ((c.peek 1).any fun ch => ",?[]\x7b\x7d".toList.contains ch)

/-- The characters of a plain scalar up to white space or its end. -/
def plainRun? (flow : Bool) : Nat → Cursor → Option (List Char × Cursor)
  | 0, c => some ([], c)
  | fuel + 1, c =>
    match c.head? with
    | none => some ([], c)
    | some ch =>
      if endsWord (some ch) then some ([], c)
      else if isStrayColon flow c then none
      else if endsPlain flow c then some ([], c)
      else (plainRun? flow fuel c.skip).map fun (cs, c) => (ch :: cs, c)

/-- A plain scalar, read from the gap before its next part on; the flag tells whether it ends after
a line break. -/
def plain? (flow : Bool) (indent : Int) : Nat → Cursor → Gap → Option (List Char × Bool × Cursor)
  | 0, c, g => some ([], g.broken, c)
  | fuel + 1, c, g =>
    if c.isAtDocumentMarker || c.isAt '#' then some ([], g.broken, c)
    else do
      let (run, c') ← plainRun? flow (c.rest.length + 1) c
      let (broken, text) := if run = [] then (g.broken, []) else (false, g.folded ++ run)
      if !(c'.head?.isSome && endsWord c'.head?) then return (text, broken, c')
      let (gap, c'') ← Gap.read? indent (c'.rest.length + 1) c' (if run = [] then g else {})
      if !flow && (c''.column : Int) < indent then return (text, gap.broken, c'')
      let (more, broken, c) ← plain? flow indent fuel c'' gap
      return (text ++ more, broken, c)

def hexDigits? (c : Cursor) (n : Nat) : Option Nat :=
  let digits := c.rest.take n
  if digits.length = n then
    (digits.mapM Json.hexValue?).map fun ds => ds.foldl (fun v d => 16 * v + d) 0
  else none

/-- The character that an escape stands for and how many characters follow the backslash. -/
def escape? (c : Cursor) : Option (Char × Nat) :=
  let coded (n : Nat) : Option (Char × Nat) :=
    (hexDigits? c.skip n).bind fun v =>
      if v < 0xD800 ∨ (0xE000 ≤ v ∧ v ≤ 0x10FFFF) then some (Char.ofNat v, n + 1) else none
  match c.head? with
  | some '0' => some (Char.ofNat 0, 1)
  | some 'a' => some (Char.ofNat 7, 1)
  | some 'b' => some (Char.ofNat 8, 1)
  | some 't' | some '\t' => some ('\t', 1)
  | some 'n' => some ('\n', 1)
  | some 'v' => some (Char.ofNat 11, 1)
  | some 'f' => some (Char.ofNat 12, 1)
  | some 'r' => some ('\r', 1)
  | some 'e' => some (Char.ofNat 27, 1)
  | some ' ' => some (' ', 1)
  | some '"' => some ('"', 1)
  | some '/' => some ('/', 1)
  | some '\\' => some ('\\', 1)
  | some 'N' => some (Char.ofNat 0x85, 1)
  | some '_' => some (Char.ofNat 0xA0, 1)
  | some 'L' => some (Char.ofNat 0x2028, 1)
  | some 'P' => some (Char.ofNat 0x2029, 1)
  | some 'x' => coded 2
  | some 'u' => coded 4
  | some 'U' => coded 8
  | _ => none

/-- The characters of a quoted scalar up to white space or the closing quote; the flag tells of an
escaped line break at their end. -/
def quotedRun? (single : Bool) : Nat → Cursor → Option (List Char × Bool × Cursor)
  | 0, c => some ([], false, c)
  | fuel + 1, c =>
    match c.head? with
    | none => some ([], false, c)
    | some ch =>
      if endsWord (some ch) then some ([], false, c)
      else if single then
        if ch == '\'' then
          if c.peek 1 == some '\'' then
            (quotedRun? single fuel (c.skips 2)).map fun (cs, b, c) => ('\'' :: cs, b, c)
          else some ([], false, c)
        else (quotedRun? single fuel c.skip).map fun (cs, b, c) => (ch :: cs, b, c)
      else if ch == '"' then some ([], false, c)
      else if ch == '\\' then
        if (c.peek 1).any isBreak then some ([], true, c.skip.skipBreak)
        else
          match escape? c.skip with
          | none => none
          | some (e, n) =>
            (quotedRun? single fuel (c.skips (n + 1))).map fun (cs, b, c) => (e :: cs, b, c)
      else (quotedRun? single fuel c.skip).map fun (cs, b, c) => (ch :: cs, b, c)

def quoted? (single : Bool) : Nat → Cursor → Option (List Char × Cursor)
  | 0, _ => none
  | fuel + 1, c =>
    if c.isAtDocumentMarker || c.rest = [] then none
    else do
      let (run, escaped, c) ← quotedRun? single (c.rest.length + 1) c
      if c.isAt (if single then '\'' else '"') then return (run, c.skip)
      let (gap, c) ← Gap.read? (-1) (c.rest.length + 1) c { broken := escaped }
      let (more, c) ← quoted? single fuel c
      return (run ++ gap.folded ++ more, c)

/-- What becomes of the line breaks at the end of a block scalar. -/
inductive Chomping
  | strip | clip | keep
  deriving DecidableEq, Repr

def chomping? (c : Cursor) : Option (Chomping × Cursor) :=
  match c.head? with
  | some '+' => some (.keep, c.skip)
  | some '-' => some (.strip, c.skip)
  | _ => none

/-- An indentation of 1 to 9; nothing inside if there is none, and nothing at all for a zero. -/
def indentDigit? (c : Cursor) : Option (Option Nat × Cursor) :=
  match c.head? with
  | some ch =>
    if ch == '0' then none
    else if '1' ≤ ch ∧ ch ≤ '9' then some (some (ch.toNat - '0'.toNat), c.skip)
    else some (none, c)
  | none => some (none, c)

/-- The two marks after the indicator of a block scalar, in either order. -/
def blockHeader? (c : Cursor) : Option (Chomping × Option Nat × Cursor) :=
  match chomping? c with
  | some (chomping, c) => (indentDigit? c).map fun (n, c) => (chomping, n, c)
  | none => do
    let (n, c) ← indentDigit? c
    match n.bind fun _ => chomping? c with
    | some (chomping, c) => return (chomping, n, c)
    | none => return (.clip, n, c)

/-- The empty lines before the next line of a block scalar, and the widest indentation among them;
an unknown indentation takes all spaces. -/
def blockBreaks? (indent : Option Nat) : Nat → Cursor → List Char → Nat →
    Option (List Char × Nat × Cursor)
  | 0, c, breaks, widest => some (breaks, widest, c)
  | fuel + 1, c, breaks, widest =>
    let within (c : Cursor) := indent.all fun n => c.column < n
    let spaces := (c.rest.takeWhile (· == ' ')).length
    let c := c.skips (match indent with
      | none => spaces
      | some n => min spaces (n - c.column))
    let widest := max widest c.column
    if within c && c.isAt '\t' then none
    else if c.head?.any isBreak then
      blockBreaks? indent fuel c.skipBreak (breaks ++ c.breakText) widest
    else some (breaks, widest, c)

/-- The lines of a block scalar: the text so far, the break after the line before, the empty lines
since, and whether that line began with a blank. -/
def blockLines? (literal : Bool) (indent : Nat) :
    Nat → Cursor → List Char → List Char → List Char → Bool →
    Option (List Char × List Char × List Char × Cursor)
  | 0, c, text, first, more, _ => some (text, first, more, c)
  | fuel + 1, c, text, first, more, wasBlank =>
    if c.column = indent ∧ c.rest ≠ [] then do
      let blank := c.head?.any isSpaceOrTab
      let joint :=
        if !literal && first = ['\n'] && !wasBlank && !blank then
          if more = [] then [' '] else more
        else first ++ more
      let (line, c) := c.takeWhile fun ch => !isBreak ch
      let first := c.breakText
      let c := c.skipBreak
      let (more, _, c) ← blockBreaks? (some indent) (c.rest.length + 1) c [] 0
      blockLines? literal indent fuel c (text ++ joint ++ line) first more blank
    else some (text, first, more, c)

def block? (literal : Bool) (parent : Int) (c : Cursor) : Option (Token × Cursor) := do
  let (chomping, increment, c) ← blockHeader? c
  let c ← c.endLine?
  let given := increment.map fun n => parent.toNat + n
  let (breaks, widest, c) ← blockBreaks? given (c.rest.length + 1) c [] 0
  let indent := given.getD (max (max widest (parent + 1).toNat) 1)
  let (text, first, more, c) ←
    blockLines? literal indent (c.rest.length + 1) c [] [] breaks false
  let ending := match chomping with
    | .strip => []
    | .clip => first
    | .keep => first ++ more
  return (.scalar (String.ofList (text ++ ending)) (if literal then .literal else .folded), c)

def number? (c : Cursor) : Option (Nat × Cursor) :=
  let (ds, c) := c.takeWhile Text.isDigit
  if ds ≠ [] ∧ ds.length ≤ 9 then some (Text.digitsValue ds, c) else none

def directive? (c : Cursor) : Option (Token × Cursor) := do
  let (name, c) := c.skip.takeWhile isWordChar
  if !endsWord c.head? then none
  let c := c.skipWhile isSpaceOrTab
  let (token, c) ← (
    match String.ofList name with
    | "YAML" => do
      let (major, c) ← number? c
      if !c.isAt '.' then none
      let (minor, c) ← number? c.skip
      return (Token.version major minor, c)
    | "TAG" => do
      if !c.isAt '!' then none
      let (word, c') := c.skip.takeWhile isWordChar
      let (named, c) ←
        if c'.isAt '!' then some ("!" ++ String.ofList word ++ "!", c'.skip)
        else if word = [] then some ("!", c')
        else none
      if !(c.head?.any isSpaceOrTab) then none
      let (uri, c) := (c.skipWhile isSpaceOrTab).takeWhile (isUriChar true)
      if uri = [] || !endsWord c.head? then none
      let start ← uriText? uri
      return (Token.handle named start, c)
    | _ => none : Option (Token × Cursor))
  let c ← c.endLine?
  return (token, c)

end Token
end Yaml
end SeriesAlarm
