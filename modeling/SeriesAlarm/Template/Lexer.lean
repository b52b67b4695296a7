import SeriesAlarm.Json.Reader
import SeriesAlarm.Template.Syntax
import SeriesAlarm.Text.Blank
import SeriesAlarm.Text.Replace
import SeriesAlarm.Width

/-!
# Splitting a template into tokens

Tags stand in `{{ }}` and `{% %}`, comments in `{# #}`. A minus sign at the inner side of a
delimiter takes the white space on its outer side away. One line break at the end of a template is
dropped.
-/

namespace SeriesAlarm
namespace Template

open Text

def isIdentStart (c : Char) : Bool := c.isAlpha || c == '_'

def isIdentPart (c : Char) : Bool := c.isAlphanum || c == '_'

def stringEscape? : List Char → Option (Char × List Char)
  | 'n' :: r => some ('\n', r)
  | 't' :: r => some ('\t', r)
  | 'r' :: r => some ('\r', r)
  | 'b' :: r => some (Char.ofNat 8, r)
  | 'f' :: r => some (Char.ofNat 12, r)
  | '\\' :: r => some ('\\', r)
  | '/' :: r => some ('/', r)
  | '"' :: r => some ('"', r)
  | '\'' :: r => some ('\'', r)
  | 'u' :: r => Json.unicodeEscape? r
  | _ => none

/-- A string up to its closing quote, collected in reverse. -/
def lexString (quote : Char) : Nat → List Char → List Char → Option (String × List Char)
  | 0, _, _ => none
  | fuel + 1, acc, cs =>
    match cs with
    | '\\' :: r =>
      match stringEscape? r with
      | some (c, r) => lexString quote fuel (c :: acc) r
      | none => none
    | c :: r =>
      if c = quote then some (String.ofList acc.reverse, r) else lexString quote fuel (c :: acc) r
    | [] => none

/-- The part of a number that the reader is in. -/
inductive NumberPart
  | radix | whole | fraction | exponent | exponentDigits
  deriving DecidableEq

def NumberPart.next? (hex : Bool) (c : Char) : NumberPart → Option NumberPart
  | .whole =>
    if c = '.' then some .fraction
    else if c = 'e' ∨ c = 'E' then some .exponent
    else if isDigit c ∨ c = '_' then some .whole
    else none
  | .fraction =>
    if c = 'e' ∨ c = 'E' then some .exponent
    else if isDigit c ∨ c = '_' then some .fraction
    else none
  | .exponent =>
    if c = '+' ∨ c = '-' ∨ isDigit c then some .exponentDigits
    else if c = '_' then some .exponent
    else none
  | .exponentDigits => if isDigit c ∨ c = '_' then some .exponentDigits else none
  | .radix =>
    if isDigit c ∨ c = '_' ∨ (hex ∧ (Json.hexValue? c).isSome) then some .radix else none

def spanNumber (hex : Bool) : NumberPart → List Char → List Char × List Char × NumberPart
  | part, [] => ([], [], part)
  | part, c :: cs =>
    match part.next? hex c with
    | some next =>
      let (ds, rest, last) := spanNumber hex next cs
      (c :: ds, rest, last)
    | none => ([], c :: cs, part)

def digitsIn? (radix : Nat) (cs : List Char) : Option Nat :=
  if cs = [] then none
  else cs.foldlM (fun n c => (Json.hexValue? c).bind fun d => if d < radix then some (n * radix + d) else none) 0

def lexNumber (cs : List Char) : Option (Token × List Char) :=
  let (radix, body) : Nat × List Char :=
    match cs with
    | '0' :: 'x' :: r | '0' :: 'X' :: r => (16, r)
    | '0' :: 'o' :: r | '0' :: 'O' :: r => (8, r)
    | '0' :: 'b' :: r | '0' :: 'B' :: r => (2, r)
    | r => (10, r)
  let (ds, rest, part) := spanNumber (radix == 16) (if radix = 10 then .whole else .radix) body
  if ds.getLast? = some '_' then none
  else
    let ds := ds.filter (· != '_')
    match part with
    | .radix | .whole =>
      match digitsIn? radix ds with
      | some n => if n < wordSize 128 then some (.int n, rest) else none
      | none => none
    | _ => (Decimal.unsigned? ds).map fun x => (.float x, rest)

def twoCharMarks : List String := ["//", "**", "==", "!=", ">=", "<="]

def oneCharMarks : List Char :=
  ['+', '-', '*', '/', '%', '.', ',', ':', '~', '|', '=', '>', '<', '(', ')', '[', ']', '{', '}']

def lexMark : List Char → Option (String × List Char)
  | a :: b :: r =>
    let two := String.ofList [a, b]
    if twoCharMarks.contains two then some (two, r)
    else if oneCharMarks.contains a then some (String.ofList [a], b :: r)
    else none
  | [a] => if oneCharMarks.contains a then some (String.ofList [a], []) else none
  | [] => none

def lexToken (cs : List Char) : Option (Token × List Char) :=
  match cs with
  | [] => none
  | c :: r =>
    if isIdentStart c then
      some (.ident (String.ofList (cs.takeWhile isIdentPart)), cs.dropWhile isIdentPart)
    else if isDigit c then lexNumber cs
    else if c = '"' ∨ c = '\'' then
      (lexString c (r.length + 1) [] r).map fun (s, r) => (.string s, r)
    else (lexMark cs).map fun (m, r) => (.mark m, r)

/-- The rest after a closing delimiter, with the white space after it dropped where a minus sign
asks for it. -/
def closing? (close : List Char) (cs : List Char) : Option (List Char) :=
  match cs with
  | '-' :: r => (dropLeading? close r).map trimStart
  | '+' :: r => dropLeading? close r
  | r => dropLeading? close r

def balanceOf (m : String) : Int :=
  if m = "(" ∨ m = "[" ∨ m = "\x7b" then 1
  else if m = ")" ∨ m = "]" ∨ m = "\x7d" then -1
  else 0

/-- The tokens of a tag up to its closing delimiter, which does not count inside brackets. -/
def lexTag (close : List Char) : Nat → Int → List Char → Option (List Token × List Char)
  | 0, _, _ => none
  | fuel + 1, depth, cs =>
    let cs := trimStart cs
    match if depth = 0 then closing? close cs else none with
    | some rest => some ([], rest)
    | none =>
      match lexToken cs with
      | none => none
      | some (t, r) =>
        let depth := match t with
          | .mark m => depth + balanceOf m
          | _ => depth
        if depth < 0 then none
        else (lexTag close fuel depth r).map fun (ts, r) => (t :: ts, r)

def skipComment : List Char → Option (List Char)
  | '-' :: '#' :: '}' :: r => some (trimStart r)
  | '#' :: '}' :: r => some r
  | _ :: r => skipComment r
  | [] => none

def wordTag? (word : String) (cs : List Char) : Option (List Char) :=
  let cs := match cs with
    | '-' :: r | '+' :: r => r
    | r => r
  match dropLeading? word.toList (trimStart cs) with
  | some r => closing? ['%', '}'] (trimStart r)
  | none => none

def rawText : List Char → List Char → Option (List Char × List Char)
  | acc, '{' :: '%' :: r =>
    match wordTag? "endraw" r with
    | some rest =>
      let text := acc.reverse
      some (if r.head? = some '-' then trimEnd text else text, rest)
    | none => rawText ('%' :: '{' :: acc) r
  | acc, c :: r => rawText (c :: acc) r
  | _, [] => none
termination_by _ cs => cs.length

/-- The kind of tag that begins at a place. -/
inductive Opening
  | expr | tag | comment
  deriving DecidableEq

def opening? : List Char → Option (Opening × List Char)
  | '{' :: '{' :: r => some (.expr, r)
  | '{' :: '%' :: r => some (.tag, r)
  | '{' :: '#' :: r => some (.comment, r)
  | _ => none

/-- The text up to the next tag, the tag's kind and what follows its delimiter. -/
def nextTag : List Char → List Char × Option (Opening × List Char)
  | [] => ([], none)
  | c :: cs =>
    match opening? (c :: cs) with
    | some tag => ([], some tag)
    | none =>
      let (text, tag) := nextTag cs
      (c :: text, tag)

def textToken (cs : List Char) : List Token :=
  if cs = [] then [] else [.text (String.ofList cs)]

def dropSign : List Char → List Char
  | '-' :: r | '+' :: r => r
  | r => r

def lexText : Nat → List Char → Option (List Token)
  | 0, _ => none
  | fuel + 1, cs =>
    match nextTag cs with
    | (text, none) => some (textToken text)
    | (text, some (kind, r)) =>
      let text := if r.head? = some '-' then trimEnd text else text
      match kind with
      | .comment => do
        let rest ← skipComment r
        let more ← lexText fuel rest
        return textToken text ++ more
      | .expr => do
        let (ts, rest) ← lexTag ['}', '}'] (r.length + 1) 0 (dropSign r)
        let more ← lexText fuel rest
        return textToken text ++ .exprStart :: ts ++ .exprEnd :: more
      | .tag =>
        match wordTag? "raw" r with
        | some rest => do
          let (raw, rest) ← rawText [] rest
          let more ← lexText fuel rest
          return textToken text ++ textToken raw ++ more
        | none => do
          let (ts, rest) ← lexTag ['%', '}'] (r.length + 1) 0 (dropSign r)
          let more ← lexText fuel rest
          return textToken text ++ .tagStart :: ts ++ .tagEnd :: more

def dropLineBreak (cs : List Char) : List Char :=
  let rev := match cs.reverse with
    | '\n' :: r => r
    | r => r
  (match rev with
    | '\r' :: r => r
    | r => r).reverse

def lex (source : String) : Option (List Token) :=
  let cs := dropLineBreak source.toList
  lexText (cs.length + 1) cs

end Template
end SeriesAlarm
