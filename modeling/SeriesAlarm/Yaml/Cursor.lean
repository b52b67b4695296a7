/-!
# Places in a YAML text

A cursor is the rest of a text with the line and the column where it starts. The classes of
characters that the grammar tells apart are here too.
-/

namespace SeriesAlarm
namespace Yaml

/-- A line break: line feed, carriage return, next line, line or paragraph separator. -/
def isBreak (c : Char) : Bool :=
  let n := c.toNat
  n == 10 || n == 13 || n == 0x85 || n == 0x2028 || n == 0x2029

def isSpaceOrTab (c : Char) : Bool := c == ' ' || c == '\t'

def isWordChar (c : Char) : Bool := c.isAlphanum || c == '-' || c == '_'

def isAllowed (c : Char) : Bool :=
  let n := c.toNat
  n == 9 || n == 10 || n == 13 || (0x20 ≤ n && n ≤ 0x7E) || n == 0x85 ||
    (0xA0 ≤ n && n ≤ 0xD7FF) || (0xE000 ≤ n && n ≤ 0xFFFD) || 0x10000 ≤ n

def byteOrderMark : Char := '\uFEFF'

def endsWord : Option Char → Bool
  | none => true
  | some c => isSpaceOrTab c || isBreak c

def endsLine : Option Char → Bool
  | none => true
  | some c => isBreak c

structure Cursor where
  rest : List Char
  index : Nat := 0
  line : Nat := 0
  column : Nat := 0

namespace Cursor

def head? (c : Cursor) : Option Char := c.rest.head?

def peek (c : Cursor) (n : Nat) : Option Char := c.rest[n]?

def isAt (c : Cursor) (ch : Char) : Bool := c.head? == some ch

def skip (c : Cursor) : Cursor :=
  match c.rest with
  | [] => c
  | _ :: rest => { rest, index := c.index + 1, line := c.line, column := c.column + 1 }

def skips (c : Cursor) : Nat → Cursor
  | 0 => c
  | n + 1 => c.skip.skips n

/-- Passes over a line break; a carriage return and a line feed are one. -/
def skipBreak (c : Cursor) : Cursor :=
  match c.rest with
  | '\r' :: '\n' :: rest => { rest, index := c.index + 2, line := c.line + 1, column := 0 }
  | ch :: rest =>
    if isBreak ch then { rest, index := c.index + 1, line := c.line + 1, column := 0 } else c
  | [] => c

/-- What a line break stands for: itself for a separator, otherwise a line feed. -/
def breakText (c : Cursor) : List Char :=
  match c.rest with
  | ch :: _ => if ch.toNat == 0x2028 || ch.toNat == 0x2029 then [ch] else if isBreak ch then ['\n'] else []
  | [] => []

def skipWhile (c : Cursor) (p : Char → Bool) : Cursor :=
  c.skips (c.rest.takeWhile p).length

def takeWhile (c : Cursor) (p : Char → Bool) : List Char × Cursor :=
  (c.rest.takeWhile p, c.skipWhile p)

def skipComment (c : Cursor) : Cursor :=
  if c.isAt '#' then c.skipWhile fun ch => !isBreak ch else c

/-- Three equal characters at the beginning of a line, and the end of a word. -/
def isAtMarker (c : Cursor) (ch : Char) : Bool :=
  c.column == 0 && c.peek 0 == some ch && c.peek 1 == some ch && c.peek 2 == some ch &&
    endsWord (c.peek 3)

def isAtDocumentMarker (c : Cursor) : Bool := c.isAtMarker '-' || c.isAtMarker '.'

/-- Nothing but white space and a comment up to the end of the line; the place behind it. -/
def endLine? (c : Cursor) : Option Cursor :=
  let c := (c.skipWhile isSpaceOrTab).skipComment
  if endsLine c.head? then some c.skipBreak else none

end Cursor
end Yaml
end SeriesAlarm
