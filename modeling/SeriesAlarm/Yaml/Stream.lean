import SeriesAlarm.Yaml.Token

/-!
# Token streams

All tokens of a YAML text. In block style the indentation opens and closes collections, and a key
is known as one only when its colon is met: the tokens that it needs are then put in at its place.
-/

namespace SeriesAlarm
namespace Yaml

/-- Where a key may have begun: how many tokens stand before it, and its place in the text. -/
structure PossibleKey where
  place : Nat
  required : Bool
  index : Nat
  line : Nat
  column : Nat

/-- Tokens so far, the possible key of the current collection and those of the flow collections
around it, and the indentations of the open blocks. -/
structure Stream where
  at_ : Cursor
  tokens : Array Token := #[]
  key : Option PossibleKey := none
  outer : List (Option PossibleKey) := []
  indent : Int := -1
  indents : List Int := []
  keyAllowed : Bool := true
  finished : Bool := false

namespace Stream

def isFlow (s : Stream) : Bool := !s.outer.isEmpty

def push (s : Stream) (t : Token) : Stream := { s with tokens := s.tokens.push t }

def insertAt (s : Stream) (place : Nat) (t : Token) : Stream :=
  { s with tokens := (s.tokens.toList.insertIdx place t).toArray }

/-- A key is on one line and not longer than this. -/
def keyLimit : Nat := 1024

def isStale (s : Stream) (k : PossibleKey) : Bool :=
  k.line < s.at_.line || k.index + keyLimit < s.at_.index

/-- Gives up a possible key; one that the indentation asks for cannot be given up. -/
def dropStale? (s : Stream) (k : Option PossibleKey) : Option (Option PossibleKey) :=
  match k with
  | some k => if s.isStale k then (if k.required then none else some none) else some (some k)
  | none => some none

def dropStaleKeys? (s : Stream) : Option Stream := do
  let key ← s.dropStale? s.key
  let outer ← s.outer.mapM s.dropStale?
  return { s with key, outer }

def removeKey? (s : Stream) : Option Stream :=
  match s.key with
  | some k => if k.required then none else some { s with key := none }
  | none => some s

def saveKey? (s : Stream) : Option Stream :=
  if s.keyAllowed then
    s.removeKey?.map fun s =>
      { s with key := some {
          place := s.tokens.size
          required := !s.isFlow && s.indent == s.at_.column
          index := s.at_.index
          line := s.at_.line
          column := s.at_.column } }
  else some s

def unroll (column : Int) : List Int → Stream → Stream
  | [], s => s
  | i :: is, s =>
    if s.indent > column then unroll column is { s.push .blockEnd with indent := i, indents := is }
    else s

def closeBlocks (s : Stream) (column : Int) : Stream :=
  if s.isFlow then s else unroll column s.indents s

def openBlock (s : Stream) (column : Nat) (place : Nat) (t : Token) : Stream :=
  if !s.isFlow && s.indent < (column : Int) then
    { s.insertAt place t with indent := column, indents := s.indent :: s.indents }
  else s

def skipBlank : Nat → Stream → Stream
  | 0, s => s
  | fuel + 1, s =>
    let c := if s.at_.index == 0 && s.at_.isAt byteOrderMark then s.at_.skip else s.at_
    let tabs := s.isFlow || !s.keyAllowed
    let c := (c.skipWhile fun ch => ch == ' ' || (tabs && ch == '\t')).skipComment
    if c.head?.any isBreak then
      skipBlank fuel { s with at_ := c.skipBreak, keyAllowed := s.keyAllowed || !s.isFlow }
    else { s with at_ := c }

/-- Adds a token that ends every block before it. -/
def outermost? (s : Stream) (t : Token) (c : Cursor) : Option Stream := do
  let s ← (s.closeBlocks (-1)).removeKey?
  return { s.push t with at_ := c, keyAllowed := false }

def openFlow? (s : Stream) (t : Token) : Option Stream := do
  let s ← s.saveKey?
  return { s.push t with at_ := s.at_.skip, key := none, outer := s.key :: s.outer, keyAllowed := true }

def closeFlow? (s : Stream) (t : Token) : Option Stream := do
  let s ← s.removeKey?
  let (key, outer) := match s.outer with
    | k :: ks => (k, ks)
    | [] => (s.key, [])
  return { s.push t with at_ := s.at_.skip, key, outer, keyAllowed := false }

/-- A dash or a question mark in block style opens its collection. -/
def blockMark? (s : Stream) (opening t : Token) (keyAllowed : Bool) : Option Stream := do
  if !s.isFlow && !s.keyAllowed then none
  let s ← (s.openBlock s.at_.column s.tokens.size opening).removeKey?
  return { s.push t with at_ := s.at_.skip, keyAllowed }

/-- A colon: the possible key becomes one, or the value has no key of its own. -/
def value? (s : Stream) : Option Stream :=
  match s.key with
  | some k =>
    let s := ({ s with key := none }.insertAt k.place .key).openBlock k.column k.place .mappingStart
    some { s.push .value with at_ := s.at_.skip, keyAllowed := false }
  | none =>
    if !s.isFlow && !s.keyAllowed then none
    else
      let t := s.openBlock s.at_.column s.tokens.size .mappingStart
      some { t.push .value with at_ := s.at_.skip, keyAllowed := !s.isFlow }

def keyPart? (s : Stream) (read : Cursor → Option (Token × Cursor)) : Option Stream := do
  let s ← s.saveKey?
  let (t, c) ← read s.at_
  return { s.push t with at_ := c, keyAllowed := false }

def quoted? (s : Stream) (single : Bool) : Option Stream :=
  s.keyPart? fun c => do
    let c := c.skip
    let (text, c) ← Token.quoted? single (c.rest.length + 1) c
    return (.scalar (String.ofList text) (if single then .single else .double), c)

def blockScalar? (s : Stream) (literal : Bool) : Option Stream := do
  let s ← s.removeKey?
  let (t, c) ← Token.block? literal s.indent s.at_.skip
  return { s.push t with at_ := c, keyAllowed := true }

def plain? (s : Stream) : Option Stream := do
  let s ← s.saveKey?
  let (text, broken, c) ←
    Token.plain? s.isFlow (s.indent + 1) (s.at_.rest.length + 1) s.at_ {}
  return { s.push (.scalar (String.ofList text) .plain) with at_ := c, keyAllowed := broken }

def indicators : List Char := "-?:,[]\x7b\x7d#&*!|>'\"%@`".toList

def next? (s : Stream) (ch : Char) : Option Stream :=
  let c := s.at_
  let wordEnds := endsWord (c.peek 1)
  if c.column == 0 && ch == '%' then do
    let (t, c) ← Token.directive? c
    s.outermost? t c
  else if c.isAtMarker '-' then s.outermost? .documentStart (c.skips 3)
  else if c.isAtMarker '.' then s.outermost? .documentEnd (c.skips 3)
  else if ch == '[' then s.openFlow? .openBracket
  else if ch == '\x7b' then s.openFlow? .openBrace
  else if ch == ']' then s.closeFlow? .closeBracket
  else if ch == '\x7d' then s.closeFlow? .closeBrace
  else if ch == ',' then do
    let s ← s.removeKey?
    return { s.push .comma with at_ := c.skip, keyAllowed := true }
  else if ch == '-' && wordEnds then s.blockMark? .sequenceStart .entry true
  else if ch == '?' && (s.isFlow || wordEnds) then s.blockMark? .mappingStart .key (!s.isFlow)
  else if ch == ':' && (s.isFlow || wordEnds) then s.value?
  else if ch == '*' then s.keyPart? fun c => (Token.name? c).map fun (n, c) => (.alias n, c)
  else if ch == '&' then s.keyPart? fun c => (Token.name? c).map fun (n, c) => (.anchor n, c)
  else if ch == '!' then s.keyPart? (Token.tag? s.isFlow)
  else if ch == '|' && !s.isFlow then s.blockScalar? true
  else if ch == '>' && !s.isFlow then s.blockScalar? false
  else if ch == '\'' then s.quoted? true
  else if ch == '"' then s.quoted? false
  else if !(endsWord (some ch) || indicators.contains ch) ||
      (ch == '-' && !((c.peek 1).any isSpaceOrTab)) ||
      (!s.isFlow && (ch == '?' || ch == ':') && !wordEnds) then s.plain?
  else none

def run? : Nat → Stream → Option Stream
  | 0, _ => none
  | fuel + 1, s => do
    let s := skipBlank (s.at_.rest.length + 1) s
    let s ← s.dropStaleKeys?
    let s := s.closeBlocks s.at_.column
    match s.at_.head? with
    | none =>
      let s ← (s.closeBlocks (-1)).removeKey?
      return s.push .streamEnd
    | some ch =>
      let s ← s.next? ch
      run? fuel s

end Stream

/-- The tokens of a text; nothing if there is a character or a layout that is not allowed. -/
def tokens? (text : String) : Option (List Token) :=
  let cs := text.toList
  if cs.all isAllowed then
    (Stream.run? (cs.length + 2) { at_ := { rest := cs } }).map fun s => s.tokens.toList
  else none

end Yaml
end SeriesAlarm
