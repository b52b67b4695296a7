import SeriesAlarm.Decimal.Text

/-!
# JSON values

Values with the members of an object in the order of their text, and their compact and indented
spellings.
-/

namespace SeriesAlarm

inductive Json
  | null
  | bool (b : Bool)
  /-- A whole number of 64 bits. -/
  | int (n : Int)
  | float (x : Float)
  | string (s : String)
  | array (items : List Json)
  | object (members : List (String × Json))
  deriving Inhabited

namespace Json

def hexDigit (n : Nat) : Char := Char.ofNat (if n < 10 then 48 + n else 87 + n)

def escapeChar (c : Char) : List Char :=
  match c with
  | '"' => ['\\', '"']
  | '\\' => ['\\', '\\']
  | '\n' => ['\\', 'n']
  | '\r' => ['\\', 'r']
  | '\t' => ['\\', 't']
  | _ =>
    if c.toNat = 8 then ['\\', 'b']
    else if c.toNat = 12 then ['\\', 'f']
    else if c.toNat < 32 then
      ['\\', 'u', '0', '0', hexDigit (c.toNat / 16), hexDigit (c.toNat % 16)]
    else [c]

def quote (s : String) : String :=
  "\"" ++ String.ofList (s.toList.flatMap escapeChar) ++ "\""

/-- A float that is no number is written as null. -/
def floatText (x : Float) : String :=
  if x.isNaN || x.isInf then "null" else Decimal.dataText x

mutual

def compact : Json → String
  | .null => "null"
  | .bool b => if b then "true" else "false"
  | .int n => toString n
  | .float x => floatText x
  | .string s => quote s
  | .array items => "[" ++ ",".intercalate (compactItems items) ++ "]"
  | .object members => "\x7b" ++ ",".intercalate (compactMembers members) ++ "\x7d"

def compactItems : List Json → List String
  | [] => []
  | v :: vs => compact v :: compactItems vs

def compactMembers : List (String × Json) → List String
  | [] => []
  | (k, v) :: ms => (quote k ++ ":" ++ compact v) :: compactMembers ms

end

def indentText (depth : Nat) : String := String.ofList (List.replicate (2 * depth) ' ')

mutual

/-- The spelling with one item or member a line, indented by two spaces a level. -/
def indented (depth : Nat) : Json → String
  | .array (v :: vs) =>
    "[\n" ++ ",\n".intercalate (indentedItems (depth + 1) (v :: vs)) ++ "\n" ++ indentText depth ++
      "]"
  | .object (m :: ms) =>
    "\x7b\n" ++ ",\n".intercalate (indentedMembers (depth + 1) (m :: ms)) ++ "\n" ++
      indentText depth ++ "\x7d"
  | v => compact v

def indentedItems (depth : Nat) : List Json → List String
  | [] => []
  | v :: vs => (indentText depth ++ indented depth v) :: indentedItems depth vs

def indentedMembers (depth : Nat) : List (String × Json) → List String
  | [] => []
  | (k, v) :: ms =>
    (indentText depth ++ quote k ++ ": " ++ indented depth v) :: indentedMembers depth ms

end

/-- The member of that name; the last one counts where a name is repeated. -/
def field? (j : Json) (name : String) : Option Json :=
  match j with
  | .object ms => (ms.reverse.find? fun m => m.1 == name).map (·.2)
  | _ => none

def insertSorted (m : String × Json) : List (String × Json) → List (String × Json)
  | [] => [m]
  | n :: ns =>
    if m.1 < n.1 then m :: n :: ns
    else if m.1 = n.1 then m :: ns
    else n :: insertSorted m ns

mutual

/-- The value with the members of every object sorted by name, one of each name. -/
def sorted : Json → Json
  | .array items => .array (sortedItems items)
  | .object ms => .object ((sortedMembers ms).foldl (fun acc m => insertSorted m acc) [])
  | v => v

def sortedItems : List Json → List Json
  | [] => []
  | v :: vs => sorted v :: sortedItems vs

def sortedMembers : List (String × Json) → List (String × Json)
  | [] => []
  | (k, v) :: ms => (k, sorted v) :: sortedMembers ms

end

end Json
end SeriesAlarm
