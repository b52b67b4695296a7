import SeriesAlarm.Yaml.Stream

/-!
# YAML nodes

The tree of a document, with every alias replaced by the node that it names.
-/

namespace SeriesAlarm
namespace Yaml

inductive Node
  | scalar (tag : Option String) (text : String) (style : ScalarStyle)
  | sequence (tag : Option String) (items : List Node)
  | mapping (tag : Option String) (members : List (Node × Node))
  deriving Inhabited

namespace Node

def empty : Node := .scalar none "" .plain

mutual

def depth : Node → Nat
  | .scalar .. => 0
  | .sequence _ items => depthOfItems items + 1
  | .mapping _ members => depthOfMembers members + 1

def depthOfItems : List Node → Nat
  | [] => 0
  | n :: ns => max (depth n) (depthOfItems ns)

def depthOfMembers : List (Node × Node) → Nat
  | [] => 0
  | (k, v) :: ms => max (max (depth k) (depth v)) (depthOfMembers ms)

end

end Node

/-- A node with the number of aliases that were followed for it. -/
structure Composed where
  node : Node
  jumps : Nat := 0

/-- The tokens to come, the handles of tags, the anchors seen (without a node as long as theirs is
not complete), and the number of scalars, aliases and ends of collections. -/
structure Composer where
  tokens : List Token
  handles : List (String × String)
  anchors : List (String × Option Composed) := []
  events : Nat := 0

namespace Composer

def head? (c : Composer) : Option Token := c.tokens.head?

def skip (c : Composer) : Composer := { c with tokens := c.tokens.tail }

def count (c : Composer) (n : Nat) : Composer := { c with events := c.events + n }

def isAtAny (c : Composer) (ts : List Token) : Bool := c.head?.any ts.contains

def resolveTag? (c : Composer) (handle suffix : String) : Option String :=
  if handle = "" then some suffix else (c.handles.lookup handle).map (· ++ suffix)

/-- An anchor and a tag, in either order and each at most once. -/
def properties? (c : Composer) : Option (Option String × Option String × Composer) :=
  match c.tokens with
  | .anchor a :: .tag h s :: ts => (c.resolveTag? h s).map fun t => (some a, some t, { c with tokens := ts })
  | .tag h s :: .anchor a :: ts => (c.resolveTag? h s).map fun t => (some a, some t, { c with tokens := ts })
  | .anchor a :: ts => some (some a, none, { c with tokens := ts })
  | .tag h s :: ts => (c.resolveTag? h s).map fun t => (none, some t, { c with tokens := ts })
  | _ => some (none, none, c)

def setAnchor (c : Composer) (name : Option String) (n : Option Composed) : Composer :=
  match name with
  | some a => { c with anchors := (a, n) :: c.anchors }
  | none => c

/-- The scalar's tag; a lone exclamation mark is none. -/
def scalarTag (tag : Option String) : Option String := tag.filter (· ≠ "!")

def emptyNode : Composed := { node := .empty }

mutual

/-- A node; `block` allows block collections, and `indentless` a sequence without an
indentation of its own. -/
def node? (block indentless : Bool) : Nat → Composer → Option (Composed × Composer)
  | 0, _ => none
  | fuel + 1, c => do
    match c.tokens with
    | .alias name :: _ =>
      let target ← (c.anchors.lookup name).join
      return ({ target with jumps := target.jumps + 1 }, c.skip.count 1)
    | _ =>
    let (anchor, tag, c) ← c.properties?
    let finish (node : Node) (jumps : Nat) (c : Composer) : Option (Composed × Composer) :=
      some ({ node, jumps }, c.setAnchor anchor (some { node, jumps }))
    let opened := (c.setAnchor anchor none).count 2
    let alone :=
      if anchor.isSome || tag.isSome then finish (.scalar tag "" .plain) 0 (c.count 1) else none
    match c.head? with
    | some (.scalar text style) => finish (.scalar (scalarTag tag) text style) 0 (c.skip.count 1)
    | some .openBracket =>
      let (items, jumps, c) ← flowItems? true fuel opened.skip
      finish (.sequence tag items) jumps c
    | some .openBrace =>
      let (members, jumps, c) ← flowMembers? true fuel opened.skip
      finish (.mapping tag members) jumps c
    | some .entry =>
      if !indentless then alone
      else
        let (items, jumps, c) ← plainItems? fuel opened
        finish (.sequence tag items) jumps c
    | some .sequenceStart =>
      if !block then alone
      else
        let (items, jumps, c) ← blockItems? fuel opened.skip
        finish (.sequence tag items) jumps c
    | some .mappingStart =>
      if !block then alone
      else
        let (members, jumps, c) ← blockMembers? fuel opened.skip
        finish (.mapping tag members) jumps c
    | _ => alone

def nodeUnless? (stops : List Token) (block indentless : Bool) :
    Nat → Composer → Option (Composed × Composer)
  | 0, _ => none
  | fuel + 1, c =>
    if c.isAtAny stops then some (emptyNode, c.count 1)
    else node? block indentless fuel c

def blockItems? : Nat → Composer → Option (List Node × Nat × Composer)
  | 0, _ => none
  | fuel + 1, c =>
    match c.head? with
    | some .entry => do
      let (n, c) ← nodeUnless? [.entry, .blockEnd] true false fuel c.skip
      let (ns, jumps, c) ← blockItems? fuel c
      return (n.node :: ns, n.jumps + jumps, c)
    | some .blockEnd => some ([], 0, c.skip)
    | _ => none

/-- The entries of a block sequence that is indented no deeper than its key. -/
def plainItems? : Nat → Composer → Option (List Node × Nat × Composer)
  | 0, _ => none
  | fuel + 1, c =>
    match c.head? with
    | some .entry => do
      let (n, c) ← nodeUnless? [.entry, .key, .value, .blockEnd] true false fuel c.skip
      let (ns, jumps, c) ← plainItems? fuel c
      return (n.node :: ns, n.jumps + jumps, c)
    | _ => some ([], 0, c)

def blockMembers? : Nat → Composer → Option (List (Node × Node) × Nat × Composer)
  | 0, _ => none
  | fuel + 1, c =>
    match c.head? with
    | some .key => do
      let (k, c) ← nodeUnless? [.key, .value, .blockEnd] true true fuel c.skip
      let (v, c) ←
        if c.head? = some .value then nodeUnless? [.key, .value, .blockEnd] true true fuel c.skip
        else some (emptyNode, c.count 1)
      let (ms, jumps, c) ← blockMembers? fuel c
      return ((k.node, v.node) :: ms, k.jumps + v.jumps + jumps, c)
    | some .blockEnd => some ([], 0, c.skip)
    | _ => none

/-- The entries of a flow sequence; a key makes a mapping of one member. -/
def flowItems? (first : Bool) : Nat → Composer → Option (List Node × Nat × Composer)
  | 0, _ => none
  | fuel + 1, c => do
    if c.head? = some .closeBracket then return ([], 0, c.skip)
    let c ← if first then some c else if c.head? = some .comma then some c.skip else none
    match c.head? with
    | some .closeBracket => return ([], 0, c.skip)
    | some .key =>
      let c := c.skip.count 2
      let (k, c) ←
        if c.isAtAny [.value, .comma, .closeBracket] then some (emptyNode, c.skip.count 1)
        else nodeUnless? [] false false fuel c
      let (v, c) ←
        if c.head? = some .value then nodeUnless? [.comma, .closeBracket] false false fuel c.skip
        else some (emptyNode, c.count 1)
      let (ns, jumps, c) ← flowItems? false fuel c
      return (.mapping none [(k.node, v.node)] :: ns, k.jumps + v.jumps + jumps, c)
    | _ =>
      let (n, c) ← nodeUnless? [] false false fuel c
      let (ns, jumps, c) ← flowItems? false fuel c
      return (n.node :: ns, n.jumps + jumps, c)

def flowMembers? (first : Bool) : Nat → Composer → Option (List (Node × Node) × Nat × Composer)
  | 0, _ => none
  | fuel + 1, c => do
    if c.head? = some .closeBrace then return ([], 0, c.skip)
    let c ← if first then some c else if c.head? = some .comma then some c.skip else none
    match c.head? with
    | some .closeBrace => return ([], 0, c.skip)
    | some .key =>
      let (k, c) ← nodeUnless? [.value, .comma, .closeBrace] false false fuel c.skip
      let (v, c) ←
        if c.head? = some .value then nodeUnless? [.comma, .closeBrace] false false fuel c.skip
        else some (emptyNode, c.count 1)
      let (ms, jumps, c) ← flowMembers? false fuel c
      return ((k.node, v.node) :: ms, k.jumps + v.jumps + jumps, c)
    | _ =>
      let (k, c) ← nodeUnless? [] false false fuel c
      let (ms, jumps, c) ← flowMembers? false fuel (c.count 1)
      return ((k.node, .empty) :: ms, k.jumps + jumps, c)

end

/-- Directives before a document: one version at most, and handles, each given once. -/
def directives? : List Token → Bool → List (String × String) →
    Option (Bool × List (String × String) × List Token)
  | .version major minor :: ts, versioned, handles =>
    if versioned ∨ major ≠ 1 ∨ (minor ≠ 1 ∧ minor ≠ 2) then none else directives? ts true handles
  | .handle h start :: ts, versioned, handles =>
    if (handles.lookup h).isSome then none else directives? ts versioned ((h, start) :: handles)
  | ts, versioned, handles => some (versioned || !handles.isEmpty, handles, ts)

def defaultHandles : List (String × String) := [("!", "!"), ("!!", "tag:yaml.org,2002:")]

def document? (ts : List Token) : Option (Composed × Composer) := do
  let (directed, handles, ts) ← directives? ts false []
  let start (ts : List Token) : Composer := { tokens := ts, handles := handles ++ defaultHandles }
  let fuel := 3 * ts.length + 3
  let (n, c) ←
    match ts with
    | .documentStart :: ts =>
      nodeUnless? [.documentStart, .documentEnd, .streamEnd] true false fuel (start ts)
    | ts => if directed || ts.head? == some .streamEnd then none else node? true false fuel (start ts)
  if c.tokens.dropWhile (· == .documentEnd) = [.streamEnd] then some (n, c) else none

end Composer

namespace Node

def depthLimit : Nat := 128

def jumpLimit : Nat := 100

/-- The document of a text; nothing if the text is malformed, holds none or several, or has too
much nesting or too many aliases. -/
def ofText? (text : String) : Option Node := do
  let ts ← tokens? text
  let (n, c) ← Composer.document? ts
  if jumpLimit * c.events < n.jumps then none
  else if depthLimit < n.node.depth then none
  else some n.node

end Node
end Yaml
end SeriesAlarm
