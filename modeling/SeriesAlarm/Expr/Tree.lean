import SeriesAlarm.Expr.Leaf

/-!
# Expression trees

A tree of operators over leaves. Every node keeps the value of its latest evaluation, and the texts
and explanations of a tree are read from those values.
-/

namespace SeriesAlarm

inductive Tree
  | leaf (f : Leaf)
  | node (op : Operator) (left right : Tree) (message : Option String) (last : Float)

namespace Tree

def ofOperator (op : Operator) (left right : Tree) (message : Option String) : Tree :=
  .node op left right message notANumber

def last : Tree → Float
  | .leaf f => f.last
  | .node _ _ _ _ x => x

def isNode : Tree → Bool
  | .leaf _ => false
  | .node .. => true

def evaluate? (t : Instant) : Tree → Option Tree
  | .leaf f => (f.evaluate? t).map .leaf
  | .node op left right message _ => do
    let left ← left.evaluate? t
    let right ← right.evaluate? t
    return .node op left right message (op.apply left.last right.last)

def leaves : Tree → List Leaf
  | .leaf f => [f]
  | .node _ left right _ _ => left.leaves ++ right.leaves

def identifiers (e : Tree) : List String := e.leaves.flatMap (·.inputs)

def wildcards (e : Tree) : List String := e.leaves.flatMap (·.wildcards)

def mapLeaves (g : Leaf → Leaf) : Tree → Tree
  | .leaf f => .leaf (g f)
  | .node op left right message x => .node op (left.mapLeaves g) (right.mapLeaves g) message x

@[simp] theorem leaves_mapLeaves (g : Leaf → Leaf) (e : Tree) :
    (e.mapLeaves g).leaves = e.leaves.map g := by
  induction e with
  | leaf f => rfl
  | node op l r m x ihl ihr => simp [mapLeaves, leaves, ihl, ihr]

/-- Binds every leaf for a window from left to right and tells of each whether it resolved. -/
def resolve? (source : Source) (first last : Instant) : Tree → Option (Tree × List Bool)
  | .leaf f => (f.resolve? source first last).map fun (f, ok) => (.leaf f, [ok])
  | .node op left right message x => do
    let (left, ls) ← left.resolve? source first last
    let (right, rs) ← right.resolve? source first last
    return (.node op left right message x, ls ++ rs)

/-- Sets the first slot of each leaf from a list; leaves beyond its end keep theirs. -/
def bindFirstSlots : Tree → List (Option Series) → Tree × List (Option Series)
  | .leaf f, [] => (.leaf f, [])
  | .leaf f, s :: rest => (.leaf (f.bindSlot 0 s), rest)
  | .node op left right message x, slots =>
    let (left, slots) := left.bindFirstSlots slots
    let (right, slots) := right.bindFirstSlots slots
    (.node op left right message x, slots)

def setWildcards (e : Tree) (capture : String) : Tree := e.mapLeaves (·.setWildcards capture)

/-- The text of a node: its message, or its operands around the symbol, an operand without a
message of its own in parentheses. -/
def explanation (t : Instant) : Tree → String
  | .leaf f => f.explanation t
  | .node op left right message x =>
    match message with
    | some template =>
      Message.substitute template t x ((Tree.node op left right message x).identifiers)
    | none =>
      let operand (e : Tree) (text : String) :=
        match e with
        | .node _ _ _ none _ => "(" ++ text ++ ")"
        | _ => text
      operand left (left.explanation t) ++ " " ++ op.symbol ++ " " ++
        operand right (right.explanation t)

end Tree
end SeriesAlarm
