import SeriesAlarm.Expr.Tree

/-!
# Explanations of a positive instant

A truthy tree is explained by one result for each operator node that is reached from the root
through truthy operator nodes, operands first. Level 0 is the root.
-/

namespace SeriesAlarm

/-- What one operator node contributed to a positive instant of a test. -/
structure PositiveResult where
  level : Nat
  leftValue : Float
  rightValue : Float
  message : String
  timestamp : Instant
  testId : String

abbrev ResultGroup := List PositiveResult

namespace ResultGroup

def timestamp? (g : ResultGroup) : Option Instant := g.head?.map (·.timestamp)

def testId? (g : ResultGroup) : Option String := g.head?.map (·.testId)

end ResultGroup

namespace Tree

/-- The results of a subtree from the values of its latest evaluation. At level 0 a message of the
test puts the operands one level deeper, adds a result of level 1 with the text of the tree, and
takes the place of that text in the root's own result. -/
def explain (testId : String) (testMessage : Option String) (t : Instant) : Nat → Tree → ResultGroup
  | _, .leaf _ => []
  | level, .node op left right message x =>
    let rootMessage := if level = 0 then testMessage else none
    let deeper := level + if rootMessage.isSome then 2 else 1
    let below (e : Tree) (results : ResultGroup) :=
      if e.isNode && isTruthy e.last then results else []
    let self := Tree.node op left right message x
    let result (level : Nat) (message : String) : PositiveResult :=
      { level, leftValue := left.last, rightValue := right.last, message, timestamp := t, testId }
    let own :=
      match rootMessage with
      | some template =>
        [result (level + 1) (self.explanation t),
          result level (Message.substitute template t x self.identifiers)]
      | none => [result level (self.explanation t)]
    below left (left.explain testId testMessage t deeper) ++
      below right (right.explain testId testMessage t deeper) ++ own

end Tree
end SeriesAlarm
