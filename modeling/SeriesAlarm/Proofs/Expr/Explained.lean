import SeriesAlarm.Expr.Explain
import SeriesAlarm.Proofs.Expr.Binding
import SeriesAlarm.Proofs.Expr.Positions

/-!
# What an explanation lists

The values, texts and results here are functions of a tree and an instant; no node remembers
anything. An evaluated tree explains itself from what its nodes remember, and comes to the same.
-/

namespace SeriesAlarm
namespace Tree

def value? (t : Instant) : Tree → Option Float
  | .leaf f => f.value? t
  | .node op left right _ _ => do
    let x ← left.value? t
    let y ← right.value? t
    return op.apply x y

def text? (t : Instant) (e : Tree) : Option String := (e.evaluate? t).map (·.explanation t)

def isTruthyAt (t : Instant) (e : Tree) : Bool := (e.value? t).any isTruthy

section Evaluation

variable {t : Instant} {e e' : Tree}

theorem isSome_evaluate?_iff :
    (e.evaluate? t).isSome ↔ ∀ f ∈ e.leaves, (f.value? t).isSome := by
  induction e with
  | leaf f => simp [evaluate?, Leaf.evaluate?, leaves]
  | node op left right m x ihl ihr =>
    rw [leaves, List.forall_mem_append, ← ihl, ← ihr]
    simp only [Option.isSome_iff_exists, evaluate?_node_eq_some_iff]
    constructor
    · rintro ⟨-, l, r, hl, hr, -⟩
      exact ⟨⟨l, hl⟩, ⟨r, hr⟩⟩
    · rintro ⟨⟨l, hl⟩, ⟨r, hr⟩⟩
      exact ⟨_, l, r, hl, hr, rfl⟩

theorem value?_eq_last (h : e.evaluate? t = some e') : e.value? t = some e'.last := by
  induction e generalizing e' with
  | leaf f =>
    obtain ⟨x, hx, rfl⟩ := evaluate?_leaf_eq_some_iff.mp h
    exact hx
  | node op left right m x ihl ihr =>
    obtain ⟨l, r, hl, hr, rfl⟩ := evaluate?_node_eq_some_iff.mp h
    simp [value?, ihl hl, ihr hr, last]

theorem isTruthyAt_eq (h : e.evaluate? t = some e') : e.isTruthyAt t = isTruthy e'.last := by
  rw [isTruthyAt, value?_eq_last h, Option.any_some]

theorem identifiers_evaluate? (h : e.evaluate? t = some e') : e'.identifiers = e.identifiers := by
  induction e generalizing e' with
  | leaf f =>
    obtain ⟨x, -, rfl⟩ := evaluate?_leaf_eq_some_iff.mp h
    rfl
  | node op left right m x ihl ihr =>
    obtain ⟨l, r, hl, hr, rfl⟩ := evaluate?_node_eq_some_iff.mp h
    rw [identifiers_node, identifiers_node, ihl hl, ihr hr]

end Evaluation

/-- What is explained below an operand, seen from its node: nothing if the operand is falsy. -/
def explainedBelow (t : Instant) (side : Side) (e : Tree) (nodes : List (Position × Tree)) :
    List (Position × Tree) :=
  if e.isTruthyAt t then nodes.map fun n => (side :: n.1, n.2) else []

/-- The operator nodes that are explained, each with its position and after those below it. -/
def explainedNodes (t : Instant) : Tree → List (Position × Tree)
  | .leaf _ => []
  | .node op left right m x =>
    explainedBelow t .left left (left.explainedNodes t) ++
      explainedBelow t .right right (right.explainedNodes t) ++ [([], .node op left right m x)]

/-- The nodes are those that an explanation of the tree must list, in the order in which it must
list them. -/
structure Explained (e : Tree) (t : Instant) (nodes : List (Position × Tree)) : Prop where
  once : (nodes.map (·.1)).Nodup
  order : nodes.Pairwise fun m n => m.1.Precedes n.1
  mem_iff : ∀ p v, (p, v) ∈ nodes ↔ e.at? p = some v ∧ v.isNode = true ∧
    ∀ q, q <+: p → q ≠ [] → ∃ w, e.at? q = some w ∧ w.isTruthyAt t = true

/-- The level of the node at a position. A message of the test puts all nodes but the root one
level deeper. -/
def levelAt (testMessage : Option String) (p : Position) : Nat :=
  match testMessage, p with
  | some _, _ :: _ => p.length + 1
  | _, _ => p.length

/-- What the node at a position contributes, of its values, its text and its identifiers. The root
contributes twice if the test has a message. -/
def contribution (testId : String) (testMessage : Option String) (t : Instant) (p : Position)
    (leftValue rightValue value : Float) (text : String) (identifiers : List String) :
    ResultGroup :=
  let result (level : Nat) (message : String) : PositiveResult :=
    { level, leftValue, rightValue, message, timestamp := t, testId }
  match testMessage, p with
  | some template, [] =>
    [result 1 text, result 0 (Message.substitute template t value identifiers)]
  | _, p => [result (levelAt testMessage p) text]

def results? (testId : String) (testMessage : Option String) (t : Instant) (p : Position) :
    Tree → Option ResultGroup
  | .leaf _ => some []
  | .node op left right m x => do
    let self := Tree.node op left right m x
    return contribution testId testMessage t p (← left.value? t) (← right.value? t)
      (← self.value? t) (← self.text? t) self.identifiers

section Nodes

variable {t : Instant} {e : Tree}

theorem mem_explainedBelow_iff {side side' : Side} {nodes : List (Position × Tree)} {p : Position}
    {v : Tree} : (side' :: p, v) ∈ explainedBelow t side e nodes ↔
      side' = side ∧ e.isTruthyAt t = true ∧ (p, v) ∈ nodes := by
  unfold explainedBelow
  split
  · next htrue =>
    rw [List.mem_map]
    constructor
    · rintro ⟨n, hn, hpv⟩
      cases hpv
      exact ⟨rfl, htrue, hn⟩
    · rintro ⟨rfl, -, hn⟩
      exact ⟨_, hn, rfl⟩
  · next hfalse =>
    constructor
    · intro h
      cases h
    · exact fun h => absurd h.2.1 hfalse

theorem root_notMem_explainedBelow {side : Side} {nodes : List (Position × Tree)} {v : Tree} :
    ([], v) ∉ explainedBelow t side e nodes := by
  unfold explainedBelow
  split <;> simp

theorem pairwise_explainedBelow {side : Side} {nodes : List (Position × Tree)}
    (h : nodes.Pairwise fun m n => m.1.Precedes n.1) :
    (explainedBelow t side e nodes).Pairwise fun m n => m.1.Precedes n.1 := by
  unfold explainedBelow
  split
  · exact List.pairwise_map.mpr (h.imp fun hmn => Position.precedes_cons_iff.mpr (.inr ⟨rfl, hmn⟩))
  · exact List.Pairwise.nil

theorem exists_cons_of_mem_explainedBelow {side : Side} {nodes : List (Position × Tree)}
    {n : Position × Tree} (h : n ∈ explainedBelow t side e nodes) : ∃ p, n.1 = side :: p := by
  unfold explainedBelow at h
  split at h
  · obtain ⟨m, -, rfl⟩ := List.mem_map.mp h
    exact ⟨m.1, rfl⟩
  · cases h

theorem pairwise_precedes_explainedNodes (t : Instant) (e : Tree) :
    (e.explainedNodes t).Pairwise fun m n => m.1.Precedes n.1 := by
  induction e with
  | leaf f => exact List.Pairwise.nil
  | node op left right m x ihl ihr =>
    rw [explainedNodes, List.pairwise_append, List.pairwise_append]
    refine ⟨⟨pairwise_explainedBelow ihl, pairwise_explainedBelow ihr, ?_⟩,
      List.pairwise_singleton _ _, ?_⟩
    · intro a ha b hb
      obtain ⟨p, hp⟩ := exists_cons_of_mem_explainedBelow ha
      obtain ⟨q, hq⟩ := exists_cons_of_mem_explainedBelow hb
      rw [hp, hq]
      exact Position.precedes_cons_iff.mpr (.inl ⟨rfl, rfl⟩)
    · intro a ha b hb
      rw [List.mem_singleton] at hb
      subst hb
      rcases List.mem_append.mp ha with ha | ha
      all_goals
        obtain ⟨p, hp⟩ := exists_cons_of_mem_explainedBelow ha
        rw [hp]
        exact Position.precedes_root _ p

theorem mem_explainedNodes_cons_iff {op : Operator} {left right : Tree} {m : Option String}
    {x : Float} {side : Side} {p : Position} {v : Tree} :
    (side :: p, v) ∈ (node op left right m x).explainedNodes t ↔
      ∃ c, (node op left right m x).at? [side] = some c ∧ c.isTruthyAt t = true ∧
        (p, v) ∈ c.explainedNodes t := by
  cases side <;> simp [explainedNodes, mem_explainedBelow_iff, at?]

/-- A condition on the positions from below the root down, seen from the operand where they start. -/
theorem forall_prefix_cons_iff {side : Side} {p : Position} {P : Position → Prop} :
    (∀ q, q <+: side :: p → q ≠ [] → P q) ↔
      P [side] ∧ ∀ q, q <+: p → q ≠ [] → P (side :: q) := by
  constructor
  · intro h
    refine ⟨h [side] ?_ (List.cons_ne_nil _ _), fun q hq _ => h (side :: q) ?_ (List.cons_ne_nil _ _)⟩
    · exact (List.prefix_cons_inj side).mpr List.nil_prefix
    · exact (List.prefix_cons_inj side).mpr hq
  · rintro ⟨hside, hbelow⟩ q hq hne
    obtain ⟨s, q, rfl⟩ := List.exists_cons_of_ne_nil hne
    obtain ⟨rfl, hqp⟩ := List.cons_prefix_cons.mp hq
    by_cases hnil : q = []
    · rw [hnil]
      exact hside
    · exact hbelow q hqp hnil

theorem mem_explainedNodes_iff {p : Position} {v : Tree} :
    (p, v) ∈ e.explainedNodes t ↔ e.at? p = some v ∧ v.isNode = true ∧
      ∀ q, q <+: p → q ≠ [] → ∃ w, e.at? q = some w ∧ w.isTruthyAt t = true := by
  induction e generalizing p with
  | leaf f =>
    cases p with
    | nil =>
      simp only [explainedNodes, List.not_mem_nil, at?_nil, Option.some.injEq, false_iff]
      rintro ⟨rfl, hnode, -⟩
      cases hnode
    | cons side p => simp [explainedNodes, at?]
  | node op left right m x ihl ihr =>
    cases p with
    | nil =>
      simp only [explainedNodes, List.mem_append, root_notMem_explainedBelow, false_or,
        List.mem_singleton, Prod.mk.injEq, true_and, at?_nil, Option.some.injEq, List.prefix_nil]
      constructor
      · rintro rfl
        exact ⟨rfl, rfl, fun q hq hne => absurd hq hne⟩
      · exact fun h => h.1.symm
    | cons side p =>
      rw [mem_explainedNodes_cons_iff, forall_prefix_cons_iff]
      cases side with
      | left =>
        simp only [at?, at?_nil, Option.some.injEq, exists_eq_left', ihl]
        exact ⟨fun ⟨ht, hp, hv, hq⟩ => ⟨hp, hv, ht, hq⟩, fun ⟨hp, hv, ht, hq⟩ => ⟨ht, hp, hv, hq⟩⟩
      | right =>
        simp only [at?, at?_nil, Option.some.injEq, exists_eq_left', ihr]
        exact ⟨fun ⟨ht, hp, hv, hq⟩ => ⟨hp, hv, ht, hq⟩, fun ⟨hp, hv, ht, hq⟩ => ⟨ht, hp, hv, hq⟩⟩

theorem explained_explainedNodes (t : Instant) (e : Tree) : Explained e t (e.explainedNodes t) where
  once := List.pairwise_map.mpr <|
    (pairwise_precedes_explainedNodes t e).imp fun h => h.ne
  order := pairwise_precedes_explainedNodes t e
  mem_iff _ _ := mem_explainedNodes_iff

end Nodes

section Results

variable {t : Instant} {testId : String} {testMessage : Option String}

theorem levelAt_root : levelAt testMessage [] = 0 := by cases testMessage <;> rfl

theorem results?_node {op : Operator} {left right l r : Tree} {m : Option String} {x : Float}
    (p : Position) (hl : left.evaluate? t = some l) (hr : right.evaluate? t = some r) :
    (node op left right m x).results? testId testMessage t p =
      let self := node op l r m (op.apply l.last r.last)
      some (contribution testId testMessage t p l.last r.last self.last (self.explanation t)
        self.identifiers) := by
  have hself : (node op left right m x).evaluate? t = some (node op l r m (op.apply l.last r.last)) :=
    evaluate?_node_eq_some_iff.mpr ⟨l, r, hl, hr, rfl⟩
  simp only [results?, text?, value?_eq_last hl, value?_eq_last hr, value?_eq_last hself, hself,
    identifiers_evaluate? hself, Option.map_some, Option.bind_eq_bind, Option.bind_some,
    Option.pure_def]

def explainOperand (testId : String) (testMessage : Option String) (t : Instant) (level : Nat)
    (e : Tree) : ResultGroup :=
  if e.isNode && isTruthy e.last then e.explain testId testMessage t level else []

theorem explain_node (op : Operator) (l r : Tree) (m : Option String) (x : Float) (p : Position) :
    (node op l r m x).explain testId testMessage t (levelAt testMessage p) =
      explainOperand testId testMessage t (levelAt testMessage (p ++ [.left])) l ++
        explainOperand testId testMessage t (levelAt testMessage (p ++ [.right])) r ++
        contribution testId testMessage t p l.last r.last x ((node op l r m x).explanation t)
          (node op l r m x).identifiers := by
  cases testMessage with
  | none => simp [explain, explainOperand, contribution, levelAt]
  | some template => cases p <;> simp [explain, explainOperand, contribution, levelAt]

theorem explainOperand_eq {p : Position} {side : Side} {c c' : Tree} {groups : List ResultGroup}
    (hc : c.evaluate? t = some c')
    (hnodes : (c.explainedNodes t).map (fun n =>
      n.2.results? testId testMessage t (p ++ [side] ++ n.1)) = groups.map some)
    (hexplain : c'.explain testId testMessage t (levelAt testMessage (p ++ [side])) =
      groups.flatten) :
    ∃ shown : List ResultGroup,
      (explainedBelow t side c (c.explainedNodes t)).map (fun n =>
        n.2.results? testId testMessage t (p ++ n.1)) = shown.map some ∧
      explainOperand testId testMessage t (levelAt testMessage (p ++ [side])) c' =
        shown.flatten := by
  by_cases htrue : isTruthy c'.last = true
  · refine ⟨groups, ?_, ?_⟩
    · rw [explainedBelow, isTruthyAt_eq hc, if_pos htrue, List.map_map, ← hnodes]
      exact List.map_congr_left fun n _ => by simp
    · rw [← hexplain, explainOperand, htrue]
      cases c' <;> rfl
  · refine ⟨[], ?_, ?_⟩
    · rw [explainedBelow, isTruthyAt_eq hc, if_neg htrue]
      rfl
    · rw [explainOperand, eq_false_of_ne_true htrue, Bool.and_false]
      rfl

/-- What an evaluated subtree explains at the level of its position is what its explained nodes
contribute there. -/
theorem explain_levelAt {e e' : Tree} (p : Position) (h : e.evaluate? t = some e') :
    ∃ groups : List ResultGroup,
      (e.explainedNodes t).map (fun n => n.2.results? testId testMessage t (p ++ n.1)) =
        groups.map some ∧
      e'.explain testId testMessage t (levelAt testMessage p) = groups.flatten := by
  -- An operand is explained at its own position, so the induction is over all positions.
  induction e generalizing e' p with
  | leaf f =>
    obtain ⟨x, -, rfl⟩ := evaluate?_leaf_eq_some_iff.mp h
    exact ⟨[], rfl, rfl⟩
  | node op left right m x ihl ihr =>
    obtain ⟨l, r, hl, hr, rfl⟩ := evaluate?_node_eq_some_iff.mp h
    obtain ⟨_, hnodes, hexplain⟩ := ihl (p ++ [.left]) hl
    obtain ⟨ls, hls, hleft⟩ := explainOperand_eq hl hnodes hexplain
    obtain ⟨_, hnodes, hexplain⟩ := ihr (p ++ [.right]) hr
    obtain ⟨rs, hrs, hright⟩ := explainOperand_eq hr hnodes hexplain
    let self := node op l r m (op.apply l.last r.last)
    refine ⟨ls ++ rs ++ [contribution testId testMessage t p l.last r.last self.last
      (self.explanation t) self.identifiers], ?_, ?_⟩
    · rw [explainedNodes, List.map_append, List.map_append, hls, hrs, List.map_singleton,
        List.append_nil, results?_node p hl hr, List.map_append, List.map_append,
        List.map_singleton]
    · rw [explain_node, hleft, hright, List.flatten_append, List.flatten_append,
        List.flatten_singleton]
      rfl

def above (x y : Float) : Tree :=
  ofOperator .greaterThan (.leaf (.ofConstant x)) (.leaf (.ofConstant y)) none

/-- A conjunction with one truthy operand, and beside it a truthy comparison. -/
def lopsided : Tree :=
  ofOperator .or (ofOperator .and (above 1 2) (above 2 1) none) (above 2 1) none

/-- A tree whose leaves have values explains itself by what its explained nodes contribute, one
after the other. -/
theorem explain_evaluate? (testId : String) (testMessage : Option String) (t : Instant) (e : Tree)
    (h : ∀ f ∈ e.leaves, (f.value? t).isSome) :
    ∃ (e' : Tree) (groups : List ResultGroup), e.evaluate? t = some e' ∧
      Explained e t (e.explainedNodes t) ∧
      (e.explainedNodes t).map (fun n => n.2.results? testId testMessage t n.1) =
        groups.map some ∧
      e'.explain testId testMessage t 0 = groups.flatten := by
  obtain ⟨e', he'⟩ := Option.isSome_iff_exists.mp (isSome_evaluate?_iff.mpr h)
  obtain ⟨groups, hgroups, hexplain⟩ := explain_levelAt [] he'
  rw [levelAt_root] at hexplain
  exact ⟨e', groups, he', explained_explainedNodes t e, hgroups, hexplain⟩

/-- The truthy comparison below the falsy conjunction is not listed. -/
theorem explain_evaluate?_lopsided :
    (∀ f ∈ lopsided.leaves, (f.value? ⟨0⟩).isSome) ∧
    (lopsided.explainedNodes ⟨0⟩).map (·.1) = [[.right], []] ∧
    ∃ (e' : Tree) (groups : List ResultGroup), lopsided.evaluate? ⟨0⟩ = some e' ∧
      Explained lopsided ⟨0⟩ (lopsided.explainedNodes ⟨0⟩) ∧
      (lopsided.explainedNodes ⟨0⟩).map (fun n => n.2.results? "gate" (some "high") ⟨0⟩ n.1) =
        groups.map some ∧
      e'.explain "gate" (some "high") ⟨0⟩ 0 = groups.flatten :=
  ⟨by decide, by decide +kernel,
    explain_evaluate? "gate" (some "high") ⟨0⟩ lopsided (by decide)⟩

end Results

end Tree
end SeriesAlarm
