import SeriesAlarm.Expr.Tree

/-!
# Evaluation and the shape of a tree

Binding and evaluating a tree change values and slots, never the operators.
-/

namespace SeriesAlarm
namespace Tree

theorem isNode_mapLeaves (g : Leaf → Leaf) (e : Tree) : (e.mapLeaves g).isNode = e.isNode := by
  cases e <;> rfl

section Evaluate

variable {t : Instant} {e e' : Tree}

theorem evaluate?_node_eq_some_iff {op : Operator} {left right : Tree} {m : Option String}
    {x : Float} : (node op left right m x).evaluate? t = some e' ↔
      ∃ l r, left.evaluate? t = some l ∧ right.evaluate? t = some r ∧
        e' = node op l r m (op.apply l.last r.last) := by
  simp only [evaluate?, Option.bind_eq_bind, Option.bind_eq_some_iff, Option.pure_def,
    Option.some.injEq]
  constructor
  · rintro ⟨l, hl, r, hr, rfl⟩
    exact ⟨l, r, hl, hr, rfl⟩
  · rintro ⟨l, r, hl, hr, rfl⟩
    exact ⟨l, hl, r, hr, rfl⟩

theorem evaluate?_leaf_eq_some_iff {f : Leaf} :
    (leaf f).evaluate? t = some e' ↔ ∃ x, f.value? t = some x ∧ e' = leaf { f with last := x } := by
  simp only [evaluate?, Leaf.evaluate?, Option.map_map, Option.map_eq_some_iff, Function.comp_apply]
  exact exists_congr fun x => and_congr_right fun _ => eq_comm

theorem isNode_evaluate? (h : e.evaluate? t = some e') : e'.isNode = e.isNode := by
  cases e with
  | leaf f =>
    obtain ⟨x, -, rfl⟩ := evaluate?_leaf_eq_some_iff.mp h
    rfl
  | node op left right m x =>
    obtain ⟨l, r, -, -, rfl⟩ := evaluate?_node_eq_some_iff.mp h
    rfl

end Evaluate

theorem isNode_resolve? {source : Source} {first last : Instant} {e e' : Tree} {oks : List Bool}
    (h : e.resolve? source first last = some (e', oks)) : e'.isNode = e.isNode := by
  cases e with
  | leaf f =>
    obtain ⟨⟨f', ok⟩, -, hf⟩ := Option.map_eq_some_iff.mp h
    cases hf
    rfl
  | node op left right m x =>
    simp only [resolve?, Option.bind_eq_bind, Option.bind_eq_some_iff] at h
    obtain ⟨⟨l, ls⟩, -, ⟨r, rs⟩, -, hr⟩ := h
    cases hr
    rfl

def boundIntervals (e : Tree) : List Interval := e.leaves.flatMap (·.boundIntervals)

theorem boundIntervals_node (op : Operator) (left right : Tree) (m : Option String) (x : Float) :
    (node op left right m x).boundIntervals = left.boundIntervals ++ right.boundIntervals :=
  List.flatMap_append

theorem boundIntervals_leaf (f : Leaf) : (leaf f).boundIntervals = f.boundIntervals :=
  List.flatMap_singleton _ _

end Tree

namespace Leaf

theorem mem_boundIntervals_iff {f : Leaf} {i : Interval} :
    i ∈ f.boundIntervals ↔ ∃ s, some s ∈ f.bound ∧ s.interval = i := by
  unfold boundIntervals
  rw [List.mem_filterMap]
  constructor
  · rintro ⟨slot, hslot, hi⟩
    obtain ⟨s, rfl, hs⟩ := Option.map_eq_some_iff.mp hi
    exact ⟨s, hslot, hs⟩
  · rintro ⟨s, hslot, rfl⟩
    exact ⟨some s, hslot, rfl⟩

theorem mem_boundIntervals {f : Leaf} {position : Nat} {s : Series}
    (h : f.series? position = some s) : s.interval ∈ f.boundIntervals := by
  have hslot : f.bound[position]? = some (some s) := Option.join_eq_some_iff.mp h
  exact mem_boundIntervals_iff.mpr ⟨s, List.mem_of_getElem? hslot, rfl⟩

theorem exists_value? {f : Leaf} {t : Instant}
    (h : ∀ i ∈ f.boundIntervals, (i.next? t).isSome) : ∃ x, f.value? t = some x := by
  cases hkind : f.kind with
  | delta =>
    simp only [value?, hkind, delta?]
    cases hseries : f.series? 0 with
    | none => exact ⟨_, rfl⟩
    | some s =>
      obtain ⟨next, hnext⟩ := Option.isSome_iff_exists.mp (h _ (mem_boundIntervals hseries))
      dsimp only
      rw [hnext]
      exact ⟨_, rfl⟩
  | _ =>
    simp only [value?, hkind]
    exact ⟨_, rfl⟩

end Leaf

namespace Tree

/-- Evaluating binds nothing, and succeeds unless looking ahead leaves the calendar. -/
theorem exists_evaluate? {t : Instant} {e : Tree}
    (h : ∀ i ∈ e.boundIntervals, (i.next? t).isSome) :
    ∃ e', e.evaluate? t = some e' ∧ e'.boundIntervals = e.boundIntervals := by
  induction e with
  | leaf f =>
    rw [boundIntervals_leaf] at h
    obtain ⟨x, hx⟩ := Leaf.exists_value? h
    exact ⟨leaf { f with last := x }, evaluate?_leaf_eq_some_iff.mpr ⟨x, hx, rfl⟩, rfl⟩
  | node op left right m x ihl ihr =>
    rw [boundIntervals_node] at h
    obtain ⟨l, hl, hleft⟩ := ihl fun i hi => h i (List.mem_append_left _ hi)
    obtain ⟨r, hr, hright⟩ := ihr fun i hi => h i (List.mem_append_right _ hi)
    refine ⟨_, evaluate?_node_eq_some_iff.mpr ⟨l, r, hl, hr, rfl⟩, ?_⟩
    rw [boundIntervals_node, boundIntervals_node, hleft, hright]

end Tree
end SeriesAlarm
