import SeriesAlarm.Proofs.Expr.Evaluation

/-!
# Values that nothing reads

Between two passes a tree remembers the values of its latest evaluation and the series it was bound
to. Binding depends on neither of them, and evaluating does not depend on the values.
-/

namespace SeriesAlarm

namespace Leaf

def dry (f : Leaf) : Leaf := { f with last := notANumber }

def bare (f : Leaf) : Leaf := { f.dry with bound := [] }

theorem resolve?_bare (f : Leaf) (source : Source) (first last : Instant) :
    (f.bare.resolve? source first last).map (fun x => (x.1.dry, x.2)) =
      (f.resolve? source first last).map fun x => (x.1.dry, x.2) := by
  change ((bindFrom source first last f.inputs).map _).map _ =
    ((bindFrom source first last f.inputs).map _).map _
  cases bindFrom source first last f.inputs <;> rfl

end Leaf

namespace Tree

/-- The tree without the values of its latest evaluation. -/
def dry : Tree → Tree
  | .leaf f => .leaf f.dry
  | .node op left right message _ => .node op left.dry right.dry message notANumber

/-- The tree without its values and its series. -/
def bare : Tree → Tree
  | .leaf f => .leaf f.bare
  | .node op left right message _ => .node op left.bare right.bare message notANumber

@[simp] theorem dry_dry (e : Tree) : e.dry.dry = e.dry := by
  induction e with
  | leaf f => rfl
  | node op left right message x ihl ihr => rw [dry, dry, ihl, ihr]

@[simp] theorem bare_dry (e : Tree) : e.dry.bare = e.bare := by
  induction e with
  | leaf f => rfl
  | node op left right message x ihl ihr => rw [dry, bare, bare, ihl, ihr]

@[simp] theorem bare_bare (e : Tree) : e.bare.bare = e.bare := by
  induction e with
  | leaf f => rfl
  | node op left right message x ihl ihr => rw [bare, bare, ihl, ihr]

/-- An evaluation does not read what the one before it left. -/
theorem evaluate?_dry (e : Tree) (t : Instant) : e.dry.evaluate? t = e.evaluate? t := by
  induction e with
  | leaf f => rfl
  | node op left right message x ihl ihr =>
    simp only [dry, evaluate?, ihl, ihr]

theorem dry_evaluate? {e e' : Tree} {t : Instant} (h : e.evaluate? t = some e') :
    e'.dry = e.dry := by
  induction e generalizing e' with
  | leaf f =>
    obtain ⟨x, -, rfl⟩ := evaluate?_leaf_eq_some_iff.mp h
    rfl
  | node op left right message x ihl ihr =>
    obtain ⟨l, r, hl, hr, rfl⟩ := evaluate?_node_eq_some_iff.mp h
    rw [dry, dry, ihl hl, ihr hr]

theorem bare_evaluate? {e e' : Tree} {t : Instant} (h : e.evaluate? t = some e') :
    e'.bare = e.bare := by
  rw [← bare_dry, dry_evaluate? h, bare_dry]

/-- Binding reads neither values nor series. -/
theorem resolve?_bare (e : Tree) (source : Source) (first last : Instant) :
    (e.bare.resolve? source first last).map (fun x => (x.1.dry, x.2)) =
      (e.resolve? source first last).map fun x => (x.1.dry, x.2) := by
  induction e with
  | leaf f =>
    have hleaf (f : Leaf) : ((Tree.leaf f).resolve? source first last).map (fun x => (x.1.dry, x.2)) =
        ((f.resolve? source first last).map fun x => (x.1.dry, x.2)).map fun x =>
          (Tree.leaf x.1, [x.2]) := by
      simp only [resolve?]
      cases f.resolve? source first last <;> rfl
    rw [bare, hleaf, hleaf, f.resolve?_bare]
  | node op left right message x ihl ihr =>
    have hnode (l r : Tree) (x : Float) :
        ((Tree.node op l r message x).resolve? source first last).map (fun x => (x.1.dry, x.2)) = do
          let l ← (l.resolve? source first last).map fun x => (x.1.dry, x.2)
          let r ← (r.resolve? source first last).map fun x => (x.1.dry, x.2)
          return (.node op l.1 r.1 message notANumber, l.2 ++ r.2) := by
      simp only [resolve?]
      cases l.resolve? source first last <;> cases r.resolve? source first last <;> rfl
    rw [bare, hnode, hnode, ihl, ihr]

theorem bare_resolve? {e e' : Tree} {source : Source} {first last : Instant} {oks : List Bool}
    (h : e.resolve? source first last = some (e', oks)) : e'.bare = e.bare := by
  induction e generalizing e' oks with
  | leaf f =>
    obtain ⟨⟨f', ok⟩, hf', h⟩ := Option.map_eq_some_iff.mp h
    cases h
    obtain ⟨⟨slots, ok'⟩, -, h⟩ := Option.map_eq_some_iff.mp hf'
    cases h
    rfl
  | node op left right message x ihl ihr =>
    obtain ⟨⟨l, ls⟩, hl, h⟩ := Option.bind_eq_some_iff.mp h
    obtain ⟨⟨r, rs⟩, hr, h⟩ := Option.bind_eq_some_iff.mp h
    cases h
    rw [bare, bare, ihl hl, ihr hr]

theorem leaves_dry (e : Tree) : e.dry.leaves = e.leaves.map Leaf.dry := by
  induction e with
  | leaf f => rfl
  | node op left right message x ihl ihr => rw [dry, leaves, leaves, ihl, ihr, List.map_append]

theorem intervals_dry (e : Tree) :
    e.dry.leaves.flatMap (·.boundIntervals) = e.leaves.flatMap (·.boundIntervals) := by
  rw [leaves_dry, List.flatMap_map]
  rfl

end Tree
end SeriesAlarm
