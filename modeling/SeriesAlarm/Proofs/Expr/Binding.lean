import SeriesAlarm.Proofs.Expr.Evaluation

/-!
# What a tree is bound to

Binding a tree to a source fills each slot with the series that the source answers with, so the
intervals of the bound tree are those of the answers.
-/

namespace SeriesAlarm

variable {source : Source} {first last : Instant}

namespace Resolution

def series? : Resolution → Option Series
  | .series s => some s
  | _ => none

theorem series?_eq_some_iff {r : Resolution} {s : Series} : r.series? = some s ↔ r = .series s := by
  cases r <;> simp [series?]

end Resolution

namespace Leaf

theorem exists_bindFrom {ids : List String} (h : ∀ id ∈ ids, source.resolve id first last ≠ .fault) :
    ∃ slots ok, bindFrom source first last ids = some (slots, ok) := by
  induction ids with
  | nil => exact ⟨_, _, rfl⟩
  | cons id ids ih =>
    obtain ⟨slots, ok, hrest⟩ := ih fun id' hid => h id' (List.mem_cons_of_mem id hid)
    have hfault := h id List.mem_cons_self
    unfold bindFrom
    cases hanswer : source.resolve id first last with
    | series s => exact ⟨_, _, by rw [hrest]; rfl⟩
    | error e => exact ⟨_, _, by rw [hrest]; rfl⟩
    | silent => exact ⟨_, _, by rw [hrest]; rfl⟩
    | fault => exact absurd hanswer hfault

/-- The slots hold the answers of the source, and nothing where it had none. -/
theorem bindFrom_slots {ids : List String} {slots : List (Option Series)} {ok : Bool}
    (h : bindFrom source first last ids = some (slots, ok)) :
    slots = ids.map fun id => (source.resolve id first last).series? := by
  induction ids generalizing slots ok with
  | nil =>
    cases h
    rfl
  | cons id ids ih =>
    unfold bindFrom at h
    cases hanswer : source.resolve id first last <;> rw [hanswer] at h
    case fault => cases h
    all_goals
      obtain ⟨⟨slots', ok'⟩, hrest, heq⟩ := Option.map_eq_some_iff.mp h
      cases heq
      rw [List.map_cons, hanswer, ih hrest]
      rfl

theorem mem_bindFrom {ids : List String} {slots : List (Option Series)} {ok : Bool} {s : Series}
    (h : bindFrom source first last ids = some (slots, ok)) :
    some s ∈ slots ↔ ∃ id ∈ ids, source.resolve id first last = .series s := by
  rw [bindFrom_slots h, List.mem_map]
  simp only [Resolution.series?_eq_some_iff]

end Leaf

namespace Tree

theorem identifiers_leaf (f : Leaf) : (leaf f).identifiers = f.inputs := List.flatMap_singleton _ _

theorem identifiers_node (op : Operator) (left right : Tree) (m : Option String) (x : Float) :
    (node op left right m x).identifiers = left.identifiers ++ right.identifiers :=
  List.flatMap_append

/-- Binding succeeds unless the source faults. -/
theorem exists_resolve? {e : Tree}
    (h : ∀ id ∈ e.identifiers, source.resolve id first last ≠ .fault) :
    ∃ e' oks, e.resolve? source first last = some (e', oks) := by
  induction e with
  | leaf f =>
    rw [identifiers_leaf] at h
    obtain ⟨slots, ok, hslots⟩ := Leaf.exists_bindFrom h
    exact ⟨leaf { f with bound := slots }, [ok], by simp [resolve?, Leaf.resolve?, hslots]⟩
  | node op left right m x ihl ihr =>
    rw [identifiers_node] at h
    obtain ⟨l, ls, hl⟩ := ihl fun id hid => h id (List.mem_append_left _ hid)
    obtain ⟨r, rs, hr⟩ := ihr fun id hid => h id (List.mem_append_right _ hid)
    exact ⟨node op l r m x, ls ++ rs, by simp [resolve?, hl, hr]⟩

theorem bound_of_resolve? {e e' : Tree} {oks : List Bool}
    (h : e.resolve? source first last = some (e', oks)) :
    ∀ f ∈ e'.leaves, f.bound = f.inputs.map fun id => (source.resolve id first last).series? := by
  induction e generalizing e' oks with
  | leaf f =>
    obtain ⟨⟨f', ok⟩, hf, heq⟩ := Option.map_eq_some_iff.mp h
    cases heq
    obtain ⟨⟨slots, ok'⟩, hslots, heq⟩ := Option.map_eq_some_iff.mp hf
    cases heq
    rw [leaves, List.forall_mem_singleton]
    exact Leaf.bindFrom_slots hslots
  | node op left right m x ihl ihr =>
    simp only [resolve?, Option.bind_eq_bind, Option.bind_eq_some_iff] at h
    obtain ⟨⟨l, ls⟩, hl, ⟨r, rs⟩, hr, heq⟩ := h
    cases heq
    rw [leaves, List.forall_mem_append]
    exact ⟨ihl hl, ihr hr⟩

theorem mem_boundIntervals_resolve? {e e' : Tree} {oks : List Bool} {i : Interval}
    (h : e.resolve? source first last = some (e', oks)) :
    i ∈ e'.boundIntervals ↔
      ∃ id ∈ e.identifiers, ∃ s, source.resolve id first last = .series s ∧ s.interval = i := by
  induction e generalizing e' oks with
  | leaf f =>
    obtain ⟨⟨f', ok⟩, hf, heq⟩ := Option.map_eq_some_iff.mp h
    cases heq
    obtain ⟨⟨slots, ok'⟩, hslots, heq⟩ := Option.map_eq_some_iff.mp hf
    cases heq
    rw [boundIntervals_leaf, identifiers_leaf, Leaf.mem_boundIntervals_iff]
    constructor
    · rintro ⟨s, hs, hi⟩
      obtain ⟨id, hid, hanswer⟩ := (Leaf.mem_bindFrom hslots).mp hs
      exact ⟨id, hid, s, hanswer, hi⟩
    · rintro ⟨id, hid, s, hanswer, hi⟩
      exact ⟨s, (Leaf.mem_bindFrom hslots).mpr ⟨id, hid, hanswer⟩, hi⟩
  | node op left right m x ihl ihr =>
    simp only [resolve?, Option.bind_eq_bind, Option.bind_eq_some_iff] at h
    obtain ⟨⟨l, ls⟩, hl, ⟨r, rs⟩, hr, heq⟩ := h
    cases heq
    rw [boundIntervals_node, identifiers_node, List.mem_append, ihl hl, ihr hr]
    simp only [List.mem_append, or_and_right, exists_or]

end Tree
end SeriesAlarm
