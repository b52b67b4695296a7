import SeriesAlarm.Proofs.Expr.Positions
import SeriesAlarm.Proofs.Rule.Built

/-!
# Trees of formulas

A formula is built if its leaves are sound, and the tree that it builds mirrors it node by node. Of the
leaves that are not sound the leftmost is reported, by the sides that lead to it.
-/

namespace SeriesAlarm

def Side.step : Side → String
  | .left => ".left"
  | .right => ".right"

def Position.path (above : String) (p : Position) : String :=
  p.foldl (fun path side => path ++ side.step) above

theorem Leaf.ofInputs_eq_ok_iff {kind : FunctionKind} {inputs : List String} {f : Leaf} :
    ofInputs kind inputs = .ok f ↔ (kind ≠ .constant ∧ inputs.length = kind.arity ∧
      ∀ id ∈ inputs, isBlankText id = false) ∧
        f = { kind, inputs, bound := inputs.map fun _ => none } := by
  unfold ofInputs
  split
  · next h => simp [h]
  · next hkind =>
    split
    · next h => simp [h]
    · next hcount =>
      split
      · next i hblank =>
        have hsome : ¬ ∀ id ∈ inputs, isBlankText id = false := by
          rw [← List.findIdx?_eq_none_iff, hblank]
          exact Option.some_ne_none i
        simp [hsome]
      · next hblank =>
        have hnone := List.findIdx?_eq_none_iff.mp hblank
        simp only [Except.ok.injEq, eq_comm (b := f)]
        exact (and_iff_right ⟨hkind, not_not.mp hcount, hnone⟩).symm

namespace Formula

def isOperation : Formula → Bool
  | .operation .. => true
  | _ => false

def leaves : Formula → List Formula
  | .operation _ left right _ => left.leaves ++ right.leaves
  | f => [f]

def at? : Formula → Position → Option Formula
  | f, [] => some f
  | .operation _ left _ _, .left :: p => left.at? p
  | .operation _ _ right _, .right :: p => right.at? p
  | _, _ :: _ => none

/-- A constant that is finite, or a function of as many identifiers as it takes, none of them blank,
with no missing value that is not finite. -/
def IsSound : Formula → Prop
  | .operation .. => False
  | .function kind args _ missingValue =>
    kind ≠ .constant ∧ args.length = kind.arity ∧ (∀ id ∈ args, Leaf.isBlankText id = false) ∧
      ∀ x ∈ missingValue, x.isFinite = true
  | .constant x _ => x.isFinite = true

/-- A new tree that is the formula node by node: nothing is bound and nothing evaluated. -/
inductive Mirrors : Formula → Tree → Prop
  | operation {op : Operator} {left right : Formula} {l r : Tree} {message : Option String} :
    Mirrors left l → Mirrors right r →
      Mirrors (.operation op left right message) (.node op l r message notANumber)
  | function {kind : FunctionKind} {args : List String} {message : Option String}
    {missingValue : Option Float} : kind ≠ .constant →
      Mirrors (.function kind args message missingValue)
        (.leaf { kind, inputs := args, message, missingValue, bound := args.map fun _ => none })
  | constant {x : Float} {message : Option String} :
    Mirrors (.constant x message) (.leaf { kind := .constant, constant := x, message })

variable {f g : Formula} {e : Tree} {path : String} {p : Position}

theorem Mirrors.isNode (h : Mirrors f e) : e.isNode = f.isOperation := by
  cases h <;> rfl

theorem Mirrors.leaves (h : Mirrors f e) :
    List.Forall₂ (fun g leaf => Mirrors g (.leaf leaf)) f.leaves e.leaves := by
  induction h with
  | operation _ _ ihl ihr => exact List.rel_append ihl ihr
  | function hkind => exact .cons (.function hkind) .nil
  | constant => exact .cons .constant .nil

@[simp] theorem at?_nil (f : Formula) : f.at? [] = some f := by cases f <;> rfl

theorem at?_eq_some_of_leaf (hleaf : f.isOperation = false) (h : f.at? p = some g) :
    p = [] ∧ g = f := by
  cases p with
  | nil =>
    rw [at?_nil, Option.some.injEq] at h
    exact ⟨rfl, h.symm⟩
  | cons side p => cases f <;> simp [at?, isOperation] at h hleaf

theorem mem_leaves_of_at? (h : f.at? p = some g) (hleaf : g.isOperation = false) :
    g ∈ f.leaves := by
  induction f generalizing p with
  | operation op left right message ihl ihr =>
    cases p with
    | nil =>
      cases h
      cases hleaf
    | cons side p =>
      cases side with
      | left => exact List.mem_append_left _ (ihl h)
      | right => exact List.mem_append_right _ (ihr h)
  | function kind args message missingValue =>
    exact List.mem_singleton.mpr (at?_eq_some_of_leaf rfl h).2
  | constant x message => exact List.mem_singleton.mpr (at?_eq_some_of_leaf rfl h).2

theorem leaves_of_leaf (hleaf : f.isOperation = false) : f.leaves = [f] := by
  cases f with
  | operation op left right message => cases hleaf
  | function kind args message missingValue => rfl
  | constant x message => rfl

theorem build_function_eq_ok_iff {kind : FunctionKind} {args : List String} {message : Option String}
    {missingValue : Option Float} :
    (function kind args message missingValue).build path = .ok e ↔
      (function kind args message missingValue).IsSound ∧
        e = .leaf { kind, inputs := args, message, missingValue, bound := args.map fun _ => none } := by
  have hany : (missingValue.any fun x => !x.isFinite) = true ↔
      ¬ ∀ x ∈ missingValue, x.isFinite = true := by
    cases missingValue <;> simp
  simp only [build, IsSound]
  split
  · next hkind => simp [hkind]
  · next hkind =>
    split
    · next hmissing =>
      refine iff_of_false (fun h => by cases h) fun h => hany.mp hmissing h.1.2.2.2
    · next hmissing =>
      have hnone := not_not.mp (hany.not.mp hmissing)
      simp only [map_eq_ok, atField_eq_ok, Leaf.ofInputs_eq_ok_iff]
      constructor
      · rintro ⟨f, ⟨⟨-, hcount, hblank⟩, rfl⟩, rfl⟩
        exact ⟨⟨hkind, hcount, hblank, hnone⟩, rfl⟩
      · rintro ⟨⟨-, hcount, hblank, -⟩, rfl⟩
        exact ⟨_, ⟨⟨hkind, hcount, hblank⟩, rfl⟩, rfl⟩

theorem build_constant_eq_ok_iff {x : Float} {message : Option String} :
    (constant x message).build path = .ok e ↔
      (constant x message).IsSound ∧ e = .leaf { kind := .constant, constant := x, message } := by
  simp only [build, IsSound]
  split
  · next hfinite => simp [hfinite, Leaf.ofConstant, eq_comm]
  · next hfinite => simp [hfinite]

/-- A formula builds what mirrors it, if its leaves are sound. -/
theorem build_eq_ok_iff :
    f.build path = .ok e ↔ (∀ g ∈ f.leaves, g.IsSound) ∧ Mirrors f e := by
  induction f generalizing path e with
  | operation op left right message ihl ihr =>
    simp only [build, leaves, List.forall_mem_append]
    constructor
    · intro h
      obtain ⟨l, hl, h⟩ := bind_eq_ok.mp h
      obtain ⟨r, hr, h⟩ := bind_eq_ok.mp h
      cases h
      exact ⟨⟨(ihl.mp hl).1, (ihr.mp hr).1⟩, .operation (ihl.mp hl).2 (ihr.mp hr).2⟩
    · rintro ⟨⟨hleft, hright⟩, h⟩
      cases h with
      | operation hl hr =>
        refine bind_eq_ok.mpr ⟨_, ihl.mpr ⟨hleft, hl⟩, bind_eq_ok.mpr ⟨_, ihr.mpr ⟨hright, hr⟩, rfl⟩⟩
  | function kind args message missingValue =>
    rw [build_function_eq_ok_iff, leaves_of_leaf rfl, List.forall_mem_singleton]
    refine and_congr_right fun hsound => ⟨?_, fun h => ?_⟩
    · rintro rfl
      exact .function hsound.1
    · cases h
      rfl
  | constant x message =>
    rw [build_constant_eq_ok_iff, leaves_of_leaf rfl, List.forall_mem_singleton]
    refine and_congr_right fun hsound => ⟨?_, fun h => ?_⟩
    · rintro rfl
      exact .constant
    · cases h
      rfl

/-- What is reported: a leaf that is not sound, by its own position and problem, while every leaf that
precedes it is sound. -/
structure Reports (f : Formula) (above : String) (p : Position) (g : Formula) (error : BuildError) :
    Prop where
  at_position : f.at? p = some g
  leaf : g.isOperation = false
  unsound : ¬ g.IsSound
  leftmost : ∀ q g', f.at? q = some g' → g'.isOperation = false → q.Precedes p → g'.IsSound
  path : error.path = p.path above
  own : g.build (p.path above) = .error error

theorem path_of_leaf (hleaf : f.isOperation = false) {error : BuildError}
    (h : f.build path = .error error) : error.path = path := by
  cases f with
  | operation op left right message => cases hleaf
  | function kind args message missingValue =>
    simp only [build] at h
    split at h
    · cases h
      rfl
    · split at h
      · cases h
        rfl
      · cases hleaf : Leaf.ofInputs kind args <;> rw [hleaf] at h <;> cases h
        rfl
  | constant x message =>
    simp only [build] at h
    split at h <;> cases h
    rfl

theorem exists_mirrors_of_leaf (hleaf : f.isOperation = false) (hsound : f.IsSound) :
    ∃ e, Mirrors f e := by
  cases f with
  | operation op left right message => cases hleaf
  | function kind args message missingValue => exact ⟨_, .function hsound.1⟩
  | constant x message => exact ⟨_, .constant⟩

theorem reports_of_leaf (hleaf : f.isOperation = false) {error : BuildError}
    (h : f.build path = .error error) : Reports f path [] f error where
  at_position := at?_nil f
  leaf := hleaf
  unsound hsound := by
    obtain ⟨e, he⟩ := exists_mirrors_of_leaf hleaf hsound
    have hleaves : ∀ g ∈ f.leaves, g.IsSound := by simpa [leaves_of_leaf hleaf] using hsound
    rw [build_eq_ok_iff.mpr ⟨hleaves, he⟩] at h
    cases h
  leftmost q g hq _ hprecedes := by
    obtain ⟨rfl, -⟩ := at?_eq_some_of_leaf hleaf hq
    exact absurd rfl hprecedes.ne
  path := path_of_leaf hleaf h
  own := h

theorem Reports.left {op : Operator} {left right : Formula} {message : Option String}
    {error : BuildError} (h : Reports left (path ++ ".left") p g error) :
    Reports (.operation op left right message) path (.left :: p) g error where
  at_position := h.at_position
  leaf := h.leaf
  unsound := h.unsound
  leftmost q g' hq hleaf hprecedes := by
    cases q with
    | nil => exact absurd hprecedes (Position.not_root_precedes _)
    | cons side q =>
      rcases Position.precedes_cons_iff.mp hprecedes with ⟨-, hside⟩ | ⟨rfl, hbelow⟩
      · cases hside
      · exact h.leftmost q g' hq hleaf hbelow
  path := h.path
  own := h.own

theorem Reports.right {op : Operator} {left right : Formula} {message : Option String}
    {error : BuildError} (hleft : ∀ g ∈ left.leaves, g.IsSound)
    (h : Reports right (path ++ ".right") p g error) :
    Reports (.operation op left right message) path (.right :: p) g error where
  at_position := h.at_position
  leaf := h.leaf
  unsound := h.unsound
  leftmost q g' hq hleaf hprecedes := by
    cases q with
    | nil => exact absurd hprecedes (Position.not_root_precedes _)
    | cons side q =>
      rcases Position.precedes_cons_iff.mp hprecedes with ⟨rfl, -⟩ | ⟨rfl, hbelow⟩
      · exact hleft g' (mem_leaves_of_at? hq hleaf)
      · exact h.leftmost q g' hq hleaf hbelow
  path := h.path
  own := h.own

theorem exists_reports {error : BuildError} (h : f.build path = .error error) :
    ∃ p g, Reports f path p g error := by
  induction f generalizing path with
  | operation op left right message ihl ihr =>
    cases hleft : left.build (path ++ ".left") with
    | error err =>
      simp only [build, hleft] at h
      cases h
      obtain ⟨p, g, hreports⟩ := ihl hleft
      exact ⟨_, _, hreports.left⟩
    | ok l =>
      cases hright : right.build (path ++ ".right") with
      | error err =>
        simp only [build, hleft, hright] at h
        cases h
        obtain ⟨p, g, hreports⟩ := ihr hright
        exact ⟨_, _, hreports.right (build_eq_ok_iff.mp hleft).1⟩
      | ok r =>
        simp only [build, hleft, hright] at h
        cases h
  | function kind args message missingValue => exact ⟨_, _, reports_of_leaf rfl h⟩
  | constant x message => exact ⟨_, _, reports_of_leaf rfl h⟩

theorem buildRoot_eq_ok_iff :
    f.buildRoot = .ok e ↔ f.isOperation = true ∧ (∀ g ∈ f.leaves, g.IsSound) ∧ Mirrors f e := by
  unfold buildRoot
  constructor
  · intro h
    obtain ⟨e', hbuild, h⟩ := bind_eq_ok.mp h
    have hmirrors := build_eq_ok_iff.mp hbuild
    split at h
    · next hnode =>
      cases h
      exact ⟨hmirrors.2.isNode ▸ hnode, hmirrors⟩
    · cases h
  · rintro ⟨hroot, hmirrors⟩
    refine bind_eq_ok.mpr ⟨e, build_eq_ok_iff.mpr hmirrors, ?_⟩
    rw [if_pos (hmirrors.2.isNode.trans hroot)]
    rfl

theorem exists_build (hsound : ∀ g ∈ f.leaves, g.IsSound) (path : String) :
    ∃ e, f.build path = .ok e := by
  cases hbuild : f.build path with
  | ok e => exact ⟨e, rfl⟩
  | error error =>
    obtain ⟨p, g, hreports⟩ := exists_reports hbuild
    exact absurd (hsound g (mem_leaves_of_at? hreports.at_position hreports.leaf)) hreports.unsound

theorem exists_reports_buildRoot (h : ∃ g ∈ f.leaves, ¬ g.IsSound) :
    ∃ p g error, f.buildRoot = .error error ∧ Reports f "expression" p g error := by
  obtain ⟨bad, hbad, hunsound⟩ := h
  cases hbuild : f.build "expression" with
  | ok e => exact absurd ((build_eq_ok_iff.mp hbuild).1 bad hbad) hunsound
  | error error =>
    obtain ⟨p, g, hreports⟩ := exists_reports hbuild
    exact ⟨p, g, error, by rw [buildRoot, hbuild]; rfl, hreports⟩

/-- The tree of a test is built exactly if its formula is an operation and all leaves are sound; it
mirrors the formula, so its leaves are those of the formula from left to right. If a leaf is not sound,
the error is that of the leftmost such leaf, at the path of the sides that lead to it. -/
theorem buildRoot_exact (f : Formula) :
    ((∃ e, f.buildRoot = .ok e) ↔ f.isOperation = true ∧ ∀ g ∈ f.leaves, g.IsSound) ∧
    (∀ e, f.buildRoot = .ok e → Mirrors f e ∧
      List.Forall₂ (fun g leaf => Mirrors g (.leaf leaf)) f.leaves e.leaves) ∧
    ((∃ g ∈ f.leaves, ¬ g.IsSound) → ∃ p g error, f.buildRoot = .error error ∧
      Reports f "expression" p g error ∧
      error.message =
        "Validation error: " ++ p.path "expression" ++ ": " ++ error.problem.message) := by
  refine ⟨⟨?_, ?_⟩, fun e he => ?_, fun h => ?_⟩
  · rintro ⟨e, he⟩
    have hbuilt := buildRoot_eq_ok_iff.mp he
    exact ⟨hbuilt.1, hbuilt.2.1⟩
  · rintro ⟨hroot, hsound⟩
    obtain ⟨e, he⟩ := exists_build hsound "expression"
    exact ⟨e, buildRoot_eq_ok_iff.mpr ⟨hroot, build_eq_ok_iff.mp he⟩⟩
  · have hmirrors := (buildRoot_eq_ok_iff.mp he).2.2
    exact ⟨hmirrors, hmirrors.leaves⟩
  · obtain ⟨p, g, error, herror, hreports⟩ := exists_reports_buildRoot h
    refine ⟨p, g, error, herror, hreports, ?_⟩
    rw [← hreports.path]
    rfl

/-- Of two faults the one on the left is reported, though the other stands nearer to the root. -/
example : (Formula.operation .and
    (.operation .greaterThan (.function .getValue ["A"] none none)
      (.function .delta [" "] none none) none)
    (.function .getValue [] none none) none).buildRoot =
      .error { path := "expression.left.right", problem := .leaf (.emptyInput .delta 0) } := by
  rfl

end Formula
end SeriesAlarm
