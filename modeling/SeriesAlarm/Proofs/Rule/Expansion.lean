import Mathlib.Data.List.Forall2
import SeriesAlarm.Proofs.Rule.Wildcard

/-!
# One copy per match

A test with wildcards is replaced in its place by its copies, one for each text that fits the first
wildcard among the identifiers, in the order of the texts. In a copy that text stands for the first
wildcard of every input, and nothing else differs. How often and in which order an identifier is
listed makes no difference.
-/

namespace SeriesAlarm

open Text

namespace Leaf

def Replaces (text id id' : String) : Prop :=
  (wildcard ∉ id.toList → id' = id) ∧
    ∀ start finish, wildcard ∉ start → id.toList = start ++ wildcard :: finish →
      id'.toList = start ++ text.toList ++ finish

theorem replaces_filled (text id : String) : Replaces text id (filled text id) := by
  refine ⟨fun hplain => ?_, fun start finish hstart hid => ?_⟩
  · rw [filled, if_neg (hasWildcard_iff.not.mpr hplain)]
  · have hwild : wildcard ∈ id.toList := by simp [hid]
    rw [filled, if_pos (hasWildcard_iff.mpr hwild), capturedInput, String.toList_ofList, hid,
      replaceFirst_append hstart]

/-- A leaf and the one of a copy. A slot whose input had a wildcard is unbound in the copy. -/
structure IsFilled (text : String) (f f' : Leaf) : Prop where
  plain : f.wildcards = [] → f' = f
  inputs : List.Forall₂ (Replaces text) f.inputs f'.inputs
  slots : f'.bound.length = f.bound.length
  slot : ∀ k id, f.inputs[k]? = some id →
    (wildcard ∈ id.toList → f'.series? k = none) ∧ (wildcard ∉ id.toList → f'.series? k = f.series? k)
  rest : f' = { f with inputs := f'.inputs, bound := f'.bound }

theorem setWildcards_of_plain {f : Leaf} (h : f.wildcards = []) (text : String) :
    f.setWildcards text = f := by
  have hplain : ∀ id ∈ f.inputs, hasWildcard id = false := by
    simpa [wildcards, List.filter_eq_nil_iff] using h
  have hinputs : f.inputs.map (filled text) = f.inputs :=
    (List.map_congr_left fun id hid => by simp [filled, hplain id hid]).trans (List.map_id _)
  have hslots : (f.setWildcards text).bound = f.bound := by
    refine List.ext_getElem? fun k => ?_
    have hinput : hasWildcard (f.inputs.getD k "") = false := by
      cases hk : f.inputs[k]? with
      | none => simp [hk]; decide
      | some id => simp [hk, hplain id (List.mem_of_getElem? hk)]
    simp only [setWildcards, List.getElem?_mapIdx, hinput]
    simp
  calc f.setWildcards text
      = { f with inputs := f.inputs.map (filled text), bound := (f.setWildcards text).bound } := rfl
    _ = f := by rw [hinputs, hslots]

theorem isFilled_setWildcards (text : String) (f : Leaf) : IsFilled text f (f.setWildcards text) := by
  refine ⟨fun hplain => setWildcards_of_plain hplain text, ?_, List.length_mapIdx,
    fun k id hid => ?_, rfl⟩
  · change List.Forall₂ _ _ (f.inputs.map (filled text))
    exact List.forall₂_map_right_iff.mpr (List.forall₂_same.mpr fun id _ => replaces_filled text id)
  · have hslot : (f.setWildcards text).series? k =
        if hasWildcard id then none else f.series? k := by
      cases hbound : f.bound[k]? <;> simp [setWildcards, series?, hid, hbound]
    rw [hslot, ← hasWildcard_iff]
    constructor <;> intro h <;> simp [h]

end Leaf

namespace Tree

/-- Trees that differ in nothing but their leaves, each of which is related to the one in its
place. -/
inductive Leafwise (R : Leaf → Leaf → Prop) : Tree → Tree → Prop
  | leaf {f f' : Leaf} : R f f' → Leafwise R (.leaf f) (.leaf f')
  | node {op : Operator} {l l' r r' : Tree} {message : Option String} {x : Float} :
    Leafwise R l l' → Leafwise R r r' →
      Leafwise R (.node op l r message x) (.node op l' r' message x)

theorem leafwise_mapLeaves {R : Leaf → Leaf → Prop} {g : Leaf → Leaf} (h : ∀ f, R f (g f)) (e : Tree) :
    Leafwise R e (e.mapLeaves g) := by
  induction e with
  | leaf f => exact .leaf (h f)
  | node op l r message x ihl ihr => exact .node ihl ihr

theorem wildcards_eq_nil_iff {e : Tree} :
    e.wildcards = [] ↔ ∀ id ∈ e.identifiers, Leaf.wildcard ∉ id.toList := by
  simp [wildcards_eq, List.filter_eq_nil_iff, Leaf.hasWildcard]

/-- The first identifier with a wildcard in the order of the tree, at place `k`. -/
def FirstWildcard (e : Tree) (k : Nat) (pattern : String) : Prop :=
  e.identifiers[k]? = some pattern ∧ Leaf.wildcard ∈ pattern.toList ∧
    ∀ id ∈ e.identifiers.take k, Leaf.wildcard ∉ id.toList

theorem exists_firstWildcard {e : Tree} {pattern : String} {rest : List String}
    (h : e.wildcards = pattern :: rest) : ∃ k, e.FirstWildcard k pattern := by
  rw [wildcards_eq, List.filter_eq_cons_iff] at h
  obtain ⟨before, after, hsplit, hbefore, hpattern, -⟩ := h
  refine ⟨before.length, ?_, Leaf.hasWildcard_iff.mp hpattern, fun id hid => ?_⟩
  · simp [hsplit]
  · have hid : id ∈ before := by simpa [hsplit] using hid
    exact Leaf.hasWildcard_iff.not.mp (hbefore id hid)

end Tree

namespace Wildcard

/-- The text is not empty, the pattern has a single wildcard, and with the text in its place the
pattern is one of the identifiers. -/
def Fits (pattern : String) (identifiers : List String) (text : String) : Prop :=
  text ≠ "" ∧ ∃ start finish, pattern.toList = start ++ Leaf.wildcard :: finish ∧
    Leaf.wildcard ∉ start ∧ Leaf.wildcard ∉ finish ∧
    String.ofList (start ++ text.toList ++ finish) ∈ identifiers

theorem mem_captures_iff_fits {pattern text : String} {identifiers : List String} :
    text ∈ captures pattern identifiers ↔ Fits pattern identifiers text := by
  rw [mem_captures]
  constructor
  · rintro ⟨id, hid, h⟩
    obtain ⟨hne, start, finish, hpattern, hstart, hfinish, htext⟩ := capture?_eq_some_iff.mp h
    refine ⟨hne, start, finish, hpattern, hstart, hfinish, ?_⟩
    rwa [← htext, String.ofList_toList]
  · rintro ⟨hne, start, finish, hpattern, hstart, hfinish, hid⟩
    exact ⟨_, hid, capture?_eq_some_iff.mpr
      ⟨hne, start, finish, hpattern, hstart, hfinish, String.toList_ofList⟩⟩

/-- An identifier that is listed twice counts once, and nothing stands for the wildcard of the third. -/
example : captures "river.*.level" ["river.south.level", "river.north.level", "river..level",
    "river.north.level", "lake.level"] = ["north", "south"] := by
  decide +kernel

theorem Fits.filled_mem {pattern text : String} {identifiers : List String}
    (h : Fits pattern identifiers text) : Leaf.filled text pattern ∈ identifiers := by
  obtain ⟨-, start, finish, hpattern, hstart, -, hid⟩ := h
  have htext := (Leaf.replaces_filled text pattern).2 start finish hstart hpattern
  rwa [← htext, String.ofList_toList] at hid

/-- The copy of a test for a text, where the first wildcard is the identifier at place `k`. -/
structure IsCopy (s : Test) (k : Nat) (identifiers : List String) (text : String) (copy : Test) :
    Prop where
  id : copy.id = s.id ++ "[" ++ text ++ "]"
  named : ∃ id ∈ identifiers, copy.root.identifiers[k]? = some id
  root : Tree.Leafwise (Leaf.IsFilled text) s.root copy.root
  rest : copy = { s with id := copy.id, root := copy.root }

theorem isCopy_copyFor {s : Test} {k : Nat} {pattern text : String} {identifiers : List String}
    (first : s.root.FirstWildcard k pattern) (fits : Fits pattern identifiers text) :
    IsCopy s k identifiers text (copyFor s text) where
  id := rfl
  named := by
    refine ⟨Leaf.filled text pattern, fits.filled_mem, ?_⟩
    change (s.root.setWildcards text).identifiers[k]? = _
    rw [Tree.identifiers_setWildcards, List.getElem?_map, first.1]
    rfl
  root := Tree.leafwise_mapLeaves (Leaf.isFilled_setWildcards text) s.root
  rest := rfl

/-- What a test is replaced by, when a source lists its identifiers or fails to. -/
inductive IsExpansion (answer : Except SourceError (List String)) (s : Test) : List Test → Prop
  | plain : (∀ id ∈ s.root.identifiers, Leaf.wildcard ∉ id.toList) → IsExpansion answer s [s]
  | dropped {k : Nat} {pattern : String} {e : SourceError} : s.root.FirstWildcard k pattern →
    answer = .error e → IsExpansion answer s []
  | copied {k : Nat} {pattern : String} {identifiers texts : List String} {copies : List Test} :
    s.root.FirstWildcard k pattern → answer = .ok identifiers → texts.Pairwise (· < ·) →
    (∀ text, text ∈ texts ↔ Fits pattern identifiers text) →
    List.Forall₂ (IsCopy s k identifiers) texts copies → IsExpansion answer s copies

theorem isExpansion_expandTest (s : Test) (identifiers : List String) :
    IsExpansion (.ok identifiers) s (expandTest s identifiers) := by
  cases hwild : s.wildcards with
  | nil =>
    rw [expandTest_of_plain hwild]
    exact .plain (Tree.wildcards_eq_nil_iff.mp hwild)
  | cons pattern rest =>
    obtain ⟨k, first⟩ := Tree.exists_firstWildcard hwild
    rw [expandTest, hwild]
    refine .copied first rfl (sorted_sortedNames _) (fun _ => mem_captures_iff_fits) ?_
    refine List.forall₂_map_right_iff.mpr (List.forall₂_same.mpr fun text htext => ?_)
    exact isCopy_copyFor first (mem_captures_iff_fits.mp htext)

/-- Which identifiers there are decides, not how they are listed. -/
theorem expandTest_congr {identifiers identifiers' : List String}
    (h : ∀ id, id ∈ identifiers ↔ id ∈ identifiers') (s : Test) :
    expandTest s identifiers = expandTest s identifiers' := by
  have hcaptures (pattern : String) :
      captures pattern identifiers = captures pattern identifiers' := by
    refine (sorted_sortedNames _).eq_of_mem_iff (sorted_sortedNames _) fun text => ?_
    change text ∈ captures pattern identifiers ↔ text ∈ captures pattern identifiers'
    simp only [mem_captures, h]
  unfold expandTest
  split
  · rfl
  · rw [hcaptures]

theorem exists_expansions (tests : List Test) (answer : Except SourceError (List String)) :
    ∃ blocks, List.Forall₂ (IsExpansion answer) tests blocks ∧
      expandAll tests answer = blocks.flatten := by
  refine ⟨_, List.forall₂_map_right_iff.mpr (List.forall₂_same.mpr fun s _ => ?_), List.flatMap_def⟩
  cases hwild : s.wildcards with
  | nil =>
    exact .plain (Tree.wildcards_eq_nil_iff.mp hwild)
  | cons pattern rest =>
    cases answer with
    | ok identifiers => exact isExpansion_expandTest s identifiers
    | error e =>
      obtain ⟨k, first⟩ := Tree.exists_firstWildcard hwild
      exact .dropped first rfl

/-- Every test is replaced in its place: a plain one by itself, one with wildcards by a copy for each
text that fits, or by nothing where the source lists no identifiers. The copies depend on which
identifiers are listed, not on their order or how often they are. -/
theorem expandAll_expands (tests : List Test) (answer : Except SourceError (List String)) :
    (∃ blocks, List.Forall₂ (IsExpansion answer) tests blocks ∧
      expandAll tests answer = blocks.flatten) ∧
    (∀ s identifiers, IsExpansion (.ok identifiers) s (expandTest s identifiers)) ∧
    ∀ identifiers identifiers', (∀ id, id ∈ identifiers ↔ id ∈ identifiers') →
      (∀ s, expandTest s identifiers = expandTest s identifiers') ∧
      expandAll tests (.ok identifiers) = expandAll tests (.ok identifiers') := by
  refine ⟨exists_expansions tests answer, isExpansion_expandTest, fun identifiers identifiers' h => ?_⟩
  refine ⟨expandTest_congr h, ?_⟩
  rw [expandAll_ok, expandAll_ok]
  exact List.flatMap_congr fun s _ => expandTest_congr h s

end Wildcard
end SeriesAlarm
