import SeriesAlarm.Proofs.Expr.Binding
import SeriesAlarm.Proofs.Text.Names
import SeriesAlarm.Proofs.Text.Replace
import SeriesAlarm.Rule.Wildcard

/-!
# Wildcards that are left

A pattern matches an identifier that has a text in the place of its only wildcard. Every identifier
of a copy receives that text for its first wildcard, so wildcards are left where an identifier has
more than one, or where the text brings one along.
-/

namespace SeriesAlarm

open Text

namespace Wildcard

theorem between?_eq_some_iff {start finish text c : List Char} :
    between? start finish text = some c ↔ c ≠ [] ∧ text = start ++ c ++ finish := by
  constructor
  · intro h
    unfold between? at h
    split at h
    · cases h
    · next rest hstart =>
      split at h
      · cases h
      · next middle hfinish =>
        split at h
        · cases h
        · next hmiddle =>
          cases h
          rw [dropLeading?_eq_some_iff] at hstart hfinish
          have hrest : rest = middle.reverse ++ finish := by
            rw [← List.reverse_inj, hfinish, List.reverse_append, List.reverse_reverse]
          rw [hstart, hrest, List.append_assoc]
          exact ⟨mt List.reverse_eq_nil_iff.mp hmiddle, rfl⟩
  · rintro ⟨hc, rfl⟩
    have hstart : dropLeading? start (start ++ c ++ finish) = some (c ++ finish) :=
      dropLeading?_eq_some_iff.mpr (List.append_assoc start c finish)
    have hfinish : dropLeading? finish.reverse (c ++ finish).reverse = some c.reverse :=
      dropLeading?_eq_some_iff.mpr List.reverse_append
    unfold between?
    simp only [hstart, hfinish, List.reverse_eq_nil_iff, hc, if_false, List.reverse_reverse]

/-- A capture is what stands in the place of the only wildcard. -/
theorem capture?_eq_some_iff {pattern candidate c : String} :
    capture? pattern candidate = some c ↔ c ≠ "" ∧ ∃ start finish,
      pattern.toList = start ++ Leaf.wildcard :: finish ∧
        Leaf.wildcard ∉ start ∧ Leaf.wildcard ∉ finish ∧
        candidate.toList = start ++ c.toList ++ finish := by
  have hmap (start finish : List Char) :
      (between? start finish candidate.toList).map String.ofList = some c ↔
        c ≠ "" ∧ candidate.toList = start ++ c.toList ++ finish := by
    rw [Ne, ← String.toList_eq_nil_iff, ← Ne, ← between?_eq_some_iff, Option.map_eq_some_iff]
    constructor
    · rintro ⟨text, htext, rfl⟩
      rwa [String.toList_ofList]
    · exact fun h => ⟨c.toList, h, String.ofList_toList⟩
  constructor
  · intro h
    unfold capture? at h
    split at h
    · cases h
    · next start finish hsplit =>
      split at h
      · cases h
      · next hfinish =>
        obtain ⟨hc, hcandidate⟩ := (hmap start finish).mp h
        obtain ⟨hpattern, hstart⟩ := splitAt?_eq_some hsplit
        exact ⟨hc, start, finish, hpattern, hstart, hfinish, hcandidate⟩
  · rintro ⟨hc, start, finish, hpattern, hstart, hfinish, hcandidate⟩
    have hsplit : splitAt? Leaf.wildcard pattern.toList = some (start, finish) :=
      splitAt?_eq_some_iff.mpr ⟨hpattern, hstart⟩
    simp only [capture?, hsplit, if_neg hfinish]
    exact (hmap start finish).mpr ⟨hc, hcandidate⟩

theorem wildcard_mem_capture_iff {pattern candidate c : String}
    (h : capture? pattern candidate = some c) :
    Leaf.wildcard ∈ c.toList ↔ Leaf.wildcard ∈ candidate.toList := by
  obtain ⟨-, start, finish, -, hstart, hfinish, hcandidate⟩ := capture?_eq_some_iff.mp h
  simp [hcandidate, hstart, hfinish]

theorem mem_captures {pattern c : String} {identifiers : List String} :
    c ∈ captures pattern identifiers ↔ ∃ id ∈ identifiers, capture? pattern id = some c := by
  rw [captures, mem_sortedNames, List.mem_filterMap]

end Wildcard

namespace Leaf

def filled (capture id : String) : String := if hasWildcard id then capturedInput capture id else id

theorem hasWildcard_iff {id : String} : hasWildcard id = true ↔ wildcard ∈ id.toList :=
  List.contains_iff_mem

theorem hasWildcard_filled_iff {capture id : String} : hasWildcard (filled capture id) = true ↔
    wildcard ∈ id.toList ∧ (wildcard ∈ capture.toList ∨ 1 < id.toList.count wildcard) := by
  unfold filled
  by_cases hid : wildcard ∈ id.toList
  · rw [if_pos (hasWildcard_iff.mpr hid), hasWildcard_iff, capturedInput, String.toList_ofList,
      ← not_iff_not, notMem_replaceFirst_iff hid]
    simp [hid]
  · rw [if_neg (hasWildcard_iff.not.mpr hid), hasWildcard_iff]
    simp [hid]

end Leaf

namespace Tree

theorem wildcards_eq (e : Tree) : e.wildcards = e.identifiers.filter Leaf.hasWildcard :=
  List.filter_flatMap.symm

theorem identifiers_setWildcards (e : Tree) (capture : String) :
    (e.setWildcards capture).identifiers = e.identifiers.map (Leaf.filled capture) := by
  rw [identifiers, setWildcards, leaves_mapLeaves, List.flatMap_map, identifiers, List.map_flatMap]
  rfl

end Tree

namespace Wildcard

/-- A copy keeps a wildcard if the capture has one, or if some identifier had several. -/
theorem wildcards_copyFor_eq_nil_iff {s : Test} {capture : String} (h : s.wildcards ≠ []) :
    (copyFor s capture).wildcards = [] ↔ Leaf.wildcard ∉ capture.toList ∧
      ∀ input ∈ s.root.identifiers, input.toList.count Leaf.wildcard ≤ 1 := by
  change (s.root.setWildcards capture).wildcards = [] ↔ _
  rw [Tree.wildcards_eq, Tree.identifiers_setWildcards, List.filter_eq_nil_iff, List.forall_mem_map]
  simp only [Leaf.hasWildcard_filled_iff, not_and, not_or, not_lt]
  constructor
  · intro hnone
    obtain ⟨first, hfirst⟩ := List.exists_mem_of_ne_nil _ h
    rw [Test.wildcards, Tree.wildcards_eq, List.mem_filter, Leaf.hasWildcard_iff] at hfirst
    refine ⟨(hnone first hfirst.1 hfirst.2).1, fun input hinput => ?_⟩
    by_cases hwild : Leaf.wildcard ∈ input.toList
    · exact (hnone input hinput hwild).2
    · rw [List.count_eq_zero_of_not_mem hwild]
      exact Nat.zero_le 1
  · exact fun hboth input hinput _ => ⟨hboth.1, hboth.2 input hinput⟩

def capturesOf (s : Test) (identifiers : List String) : List String :=
  match s.wildcards with
  | [] => []
  | pattern :: _ => captures pattern identifiers

theorem expandTest_of_plain {s : Test} (h : s.wildcards = []) (identifiers : List String) :
    expandTest s identifiers = [s] := by
  rw [expandTest, h]

theorem expandTest_of_wild {s : Test} (h : s.wildcards ≠ []) (identifiers : List String) :
    expandTest s identifiers = (capturesOf s identifiers).map (copyFor s) := by
  obtain ⟨pattern, rest, hsome⟩ := List.exists_cons_of_ne_nil h
  rw [expandTest, capturesOf, hsome]

theorem expandAll_ok (tests : List Test) (identifiers : List String) :
    expandAll tests (.ok identifiers) = tests.flatMap (expandTest · identifiers) := by
  refine List.flatMap_congr fun s _ => ?_
  cases hwild : s.wildcards with
  | nil => rw [expandTest_of_plain hwild]; rfl
  | cons pattern rest => rfl

theorem mem_capturesOf {s : Test} {identifiers : List String} {c : String} :
    c ∈ capturesOf s identifiers ↔
      ∃ pattern, s.wildcards.head? = some pattern ∧
        ∃ id ∈ identifiers, capture? pattern id = some c := by
  unfold capturesOf
  cases s.wildcards with
  | nil => simp
  | cons pattern rest => simp [mem_captures]

/-- Every test is free of wildcards after the expansion if and only if, where the first wildcard of a
test matches an identifier, the identifier has no wildcard and no input of the test has two. -/
theorem wildcards_expandAll_eq_nil_iff (tests : List Test) (identifiers : List String) :
    (∀ s ∈ expandAll tests (.ok identifiers), s.wildcards = []) ↔
      ∀ s ∈ tests, ∀ pattern, s.wildcards.head? = some pattern →
        ∀ id ∈ identifiers, (capture? pattern id).isSome = true →
          Leaf.wildcard ∉ id.toList ∧
            ∀ input ∈ s.root.identifiers, input.toList.count Leaf.wildcard ≤ 1 := by
  rw [expandAll_ok]
  simp only [List.forall_mem_flatMap]
  refine forall₂_congr fun s _ => ?_
  by_cases hwild : s.wildcards = []
  · rw [expandTest_of_plain hwild]
    simp [hwild]
  · rw [expandTest_of_wild hwild, List.forall_mem_map]
    simp only [wildcards_copyFor_eq_nil_iff hwild, mem_capturesOf]
    constructor
    · intro hall pattern hpattern id hid hmatch
      obtain ⟨c, hc⟩ := Option.isSome_iff_exists.mp hmatch
      rw [← wildcard_mem_capture_iff hc]
      exact hall c ⟨pattern, hpattern, id, hid, hc⟩
    · rintro hall c ⟨pattern, hpattern, id, hid, hc⟩
      rw [wildcard_mem_capture_iff hc]
      exact hall pattern hpattern id hid (Option.isSome_iff_exists.mpr ⟨c, hc⟩)

def limits : Test where
  id := "level"
  name := "Level"
  root := .ofOperator .greaterThan
    (.leaf { kind := .getValue, inputs := ["river.*.level"], bound := [none] })
    (.leaf { kind := .getValue, inputs := ["*.limit.*"], bound := [none] }) none
  schedule := { base := { format := "HH", hour := some 0 }, interval := .oneDay }
  window := .oneDay

/-- The copy for the north still reads the limit `north.limit.*`. -/
theorem not_wildcards_expandAll_limits :
    ¬ ∀ s ∈ expandAll [limits] (.ok ["river.north.level"]), s.wildcards = [] := by
  decide +kernel

end Wildcard
end SeriesAlarm
