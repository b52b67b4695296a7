import Mathlib.Data.List.Nodup
import Mathlib.Data.List.Pairwise
import SeriesAlarm.Proofs.Rule.Built
import SeriesAlarm.Proofs.Rule.Wildcard

/-!
# The ids of copies

A copy has the id of its test with the capture in brackets. Copies of one test differ, and so do
copies of two tests, unless the id of one test goes on like the id of a copy of the other. The main
statement says when the tests of a rule set keep distinct ids, and which rule sets do so whatever
identifiers there are.
-/

namespace SeriesAlarm

open Text

namespace Wildcard

theorem toList_copyId (id capture : String) :
    (copyId id capture).toList = (id.toList ++ '[' :: capture.toList) ++ [']'] := by
  simp [copyId]

theorem copyId_eq (id capture : String) : copyId id capture = id ++ "[" ++ (capture ++ "]") :=
  String.append_assoc

theorem copyId_injective {id c d : String} (h : copyId id c = copyId id d) : c = d := by
  rw [← String.toList_inj] at h ⊢
  simpa [toList_copyId] using h

theorem copyId_eq_copyId_iff {a b c d : String} (hne : a ≠ b) : copyId a c = copyId b d ↔
    (∃ rest, b = a ++ "[" ++ rest ∧ c = rest ++ "[" ++ d) ∨
      ∃ rest, a = b ++ "[" ++ rest ∧ d = rest ++ "[" ++ c := by
  have hside {a b c d : String} :
      (∃ rest, b.toList = a.toList ++ '[' :: rest ∧ c.toList = rest ++ '[' :: d.toList) ↔
        ∃ rest, b = a ++ "[" ++ rest ∧ c = rest ++ "[" ++ d := by
    constructor
    · rintro ⟨rest, hb, hc⟩
      refine ⟨String.ofList rest, ?_, ?_⟩ <;> rw [← String.toList_inj]
      · simp [hb]
      · simp [hc]
    · rintro ⟨rest, rfl, rfl⟩
      exact ⟨rest.toList, by simp, by simp⟩
  rw [← String.toList_inj, toList_copyId, toList_copyId, List.append_cancel_right_eq,
    append_cons_eq_append_cons_iff (mt String.toList_inj.mp hne), hside, hside]

def copyIds (identifiers : List String) (s : Test) : List String :=
  (expandTest s identifiers).map (·.id)

theorem mem_copyIds {identifiers : List String} {s : Test} {x : String} :
    x ∈ copyIds identifiers s ↔
      (s.wildcards = [] ∧ x = s.id) ∨ ∃ c ∈ capturesOf s identifiers, x = copyId s.id c := by
  unfold copyIds
  by_cases hwild : s.wildcards = []
  · rw [expandTest_of_plain hwild]
    simp [hwild, capturesOf]
  · rw [expandTest_of_wild hwild]
    simp [hwild, copyFor, eq_comm]

theorem nodup_capturesOf (s : Test) (identifiers : List String) :
    (capturesOf s identifiers).Nodup := by
  unfold capturesOf
  split
  · exact List.nodup_nil
  · exact (sorted_sortedNames _).nodup

theorem nodup_copyIds (identifiers : List String) (s : Test) : (copyIds identifiers s).Nodup := by
  unfold copyIds
  by_cases hwild : s.wildcards = []
  · rw [expandTest_of_plain hwild]
    exact List.nodup_singleton s.id
  · rw [expandTest_of_wild hwild, List.map_map]
    exact (nodup_capturesOf s identifiers).map fun _ _ => copyId_injective

/-- A copy of `s` has the id of `s'`, if that is taken over as it is, or the id of a copy of `s'`. -/
def Meets (identifiers : List String) (s s' : Test) : Prop :=
  ∃ rest, s'.id = s.id ++ "[" ++ rest ∧
    ((s'.wildcards = [] ∧ ∃ c ∈ capturesOf s identifiers, rest = c ++ "]") ∨
      ∃ c' ∈ capturesOf s' identifiers, rest ++ "[" ++ c' ∈ capturesOf s identifiers)

theorem Meets.exists_common {identifiers : List String} {s s' : Test}
    (h : Meets identifiers s s') :
    ∃ x, x ∈ copyIds identifiers s ∧ x ∈ copyIds identifiers s' := by
  obtain ⟨rest, hid, ⟨hplain, c, hc, rfl⟩ | ⟨c', hc', hc⟩⟩ := h
  · refine ⟨s'.id, mem_copyIds.mpr (.inr ⟨c, hc, ?_⟩), mem_copyIds.mpr (.inl ⟨hplain, rfl⟩)⟩
    rw [hid, copyId_eq]
  · refine ⟨copyId s'.id c', mem_copyIds.mpr (.inr ⟨_, hc, ?_⟩), mem_copyIds.mpr (.inr ⟨c', hc', rfl⟩)⟩
    simp only [hid, copyId, String.append_assoc]

/-- Two tests share an id if one of them meets the other. -/
theorem exists_common_iff {identifiers : List String} {s s' : Test} (hne : s.id ≠ s'.id) :
    (∃ x, x ∈ copyIds identifiers s ∧ x ∈ copyIds identifiers s') ↔
      Meets identifiers s s' ∨ Meets identifiers s' s := by
  constructor
  · rintro ⟨x, hx, hx'⟩
    rcases mem_copyIds.mp hx with ⟨hplain, rfl⟩ | ⟨c, hc, rfl⟩ <;>
      rcases mem_copyIds.mp hx' with ⟨hplain', hid⟩ | ⟨c', hc', hid⟩
    · exact absurd hid hne
    · exact .inr ⟨c' ++ "]", hid.trans (copyId_eq s'.id c'), .inl ⟨hplain, c', hc', rfl⟩⟩
    · exact .inl ⟨c ++ "]", hid.symm.trans (copyId_eq s.id c), .inl ⟨hplain', c, hc, rfl⟩⟩
    · rcases (copyId_eq_copyId_iff hne).mp hid with ⟨rest, hrest, rfl⟩ | ⟨rest, hrest, rfl⟩
      · exact .inl ⟨rest, hrest, .inr ⟨c', hc', hc⟩⟩
      · exact .inr ⟨rest, hrest, .inr ⟨c, hc, hc'⟩⟩
  · rintro (h | h)
    · exact h.exists_common
    · obtain ⟨x, hx', hx⟩ := h.exists_common
      exact ⟨x, hx, hx'⟩

theorem Meets.id_ne {identifiers : List String} {s s' : Test} (h : Meets identifiers s s') :
    s.id ≠ s'.id := by
  obtain ⟨rest, hid, -⟩ := h
  intro heq
  have hlength := congrArg String.length (heq.trans hid)
  have hbracket : "[".length = 1 := rfl
  rw [String.length_append, String.length_append] at hlength
  omega

theorem ids_expandAll (tests : List Test) (identifiers : List String) :
    (expandAll tests (.ok identifiers)).map (·.id) = tests.flatMap (copyIds identifiers) := by
  rw [expandAll_ok, List.map_flatMap]
  rfl

theorem nodup_flatMap_copyIds_iff {tests : List Test} (distinct : (tests.map (·.id)).Nodup)
    (identifiers : List String) :
    (tests.flatMap (copyIds identifiers)).Nodup ↔
      ∀ s ∈ tests, ∀ s' ∈ tests, ¬ Meets identifiers s s' := by
  rw [List.nodup_flatMap, and_iff_right fun s _ => nodup_copyIds identifiers s]
  constructor
  · intro hpairs s hs s' hs' hmeets
    have hne : s ≠ s' := fun heq => hmeets.id_ne (heq ▸ rfl)
    obtain ⟨x, hx, hx'⟩ := hmeets.exists_common
    have : Std.Symm (Function.onFun List.Disjoint (copyIds identifiers)) :=
      ⟨fun _ _ h _ hx hx' => h hx' hx⟩
    exact hpairs.forall hs hs' hne hx hx'
  · intro hnone
    refine (List.Nodup.of_map _ distinct).pairwise_of_forall_ne fun s hs s' hs' hne x hx hx' => ?_
    have hids : s.id ≠ s'.id := mt (List.inj_on_of_nodup_map distinct hs hs') hne
    rcases (exists_common_iff hids).mp ⟨x, hx, hx'⟩ with h | h
    · exact hnone s hs s' hs' h
    · exact hnone s' hs' s hs h

/-- The first wildcard of the test can match: it stands there once. -/
def Expands (s : Test) : Prop :=
  ∃ pattern, s.wildcards.head? = some pattern ∧ pattern.toList.count Leaf.wildcard = 1

theorem expands_of_mem_capturesOf {s : Test} {identifiers : List String} {c : String}
    (h : c ∈ capturesOf s identifiers) : Expands s ∧ c ≠ "" := by
  obtain ⟨pattern, hpattern, id, -, hc⟩ := mem_capturesOf.mp h
  obtain ⟨hne, start, finish, htext, hstart, hfinish, -⟩ := capture?_eq_some_iff.mp hc
  refine ⟨⟨pattern, hpattern, ?_⟩, hne⟩
  rw [htext, List.count_append, List.count_cons_self, List.count_eq_zero_of_not_mem hstart,
    List.count_eq_zero_of_not_mem hfinish]

theorem Expands.exists_capture {s : Test} (h : Expands s) {c : String} (hc : c ≠ "") :
    ∃ id, ∀ identifiers, id ∈ identifiers → c ∈ capturesOf s identifiers := by
  obtain ⟨pattern, hpattern, hcount⟩ := h
  have hmem : Leaf.wildcard ∈ pattern.toList := List.count_pos_iff.mp (by rw [hcount]; exact one_pos)
  obtain ⟨start, finish, htext, hstart⟩ := List.eq_append_cons_of_mem hmem
  have hfinish : Leaf.wildcard ∉ finish := by
    rw [htext, List.count_append, List.count_cons_self, List.count_eq_zero_of_not_mem hstart] at hcount
    exact List.count_eq_zero.mp (by omega)
  refine ⟨String.ofList (start ++ c.toList ++ finish), fun identifiers hid => ?_⟩
  refine mem_capturesOf.mpr ⟨pattern, hpattern, _, hid, capture?_eq_some_iff.mpr ?_⟩
  exact ⟨hc, start, finish, htext, hstart, hfinish, String.toList_ofList⟩

def MayMeet (s s' : Test) : Prop :=
  Expands s ∧ ∃ rest, s'.id = s.id ++ "[" ++ rest ∧
    ((s'.wildcards = [] ∧ ∃ c, c ≠ "" ∧ rest = c ++ "]") ∨ Expands s')

theorem exists_meets_iff {s s' : Test} :
    (∃ identifiers, Meets identifiers s s') ↔ MayMeet s s' := by
  constructor
  · rintro ⟨identifiers, rest, hid, ⟨hplain, c, hc, hrest⟩ | ⟨c', hc', hc⟩⟩
    · have hexpands := expands_of_mem_capturesOf hc
      exact ⟨hexpands.1, rest, hid, .inl ⟨hplain, c, hexpands.2, hrest⟩⟩
    · exact ⟨(expands_of_mem_capturesOf hc).1, rest, hid, .inr (expands_of_mem_capturesOf hc').1⟩
  · rintro ⟨hexpands, rest, hid, ⟨hplain, c, hne, hrest⟩ | hexpands'⟩
    · obtain ⟨id, hcapture⟩ := hexpands.exists_capture hne
      exact ⟨[id], rest, hid, .inl ⟨hplain, c, hcapture _ List.mem_cons_self, hrest⟩⟩
    · obtain ⟨id', hcapture'⟩ := hexpands'.exists_capture (c := "x") (by decide)
      have hne : rest ++ "[" ++ "x" ≠ "" := fun hempty => by
        simpa using congrArg String.toList hempty
      obtain ⟨id, hcapture⟩ := hexpands.exists_capture hne
      refine ⟨[id, id'], rest, hid, .inr ⟨"x", hcapture' _ ?_, hcapture _ List.mem_cons_self⟩⟩
      exact List.mem_cons_of_mem id List.mem_cons_self

end Wildcard

theorem TestDocument.id_build {known : Dispatcher} {d : TestDocument} {s : Test}
    (h : d.build known = .ok s) : s.id = d.metadata.id := by
  obtain ⟨root, schedule, window, season, -, -, -, -, -, -, rfl⟩ := build_cases h
  rfl

namespace RuleSet

theorem tests_foldl_addAction (env : Environment) (set : RuleSet) (ds : List ActionDocument) :
    (ds.foldl (addAction env) set).tests = set.tests := by
  induction ds generalizing set with
  | nil => rfl
  | cons d ds ih =>
    rw [List.foldl_cons, ih, addAction]
    split <;> rfl

theorem ids_foldl_addTest_sublist (set : RuleSet) (ds : List TestDocument) :
    ((ds.foldl addTest set).tests.map (·.id)).Sublist
      (set.tests.map (·.id) ++ ds.map (·.metadata.id)) := by
  induction ds generalizing set with
  | nil => simp
  | cons d ds ih =>
    refine (ih (set.addTest d)).trans ?_
    unfold addTest
    split
    · next s hs => simp [TestDocument.id_build hs]
    · exact (List.sublist_cons_self _ _).append_left _

theorem ids_enabledTests_sublist (ds : List Document) :
    ((enabledTests ds).map (·.metadata.id)).Sublist (ds.map (·.id)) := by
  induction ds with
  | nil => exact .refl []
  | cons d ds ih =>
    cases d with
    | action a => exact ih.cons _
    | test t =>
      cases henabled : t.metadata.enabled with
      | true =>
        have hhead : enabledTests (.test t :: ds) = t :: enabledTests ds := by
          simp [enabledTests, henabled]
        rw [hhead]
        exact ih.cons_cons _
      | false =>
        have hhead : enabledTests (.test t :: ds) = enabledTests ds := by
          simp [enabledTests, henabled]
        rw [hhead]
        exact ih.cons _

/-- Documents with distinct ids build tests with distinct ids. -/
theorem nodup_ids_ofDocuments {env : Environment} {ds : List Document}
    (distinct : (ds.map (·.id)).Nodup) : ((ofDocuments env ds).tests.map (·.id)).Nodup := by
  have hsorted := ids_foldl_addTest_sublist ((enabledActions ds).foldl (addAction env) {})
    ((enabledTests ds).mergeSort fun s t => decide (s.metadata.id ≤ t.metadata.id))
  rw [tests_foldl_addAction] at hsorted
  refine hsorted.nodup ?_
  exact ((List.mergeSort_perm _ _).map _).nodup_iff.mpr ((ids_enabledTests_sublist ds).nodup distinct)

open Wildcard

/-- The tests of documents with distinct ids keep distinct ids in the expansion exactly if none of
them meets another, and they do so for every list of identifiers exactly if none may. -/
theorem nodup_ids_expandAll_iff {env : Environment} {ds : List Document}
    (distinct : (ds.map (·.id)).Nodup) :
    let tests := (ofDocuments env ds).tests
    let KeepsIds (identifiers : List String) : Prop :=
      ((expandAll tests (.ok identifiers)).map (·.id)).Nodup
    (∀ identifiers, KeepsIds identifiers ↔
        ∀ s ∈ tests, ∀ s' ∈ tests, ¬ Meets identifiers s s') ∧
      ((∀ identifiers, KeepsIds identifiers) ↔ ∀ s ∈ tests, ∀ s' ∈ tests, ¬ MayMeet s s') := by
  intro tests KeepsIds
  have hpoint (identifiers : List String) : KeepsIds identifiers ↔
      ∀ s ∈ tests, ∀ s' ∈ tests, ¬ Meets identifiers s s' := by
    rw [← nodup_flatMap_copyIds_iff (nodup_ids_ofDocuments distinct), ← ids_expandAll]
  refine ⟨hpoint, ?_⟩
  simp only [hpoint, ← exists_meets_iff, not_exists]
  constructor
  · exact fun h s hs s' hs' identifiers => h identifiers s hs s' hs'
  · exact fun h identifiers s hs s' hs' => h s hs s' hs' identifiers

theorem ofDocuments_of_sorted {env : Environment} {ds : List Document}
    (h : (enabledTests ds).Pairwise fun s t => s.metadata.id ≤ t.metadata.id) :
    ofDocuments env ds =
      (enabledTests ds).foldl addTest ((enabledActions ds).foldl (addAction env) {}) := by
  unfold ofDocuments
  rw [List.mergeSort_of_pairwise (h.imp fun hle => decide_eq_true hle)]

def rivers (id : String) : List Document :=
  let test (id interval : String) (left right : Formula) : Document := .test {
    apiVersion := "v1"
    metadata := { id, name := id }
    schedule := { baseTime := "00:00", interval }
    window := "1d"
    formula := .operation .greaterThan left right none }
  [test "level" "1h" (.function .getValue ["river.*"] none none) (.constant 50 none),
    test id "1d" (.constant 1 none) (.constant 0 none)]

/-- No capture is empty, so nothing meets an id that ends in empty brackets. -/
theorem nodup_ids_expandAll_rivers :
    let tests := (ofDocuments [] (rivers "level[]")).tests
    ((rivers "level[]").map (·.id)).Nodup ∧
      ∀ identifiers, ((expandAll tests (.ok identifiers)).map (·.id)).Nodup := by
  intro tests
  have distinct : ((rivers "level[]").map (·.id)).Nodup := by decide
  have hshape : ∀ s ∈ tests, (s.id = "level" ∧ s.wildcards = ["river.*"]) ∨
      (s.id = "level[]" ∧ s.wildcards = []) := by
    dsimp only [tests]
    rw [ofDocuments_of_sorted (by decide)]
    decide +kernel
  refine ⟨distinct, (nodup_ids_expandAll_iff distinct).2.mpr ?_⟩
  rintro s hs s' hs' ⟨⟨pattern, hpattern, -⟩, rest, hid, hrest⟩
  rcases hshape s hs with ⟨hlevel, -⟩ | ⟨-, hplain⟩
  · rcases hshape s' hs' with ⟨hlevel', -⟩ | ⟨hlevel', hplain'⟩
    · rw [hlevel, hlevel'] at hid
      simpa using congrArg String.toList hid
    · rw [hlevel, hlevel'] at hid
      have hend : rest.toList = [']'] := by simpa using (congrArg String.toList hid).symm
      rcases hrest with ⟨-, c, hc, rfl⟩ | ⟨pattern', hpattern', -⟩
      · exact hc (String.toList_eq_nil_iff.mp (by simpa using hend))
      · rw [hplain'] at hpattern'
        cases hpattern'
  · rw [hplain] at hpattern
    cases hpattern

/-- The copy for the north and the test that is named like it have the same id. -/
theorem not_nodup_ids_expandAll_rivers :
    ((rivers "level[north]").map (·.id)).Nodup ∧
      ¬ ((expandAll (ofDocuments [] (rivers "level[north]")).tests
        (.ok ["river.north"])).map (·.id)).Nodup := by
  rw [ofDocuments_of_sorted (by decide)]
  decide +kernel

end RuleSet
end SeriesAlarm
