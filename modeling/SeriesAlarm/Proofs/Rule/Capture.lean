import SeriesAlarm.Proofs.Rule.Expansion

/-!
# Captures undo substitution

Substituting a text for the wildcards of a pattern gives a candidate, and a capture finds the text again
where the pattern has a single wildcard and the text is not empty. It finds nothing else, so the candidate
is what a leaf with the pattern reads once it has received the capture.
-/

namespace SeriesAlarm

open Text

namespace Wildcard

variable {pattern candidate text : String}

def substitute (text pattern : String) : String :=
  String.ofList (replaceEach Leaf.wildcard text.toList pattern.toList)

theorem capture?_eq_some_iff_substitute : capture? pattern candidate = some text ↔
    pattern.toList.count Leaf.wildcard = 1 ∧ text ≠ "" ∧ candidate = substitute text pattern := by
  rw [capture?_eq_some_iff, count_eq_one_iff]
  constructor
  · rintro ⟨hne, start, finish, hpattern, hstart, hfinish, hcandidate⟩
    refine ⟨⟨start, finish, hpattern, hstart, hfinish⟩, hne, ?_⟩
    rw [substitute, hpattern, replaceEach_single hstart hfinish, ← hcandidate, String.ofList_toList]
  · rintro ⟨⟨start, finish, hpattern, hstart, hfinish⟩, hne, rfl⟩
    refine ⟨hne, start, finish, hpattern, hstart, hfinish, ?_⟩
    rw [substitute, hpattern, replaceEach_single hstart hfinish, String.toList_ofList]

theorem capturedInput_eq_substitute (h : pattern.toList.count Leaf.wildcard = 1) :
    Leaf.capturedInput text pattern = substitute text pattern := by
  obtain ⟨start, finish, hpattern, hstart, hfinish⟩ := count_eq_one_iff.mp h
  rw [Leaf.capturedInput, substitute, hpattern, replaceFirst_append hstart,
    replaceEach_single hstart hfinish]

theorem inputs_setWildcards {f : Leaf} {k : Nat} (hk : f.inputs[k]? = some pattern)
    (hwild : Leaf.wildcard ∈ pattern.toList) :
    (f.setWildcards text).inputs[k]? = some (Leaf.capturedInput text pattern) := by
  change (f.inputs.map (Leaf.filled text))[k]? = _
  rw [List.getElem?_map, hk, Option.map_some, Leaf.filled, if_pos (Leaf.hasWildcard_iff.mpr hwild)]

/-- A text is captured from a candidate exactly if it is not empty and the candidate is a pattern of one
wildcard with the text in its place. There is no other such text, and a leaf that receives it for the
pattern reads the candidate. -/
theorem capture?_undoes_substitute (pattern candidate : String) :
    (∀ text, capture? pattern candidate = some text ↔
      pattern.toList.count Leaf.wildcard = 1 ∧ text ≠ "" ∧ candidate = substitute text pattern) ∧
    (pattern.toList.count Leaf.wildcard = 1 →
      ∀ text text', substitute text pattern = substitute text' pattern → text = text') ∧
    ∀ text, capture? pattern candidate = some text →
      Leaf.capturedInput text pattern = candidate ∧
        ∀ (f : Leaf) (k : Nat), f.inputs[k]? = some pattern →
          (f.setWildcards text).inputs[k]? = some candidate := by
  refine ⟨fun _ => capture?_eq_some_iff_substitute, fun hone text text' heq => ?_,
    fun text hcapture => ?_⟩
  · exact String.toList_injective (eq_of_replaceEach_eq hone (String.ofList_injective heq))
  · obtain ⟨hone, -, hcandidate⟩ := capture?_eq_some_iff_substitute.mp hcapture
    have hinput : Leaf.capturedInput text pattern = candidate :=
      (capturedInput_eq_substitute hone).trans hcandidate.symm
    refine ⟨hinput, fun f k hk => ?_⟩
    have hwild : Leaf.wildcard ∈ pattern.toList := List.count_pos_iff.mp (by omega)
    rw [inputs_setWildcards hk hwild, hinput]

/-- What stands before and behind the wildcard does not overlap in a candidate. -/
example : capture? "high*high" "highigh" = none ∧ capture? "high*high" "high*high" = some "*" := by
  decide +kernel

end Wildcard
end SeriesAlarm
