import Mathlib.Data.List.Sort
import Mathlib.Data.String.Basic
import SeriesAlarm.Text.Names

/-!
# The one sorted list of names

Sorting names loses none and keeps each once, so names have one sorted list.
-/

namespace SeriesAlarm

variable {name : String} {xs : List String}

theorem sorted_insertName (h : xs.Pairwise (· < ·)) : (insertName name xs).Pairwise (· < ·) := by
  induction xs with
  | nil => exact List.pairwise_singleton _ name
  | cons x xs ih =>
    obtain ⟨hhead, htail⟩ := List.pairwise_cons.mp h
    unfold insertName
    split
    · next hlt =>
      refine List.pairwise_cons.mpr ⟨fun y hy => ?_, h⟩
      rcases List.mem_cons.mp hy with rfl | hy
      · exact hlt
      · exact lt_trans hlt (hhead y hy)
    · split
      · exact h
      · next hge hne =>
        refine List.pairwise_cons.mpr ⟨fun y hy => ?_, ih htail⟩
        rcases mem_insertName.mp hy with rfl | hy
        · exact lt_of_le_of_ne (not_lt.mp hge) (Ne.symm hne)
        · exact hhead y hy

theorem mem_sortedNames : name ∈ sortedNames xs ↔ name ∈ xs := by
  have hfold (xs : List String) : ∀ ys : List String,
      name ∈ xs.foldl (fun acc name => insertName name acc) ys ↔ name ∈ xs ∨ name ∈ ys := by
    induction xs with
    | nil => simp
    | cons x xs ih =>
      intro ys
      rw [List.foldl_cons, ih, mem_insertName, List.mem_cons]
      tauto
  simpa [sortedNames] using hfold xs []

theorem sorted_sortedNames (xs : List String) : (sortedNames xs).Pairwise (· < ·) := by
  have hfold (xs : List String) : ∀ ys : List String, ys.Pairwise (· < ·) →
      (xs.foldl (fun acc name => insertName name acc) ys).Pairwise (· < ·) := by
    induction xs with
    | nil => exact fun ys hys => hys
    | cons x xs ih => exact fun ys hys => ih _ (sorted_insertName hys)
  exact hfold xs [] List.Pairwise.nil

/-- Names come out in the one order that is sorted. -/
theorem sortedNames_of_perm {ys : List String} (h : ys.Pairwise (· < ·)) (hperm : xs.Perm ys) :
    sortedNames xs = ys :=
  (sorted_sortedNames xs).eq_of_mem_iff h fun _ => mem_sortedNames.trans hperm.mem_iff

theorem length_sortedNames : (sortedNames xs).length = xs.length ↔ xs.Nodup := by
  have hnodup := (sorted_sortedNames xs).nodup
  constructor
  · intro hlength
    have hsub := List.subperm_of_subset hnodup fun _ => mem_sortedNames.mp
    exact (hsub.perm_of_length_le hlength.ge).nodup_iff.mp hnodup
  · intro h
    exact ((List.perm_ext_iff_of_nodup hnodup h).mpr fun _ => mem_sortedNames).length_eq

end SeriesAlarm
