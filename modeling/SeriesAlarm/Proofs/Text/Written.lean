import Mathlib.Data.List.Basic
import SeriesAlarm.Delivery.Notification

/-!
# Numbers and lists written and read back

A number is read back from its digits. A list of names that is written with commas between them is read
back as the parts of its names, which are the names if none of them is empty or has a comma.
-/

namespace SeriesAlarm
namespace Text

theorem isDigit_of_mem_toDigits {n : Nat} {c : Char} (h : c ∈ Nat.toDigits 10 n) :
    isDigit c = true := by
  have hdigit := Nat.isDigit_of_mem_toDigits (by decide) (by decide) h
  simp only [Char.isDigit, ge_iff_le, Bool.and_eq_true, decide_eq_true_eq] at hdigit
  simp only [isDigit, Bool.and_eq_true, decide_eq_true_eq]
  exact hdigit

theorem digitsValue_toDigits (n : Nat) : digitsValue (Nat.toDigits 10 n) = n := by
  have hread := Nat.ofDigitChars_ten_toDigits (n := n)
  rwa [Nat.ofDigitChars_eq_foldl] at hread

theorem plusDigits?_repr (n : Nat) : plusDigits? (Nat.repr n).toList = some n := by
  rw [Nat.repr_eq_ofList_toDigits, String.toList_ofList]
  have hdigits : digits? (Nat.toDigits 10 n) = some n := by
    have hall : (Nat.toDigits 10 n).all isDigit = true :=
      List.all_eq_true.mpr fun _ hc => isDigit_of_mem_toDigits hc
    simp [digits?, Nat.toDigits_ne_nil, hall, digitsValue_toDigits]
  have hsign : ∀ cs, Nat.toDigits 10 n ≠ '+' :: cs := fun cs hcs =>
    absurd (isDigit_of_mem_toDigits (hcs ▸ List.mem_cons_self)) (by decide)
  unfold plusDigits?
  split
  · next cs hcs => exact absurd hcs (hsign cs)
  · exact hdigits

theorem repr_injective : Function.Injective Nat.repr := by
  intro m n h
  have hread := congrArg (fun s : String => plusDigits? s.toList) h
  exact Option.some.inj ((plusDigits?_repr m).symm.trans (hread.trans (plusDigits?_repr n)))

variable {c : Char} {cs : List Char}

theorem splitOnChar_ne_nil (c : Char) (cs : List Char) : splitOnChar c cs ≠ [] := by
  fun_cases splitOnChar c cs <;> simp_all

theorem splitOnChar_eq_splitOn (c : Char) (cs : List Char) :
    splitOnChar c cs = cs.splitOn c := by
  induction cs with
  | nil => rfl
  | cons d ds ih =>
    obtain ⟨part, parts, hparts⟩ := List.exists_cons_of_ne_nil (splitOnChar_ne_nil c ds)
    rw [List.splitOn_cons_eq_if_modifyHead, ← ih, splitOnChar, hparts]
    by_cases hd : d = c <;> simp [hd]

theorem notMem_of_mem_splitOnChar {part : List Char} (h : part ∈ splitOnChar c cs) : c ∉ part := by
  induction cs generalizing part with
  | nil => simp_all [splitOnChar]
  | cons d ds ih =>
    obtain ⟨first, rest, hparts⟩ := List.exists_cons_of_ne_nil (splitOnChar_ne_nil c ds)
    rw [splitOnChar, hparts] at h
    rw [hparts] at ih
    split at h
    · rcases List.mem_cons.mp h with rfl | h
      · exact List.not_mem_nil
      · exact ih h
    · next hd =>
      rcases List.mem_cons.mp h with rfl | h
      · exact fun hc => (List.mem_cons.mp hc).elim (fun heq => hd heq.symm) (ih List.mem_cons_self)
      · exact ih (List.mem_cons_of_mem first h)

end Text

namespace Notification

open Text

theorem countOf_repr {n : Nat} (h : n < wordSize 64) : countOf (Nat.repr n) = n := by
  simp only [countOf, plusDigits?_repr]
  exact if_pos h

theorem ne_empty_and_notMem_of_mem_listOf {s name : String} (h : name ∈ listOf s) :
    name ≠ "" ∧ ',' ∉ name.toList := by
  obtain ⟨part, hpart, rfl⟩ := List.mem_map.mp h
  obtain ⟨hpart, hsome⟩ := List.mem_filter.mp hpart
  refine ⟨by simpa using hsome, ?_⟩
  rw [String.toList_ofList]
  exact notMem_of_mem_splitOnChar hpart

theorem listOf_of_notMem {name : String} (hne : name ≠ "") (hcomma : ',' ∉ name.toList) :
    listOf name = [name] := by
  have hsplit : splitOnChar ',' name.toList = [name.toList] := by
    rw [splitOnChar_eq_splitOn]
    exact List.splitOn_eq_singleton hcomma
  simp [listOf, hsplit, hne]

theorem listOf_intercalate (names : List String) :
    listOf (",".intercalate names) = names.flatMap listOf := by
  induction names with
  | nil => decide
  | cons name names ih =>
    rcases names with _ | ⟨next, rest⟩
    · simp
    · have hwritten : (",".intercalate (name :: next :: rest)).toList =
          name.toList ++ ',' :: (",".intercalate (next :: rest)).toList := by
        simp [String.toList_intercalate]
      have hsplit : listOf (",".intercalate (name :: next :: rest)) =
          listOf name ++ listOf (",".intercalate (next :: rest)) := by
        simp only [listOf, hwritten, splitOnChar_eq_splitOn, List.splitOn_append_cons_self,
          List.filter_append, List.map_append]
      rw [hsplit, ih]
      exact List.flatMap_cons.symm

/-- A list that was written with commas is read back exactly if no name is empty or has a comma. -/
theorem listOf_intercalate_iff {names : List String} :
    listOf (",".intercalate names) = names ↔ ∀ name ∈ names, name ≠ "" ∧ ',' ∉ name.toList := by
  constructor
  · intro h name hname
    exact ne_empty_and_notMem_of_mem_listOf (h.symm ▸ hname)
  · intro h
    have hparts : names.flatMap listOf = names.flatMap ([·]) :=
      List.flatMap_congr fun name hname => listOf_of_notMem (h name hname).1 (h name hname).2
    rw [listOf_intercalate, hparts, List.flatMap_singleton']

end Notification
end SeriesAlarm
