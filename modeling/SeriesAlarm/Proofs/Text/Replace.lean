import Mathlib.Data.List.Count
import SeriesAlarm.Text.Replace

/-!
# Splitting and replacing

A text is split around the first occurrence of a character in one way only, and replacing that
occurrence leaves what stands on both sides of it. Around other occurrences it may be split in
several ways, one of them in a part of another. If there is but one occurrence, replacing the first is
replacing all, and the new text can be told from the result.
-/

namespace SeriesAlarm
namespace Text

variable {c : Char} {new new' cs a b : List Char}

/-- A text that is split around a character in two ways has one of the splits behind the other. -/
theorem append_cons_eq_append_cons_iff {a' b' : List Char} (hne : a ≠ a') :
    a ++ c :: b = a' ++ c :: b' ↔
      (∃ rest, a' = a ++ c :: rest ∧ b = rest ++ c :: b') ∨
        ∃ rest, a = a' ++ c :: rest ∧ b' = rest ++ c :: b := by
  have hside {a b a' b' : List Char} (hne : a ≠ a') :
      (∃ part, a' = a ++ part ∧ c :: b = part ++ c :: b') ↔
        ∃ rest, a' = a ++ c :: rest ∧ b = rest ++ c :: b' := by
    constructor
    · rintro ⟨_ | ⟨d, rest⟩, ha', hb⟩
      · exact absurd (by rw [ha', List.append_nil]) hne
      · cases hb
        exact ⟨rest, ha', rfl⟩
    · rintro ⟨rest, ha', rfl⟩
      exact ⟨c :: rest, ha', rfl⟩
  rw [List.append_eq_append_iff, hside hne, hside (Ne.symm hne)]

theorem splitAt?_eq_some_iff : splitAt? c cs = some (a, b) ↔ cs = a ++ c :: b ∧ c ∉ a := by
  refine ⟨splitAt?_eq_some, ?_⟩
  rintro ⟨rfl, ha⟩
  induction a with
  | nil => simp [splitAt?]
  | cons d a ih =>
    obtain ⟨hd, ha⟩ := not_or.mp (mt List.mem_cons.mpr ha)
    simp [splitAt?, Ne.symm hd, ih ha]

theorem replaceFirst_append (h : c ∉ a) :
    replaceFirst c new (a ++ c :: b) = a ++ new ++ b := by
  induction a with
  | nil => simp [replaceFirst]
  | cons d a ih =>
    obtain ⟨hd, ha⟩ := not_or.mp (mt List.mem_cons.mpr h)
    simp [replaceFirst, Ne.symm hd, ih ha]

theorem notMem_replaceFirst_iff (h : c ∈ cs) :
    c ∉ replaceFirst c new cs ↔ c ∉ new ∧ cs.count c ≤ 1 := by
  obtain ⟨a, b, rfl, ha⟩ := List.eq_append_cons_of_mem h
  rw [replaceFirst_append ha, List.count_append, List.count_cons_self,
    List.count_eq_zero_of_not_mem ha]
  simp [ha, List.count_eq_zero]

def replaceEach (c : Char) (new cs : List Char) : List Char :=
  cs.flatMap fun d => if d = c then new else [d]

theorem replaceEach_of_notMem (h : c ∉ cs) : replaceEach c new cs = cs := by
  induction cs with
  | nil => rfl
  | cons d cs ih =>
    obtain ⟨hd, hcs⟩ := not_or.mp (mt List.mem_cons.mpr h)
    have hrest := ih hcs
    unfold replaceEach at hrest ⊢
    simp [hrest, Ne.symm hd]

theorem replaceEach_single (ha : c ∉ a) (hb : c ∉ b) :
    replaceEach c new (a ++ c :: b) = a ++ new ++ b := by
  have hleft : replaceEach c new a = a := replaceEach_of_notMem ha
  have hright : replaceEach c new b = b := replaceEach_of_notMem hb
  unfold replaceEach at hleft hright ⊢
  simp [hleft, hright]

theorem count_eq_one_iff : cs.count c = 1 ↔ ∃ a b, cs = a ++ c :: b ∧ c ∉ a ∧ c ∉ b := by
  constructor
  · intro h
    have hmem : c ∈ cs := List.count_pos_iff.mp (by omega)
    obtain ⟨a, b, rfl, ha⟩ := List.eq_append_cons_of_mem hmem
    rw [List.count_append, List.count_cons_self, List.count_eq_zero_of_not_mem ha] at h
    exact ⟨a, b, rfl, ha, List.count_eq_zero.mp (by omega)⟩
  · rintro ⟨a, b, rfl, ha, hb⟩
    simp [List.count_eq_zero_of_not_mem ha, List.count_eq_zero_of_not_mem hb]

/-- What a single occurrence was replaced by can be told from the result. -/
theorem eq_of_replaceEach_eq (h : cs.count c = 1)
    (heq : replaceEach c new cs = replaceEach c new' cs) : new = new' := by
  obtain ⟨a, b, rfl, ha, hb⟩ := count_eq_one_iff.mp h
  rw [replaceEach_single ha hb, replaceEach_single ha hb] at heq
  exact List.append_cancel_left (List.append_cancel_right heq)

end Text
end SeriesAlarm
