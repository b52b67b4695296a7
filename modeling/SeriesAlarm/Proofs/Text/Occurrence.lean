import Mathlib.Data.List.Basic
import SeriesAlarm.Text.Replace

/-!
# Occurrences of a part

A text may be cut in two without changing what a replacement does to it, if no occurrence of the
part lies across the cut. So it is in front of every character that the part has only as its first,
if it has it at all. A text with words in it is read from its front, word by word.
-/

namespace SeriesAlarm
namespace Text

variable {part other new a b cs : List Char} {c mark : Char} {skip : Nat}

theorem dropLeading?_isSome_iff : (dropLeading? part cs).isSome ↔ part <+: cs := by
  simp only [Option.isSome_iff_exists, dropLeading?_eq_some_iff]
  exact ⟨fun ⟨rest, h⟩ => ⟨rest, h.symm⟩, fun ⟨rest, h⟩ => ⟨rest, h.symm⟩⟩

/-- A text is read from its front, where one of some words stands or a single character. -/
@[elab_as_elim]
theorem word_induction {ι : Type} (word : ι → List Char) (hword : ∀ i, word i ≠ [])
    {motive : List Char → Prop} (nil : motive [])
    (cons_word : ∀ i cs, motive cs → motive (word i ++ cs))
    (cons : ∀ c cs, (∀ i, ¬ word i <+: c :: cs) → motive cs → motive (c :: cs))
    (cs : List Char) : motive cs := by
  induction hn : cs.length using Nat.strongRecOn generalizing cs with
  | ind n ih =>
    subst hn
    cases cs with
    | nil => exact nil
    | cons c cs =>
      by_cases h : ∃ i, word i <+: c :: cs
      · obtain ⟨i, rest, hrest⟩ := h
        have hshort : rest.length < (c :: cs).length := by
          rw [← hrest, List.length_append]
          exact Nat.lt_add_of_pos_left (List.length_pos_iff.mpr (hword i))
        rw [← hrest]
        exact cons_word i rest (ih rest.length hshort rest rfl)
      · exact cons c cs (not_exists.mp h) (ih cs.length (Nat.lt_succ_self _) cs rfl)

/-- No occurrence of the part in the two texts together lies across the cut between them. -/
def CutsNone (part a b : List Char) : Prop :=
  ∀ x y, a ++ b = x ++ part ++ y → x ++ part <+: a ∨ a <+: x

/-- An occurrence is found on one side of the cut. -/
theorem CutsNone.occurrence {x y : List Char} (h : CutsNone part a b)
    (heq : a ++ b = x ++ part ++ y) :
    (∃ z, a = x ++ part ++ z) ∨ ∃ z, x = a ++ z ∧ b = z ++ part ++ y := by
  rcases h x y heq with ⟨z, hz⟩ | ⟨z, hz⟩
  · exact .inl ⟨z, hz.symm⟩
  · refine .inr ⟨z, hz.symm, ?_⟩
    rw [← hz] at heq
    simpa using heq

theorem CutsNone.occurs (h : CutsNone part a b) (hoccurs : part <:+: a ++ b) :
    part <:+: a ∨ part <:+: b := by
  obtain ⟨x, y, heq⟩ := hoccurs
  rcases h.occurrence heq.symm with ⟨z, rfl⟩ | ⟨z, -, rfl⟩
  · exact .inl ⟨x, z, rfl⟩
  · exact .inr ⟨z, y, rfl⟩

theorem CutsNone.of_cons (h : CutsNone part (c :: a) b) : CutsNone part a b := by
  intro x y heq
  simpa using h (c :: x) y (by simp [heq])

theorem cutsNone_cons (h : c ∉ part.tail) : CutsNone part a (c :: b) := by
  intro x y heq
  rw [List.append_assoc, List.append_eq_append_iff] at heq
  rcases heq with ⟨z, hx, -⟩ | ⟨z, ha, hz⟩
  · exact .inr ⟨z, hx.symm⟩
  rcases List.append_eq_append_iff.mp hz with ⟨w, hzw, -⟩ | ⟨w, hpart, hw⟩
  · exact .inl ⟨w, by rw [ha, hzw, List.append_assoc]⟩
  rcases z with _ | ⟨d, z⟩
  · exact .inr ⟨[], by simp [ha]⟩
  rcases w with _ | ⟨d', w⟩
  · exact .inl ⟨[], by simp [ha, hpart]⟩
  · obtain ⟨rfl, -⟩ := List.cons.inj hw
    exact absurd (by simp [hpart]) h

theorem replaceFrom_append (h : CutsNone part a b) (hskip : skip ≤ a.length) :
    replaceFrom part new skip (a ++ b) = replaceFrom part new skip a ++ replaceFrom part new 0 b := by
  induction a generalizing skip with
  | nil =>
    obtain rfl := Nat.le_zero.mp hskip
    rfl
  | cons c a ih =>
    cases skip with
    | succ skip => exact ih h.of_cons (Nat.le_of_succ_le_succ hskip)
    | zero =>
      have hhere : part <+: c :: (a ++ b) ↔ part <+: c :: a := by
        refine ⟨fun ⟨y, hy⟩ => ?_, fun hpart => hpart.trans (List.prefix_append (c :: a) b)⟩
        rcases h [] y hy.symm with hpart | hnil
        · exact hpart
        · exact absurd (List.prefix_nil.mp hnil) (List.cons_ne_nil c a)
      simp only [List.cons_append, replaceFrom, dropLeading?_isSome_iff, hhere]
      split
      · next hpart =>
        have hlength := hpart.length_le
        rw [List.length_cons] at hlength
        rw [ih h.of_cons (by omega), List.append_assoc]
      · rw [ih h.of_cons (Nat.zero_le _), List.cons_append]

theorem replaceAll_append (h : CutsNone part a b) :
    replaceAll part new (a ++ b) = replaceAll part new a ++ replaceAll part new b := by
  unfold replaceAll
  split
  · rfl
  · exact replaceFrom_append h (Nat.zero_le _)

theorem replaceAll_of_absent (h : ¬ part <:+: cs) : replaceAll part new cs = cs := by
  have hfrom : replaceFrom part new 0 cs = cs := by
    induction cs with
    | nil => rfl
    | cons c cs ih =>
      rw [List.infix_cons_iff, not_or] at h
      rw [replaceFrom, if_neg (mt dropLeading?_isSome_iff.mp h.1), ih h.2]
  rw [replaceAll, hfrom, ite_self]

theorem replaceFrom_of_length_le (h : cs.length ≤ skip) : replaceFrom part new skip cs = [] := by
  induction cs generalizing skip with
  | nil => rw [replaceFrom]
  | cons c cs ih =>
    obtain ⟨skip, rfl⟩ := Nat.exists_eq_add_of_lt (Nat.lt_of_lt_of_le (Nat.succ_pos _) h)
    rw [Nat.zero_add, replaceFrom]
    exact ih (Nat.le_of_succ_le_succ (by simpa using h))

theorem replaceAll_self (h : part ≠ []) : replaceAll part new part = new := by
  obtain ⟨c, rest, rfl⟩ := List.exists_cons_of_ne_nil h
  rw [replaceAll, if_neg h, replaceFrom, if_pos (dropLeading?_isSome_iff.mpr (List.prefix_refl _)),
    replaceFrom_of_length_le (by simp), List.append_nil]

/-- The part begins with the mark and has no other. -/
def IsMarked (mark : Char) (part : List Char) : Prop := part.head? = some mark ∧ mark ∉ part.tail

instance : Decidable (IsMarked mark part) := inferInstanceAs (Decidable (_ ∧ _))

theorem IsMarked.ne_nil (h : IsMarked mark part) : part ≠ [] := by
  rintro rfl
  cases h.1

theorem IsMarked.eq_cons (h : IsMarked mark part) : part = mark :: part.tail :=
  (List.cons_head?_tail (Option.mem_def.mpr h.1)).symm

theorem IsMarked.cutsNone (h : IsMarked mark part) (hother : IsMarked mark other) :
    CutsNone part a (other ++ b) := by
  rw [hother.eq_cons]
  exact cutsNone_cons h.2

theorem IsMarked.eq_nil_of_append {x z y : List Char} (h : IsMarked mark part)
    (hother : IsMarked mark other) (hx : other = x ++ z) (hz : z ≠ []) (hy : part <+: z ++ y) :
    x = [] := by
  obtain ⟨d, z, rfl⟩ := List.exists_cons_of_ne_nil hz
  have hd : d = mark := by
    rw [h.eq_cons] at hy
    exact (List.cons_prefix_cons.mp hy).1.symm
  cases x with
  | nil => rfl
  | cons c x =>
    refine absurd ?_ hother.2
    simp [hx, hd]

/-- Behind a marked part a text may be cut if the part looked for is neither the front of that part
nor the other way round, or is the same. -/
theorem IsMarked.cutsNone_behind (h : IsMarked mark part) (hother : IsMarked mark other)
    (hsame : part <+: other ∨ other <+: part → part = other) : CutsNone part other b := by
  intro x y heq
  rw [List.append_assoc, List.append_eq_append_iff] at heq
  rcases heq with ⟨z, hx, -⟩ | ⟨z, hx, hz⟩
  · exact .inr ⟨z, hx.symm⟩
  by_cases hnil : z = []
  · exact .inr ⟨[], by simp [hx, hnil]⟩
  · have hpart : part <+: z ++ b := ⟨y, hz⟩
    obtain rfl := h.eq_nil_of_append hother hx hnil hpart
    obtain rfl : other = z := hx
    refine .inl ?_
    rw [hsame (List.prefix_or_prefix_of_prefix hpart (List.prefix_append ..))]
    exact List.prefix_refl _

theorem IsMarked.begins_of_occurs (h : IsMarked mark part) (hother : IsMarked mark other)
    (hoccurs : part <:+: other) : part <+: other := by
  obtain ⟨x, y, heq⟩ := hoccurs
  have hx : x = [] := by
    refine h.eq_nil_of_append hother (z := part ++ y) (y := []) ?_ ?_ ?_
    · rw [← heq, List.append_assoc]
    · simp [h.ne_nil]
    · simp
  exact ⟨y, by rw [← heq, hx, List.nil_append]⟩

theorem infix_of_disjoint {s : List Char} (hs : s ≠ []) (hdisjoint : ∀ c ∈ s, c ∉ part)
    (hpart : part ≠ []) (h : part <:+: a ++ (s ++ b)) : part <:+: a ∨ part <:+: b := by
  have hdrop : part <:+: s ++ b → part <:+: b := by
    clear h hs
    induction s with
    | nil => exact fun h => h
    | cons c s ih =>
      intro h
      rcases List.infix_cons_iff.mp h with hbegins | hoccurs
      · obtain ⟨d, rest, rfl⟩ := List.exists_cons_of_ne_nil hpart
        obtain ⟨rfl, -⟩ := List.cons_prefix_cons.mp hbegins
        exact absurd List.mem_cons_self (hdisjoint d List.mem_cons_self)
      · exact ih (fun c hc => hdisjoint c (List.mem_cons_of_mem _ hc)) hoccurs
  obtain ⟨c, s, rfl⟩ := List.exists_cons_of_ne_nil hs
  have hcut : CutsNone part a (c :: s ++ b) :=
    cutsNone_cons fun hc => hdisjoint c List.mem_cons_self (List.mem_of_mem_tail hc)
  exact (hcut.occurs h).imp_right hdrop

theorem splitOnText_eq_none_iff : splitOnText part cs = none ↔ ¬ part <:+: cs := by
  induction cs with
  | nil =>
    unfold splitOnText
    by_cases h : part = [] <;> simp [h]
  | cons c cs ih =>
    rw [splitOnText, List.infix_cons_iff, not_or, ← dropLeading?_isSome_iff, ← ih]
    cases dropLeading? part (c :: cs) <;> simp

/-- A text is cut around the occurrence of a marked part that has none before it. -/
theorem splitOnText_eq_some_iff (h : IsMarked mark part) :
    splitOnText part cs = some (a, b) ↔ cs = a ++ part ++ b ∧ ¬ part <:+: a := by
  constructor
  · intro hsplit
    induction cs generalizing a with
    | nil => simp [splitOnText, h.ne_nil] at hsplit
    | cons c cs ih =>
      rw [splitOnText] at hsplit
      cases hfront : dropLeading? part (c :: cs) with
      | some rest =>
        rw [hfront] at hsplit
        cases hsplit
        exact ⟨dropLeading?_eq_some_iff.mp hfront, mt List.infix_nil.mp h.ne_nil⟩
      | none =>
        rw [hfront] at hsplit
        obtain ⟨⟨a', b'⟩, hrest, hpair⟩ := Option.map_eq_some_iff.mp hsplit
        cases hpair
        obtain ⟨rfl, habsent⟩ := ih hrest
        refine ⟨rfl, fun hoccurs => ?_⟩
        rcases List.infix_cons_iff.mp hoccurs with hpart | hpart
        · have hlonger := hpart.trans (List.prefix_append (c :: a') (part ++ b))
          rw [List.cons_append, ← List.append_assoc, ← dropLeading?_isSome_iff, hfront] at hlonger
          cases hlonger
        · exact habsent hpart
  · rintro ⟨rfl, ha⟩
    induction a with
    | nil =>
      obtain ⟨c, rest, rfl⟩ := List.exists_cons_of_ne_nil h.ne_nil
      have hfront : dropLeading? (c :: rest) (c :: rest ++ b) = some b :=
        dropLeading?_eq_some_iff.mpr rfl
      rw [List.cons_append] at hfront
      simp [splitOnText, hfront]
    | cons c a ih =>
      have hcut : CutsNone part (c :: a) (part ++ b) := h.cutsNone h
      have hfront : dropLeading? part (c :: (a ++ part ++ b)) = none := by
        rw [← Option.not_isSome_iff_eq_none, dropLeading?_isSome_iff]
        rintro ⟨rest, hrest⟩
        rcases hcut [] rest (by simp [hrest]) with hpart | hnil
        · exact ha hpart.isInfix
        · exact absurd (List.prefix_nil.mp hnil) (List.cons_ne_nil c a)
      rw [List.infix_cons_iff, not_or] at ha
      simp only [List.cons_append, splitOnText, hfront, ih ha.2, Option.map_some]

end Text
end SeriesAlarm
