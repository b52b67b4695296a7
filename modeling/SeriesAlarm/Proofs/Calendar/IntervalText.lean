import Mathlib.Data.List.TakeWhile
import SeriesAlarm.Calendar.Interval
import SeriesAlarm.Proofs.Text.Trim
import SeriesAlarm.Proofs.Text.Written

/-!
# The texts of intervals

An interval is written with digits, white space and a spelling of its unit. Reading accepts these
texts and no others. The text that `Interval.text` gives is read back as the interval, so it is the
normal form of all its texts.
-/

namespace SeriesAlarm

open Text

namespace TimeUnit

variable {u v : TimeUnit} {text : List Char} {c : Char}

def IsSpelled (u : TimeUnit) (text : List Char) : Prop := lower (String.ofList text) ∈ u.spellings

instance (u : TimeUnit) (text : List Char) : Decidable (u.IsSpelled text) :=
  inferInstanceAs (Decidable (_ ∈ _))

theorem isSpelled_name (u : TimeUnit) : u.IsSpelled u.name.toList := by
  cases u <;> decide

theorem eq_of_mem_spellings {s : String} (hu : s ∈ u.spellings) (hv : s ∈ v.spellings) : u = v := by
  have hall : ∀ u ∈ all, ∀ s ∈ u.spellings, ∀ v ∈ all, s ∈ v.spellings → u = v := by decide
  exact hall u (mem_all u) s hu v (mem_all v) hv

theorem ofText?_eq_some_iff {s : String} : ofText? s = some u ↔ u.IsSpelled (trimChars s.toList) := by
  unfold ofText? IsSpelled
  constructor
  · intro h
    simpa [trim] using List.find?_some h
  · intro h
    have hsome : (all.find? fun u => u.spellings.contains (lower (trim s))).isSome :=
      List.find?_isSome.mpr ⟨u, mem_all u, by simpa [trim] using h⟩
    obtain ⟨v, hv⟩ := Option.isSome_iff_exists.mp hsome
    have hspelled : lower (trim s) ∈ v.spellings := by simpa using List.find?_some hv
    rw [hv, eq_of_mem_spellings hspelled h]

theorem IsSpelled.isWord (h : u.IsSpelled text) (hc : c ∈ text) :
    isDigit c = false ∧ isBlank c = false := by
  have hall : ∀ u ∈ all, ∀ s ∈ u.spellings, s.toList.all fun c => !isDigit c && !isBlank c := by
    decide
  have hmem : c.toLower ∈ (lower (String.ofList text)).toList := by simpa using ⟨c, hc, rfl⟩
  have hlower := List.all_eq_true.mp (hall u (mem_all u) _ h) c.toLower hmem
  simp only [Bool.and_eq_true, Bool.not_eq_true'] at hlower
  refine ⟨Bool.eq_false_iff.mpr fun hdigit => ?_, Bool.eq_false_iff.mpr fun hblank => ?_⟩
  · have hbounds := isDigit_bounds hdigit
    rw [toLower_eq_self (by omega)] at hlower
    exact absurd hdigit (Bool.eq_false_iff.mp hlower.1)
  · have hbounds := isBlank_bounds hblank
    rw [toLower_eq_self (by omega)] at hlower
    exact absurd hblank (Bool.eq_false_iff.mp hlower.2)

theorem IsSpelled.ne_nil (h : u.IsSpelled text) : text ≠ [] := by
  rintro rfl
  have hall : ∀ u ∈ all, ¬ u.IsSpelled [] := by decide
  exact hall u (mem_all u) h

end TimeUnit

namespace Interval

variable {s : String} {i : Interval} {u : TimeUnit} {n : Nat} {cs : List Char}

/-- Digits, white space and a spelling of the unit; both the digits and the white space may be
missing, and no digits count for one. -/
def IsWritten (text : List Char) (u : TimeUnit) (n : Nat) : Prop :=
  ∃ digits blanks name, text = digits ++ blanks ++ name ∧ (∀ c ∈ digits, isDigit c = true) ∧
    (∀ c ∈ blanks, isBlank c = true) ∧ u.IsSpelled name ∧
    n = if digits = [] then 1 else digitsValue digits

theorem isSpelled_trimChars_iff {rest : List Char} (h : trimEnd rest = rest) :
    u.IsSpelled (trimChars rest) ↔
      ∃ blanks name, rest = blanks ++ name ∧ (∀ c ∈ blanks, isBlank c = true) ∧ u.IsSpelled name := by
  constructor
  · intro hname
    have hsplit : rest.takeWhile isBlank ++ trimStart rest = rest := List.takeWhile_append_dropWhile
    have hend : trimEnd (trimStart rest) = trimStart rest :=
      trimEnd_of_trimEnd_append (a := rest.takeWhile isBlank) (by rwa [hsplit])
    rw [trimChars, hend] at hname
    exact ⟨_, _, hsplit.symm, fun c hc => List.mem_takeWhile_imp hc, hname⟩
  · rintro ⟨blanks, name, rfl, hblanks, hname⟩
    have hstart : trimChars (blanks ++ name) = trimChars name :=
      congrArg trimEnd (List.dropWhile_append_of_pos hblanks)
    have hself : trimChars name = name :=
      trimChars_eq_self (fun c hc => (hname.isWord (List.mem_of_mem_head? hc)).2)
        (fun c hc => (hname.isWord (List.mem_of_getLast? hc)).2)
    rwa [hstart, hself]

/-- A text is written in one way: its first digits are the count. -/
theorem isWritten_iff (h : trimEnd cs = cs) : IsWritten cs u n ↔
    (n = if cs.takeWhile isDigit = [] then 1 else digitsValue (cs.takeWhile isDigit)) ∧
      u.IsSpelled (trimChars (cs.dropWhile isDigit)) := by
  have hsplit : cs.takeWhile isDigit ++ cs.dropWhile isDigit = cs :=
    List.takeWhile_append_dropWhile
  have hend : trimEnd (cs.dropWhile isDigit) = cs.dropWhile isDigit :=
    trimEnd_of_trimEnd_append (a := cs.takeWhile isDigit) (by rwa [hsplit])
  rw [isSpelled_trimChars_iff hend]
  constructor
  · rintro ⟨digits, blanks, name, rfl, hdigits, hblanks, hname, rfl⟩
    have hrest : ∀ c ∈ blanks ++ name, ¬ isDigit c = true := by
      intro c hc hdigit
      rcases List.mem_append.mp hc with hc | hc
      · exact absurd (hblanks c hc) (Bool.eq_false_iff.mp (isBlank_of_isDigit hdigit))
      · exact absurd hdigit (Bool.eq_false_iff.mp (hname.isWord hc).1)
    have htake : (blanks ++ name).takeWhile isDigit = [] :=
      List.takeWhile_eq_nil_iff.mpr fun hpos => hrest _ (List.get_mem _ ⟨0, hpos⟩)
    have hdrop : (blanks ++ name).dropWhile isDigit = blanks ++ name :=
      List.dropWhile_eq_self_iff.mpr fun hpos => hrest _ (List.getElem_mem hpos)
    rw [List.append_assoc, List.takeWhile_append_of_pos hdigits,
      List.dropWhile_append_of_pos hdigits, htake, hdrop, List.append_nil]
    exact ⟨rfl, blanks, name, rfl, hblanks, hname⟩
  · rintro ⟨rfl, blanks, name, hrest, hblanks, hname⟩
    refine ⟨_, blanks, name, ?_, fun c hc => List.mem_takeWhile_imp hc, hblanks, hname, rfl⟩
    rw [List.append_assoc, ← hrest, hsplit]

/-- Reading accepts what is written, and gives what it says. -/
theorem parse_eq_ok_iff : parse s = .ok i ↔ IsWritten (trimChars s.toList) i.base i.multiplier := by
  rw [isWritten_iff (trimEnd_trimChars s.toList)]
  have hunit : TimeUnit.ofText? (String.ofList ((trimChars s.toList).dropWhile isDigit)) =
      some i.base ↔ i.base.IsSpelled (trimChars ((trimChars s.toList).dropWhile isDigit)) := by
    rw [TimeUnit.ofText?_eq_some_iff, String.toList_ofList]
  rw [← hunit]
  fun_cases parse s with
  | case1 text digits n hbig =>
    refine iff_of_false nofun fun h => absurd i.multiplier_lt ?_
    rw [h.1]
    exact Nat.not_lt.mpr hbig
  | case2 text digits n hbig hzero =>
    refine iff_of_false nofun fun h => absurd i.multiplier_pos ?_
    rw [h.1]
    exact Nat.not_lt.mpr (Nat.le_of_eq hzero)
  | case3 text digits rest n hbig hzero base hbase =>
    constructor
    · rintro ⟨⟩
      exact ⟨rfl, hbase⟩
    · rintro ⟨hcount, hunit⟩
      obtain ⟨base', multiplier, hpos, hlt⟩ := i
      cases hbase.symm.trans hunit
      cases hcount
      rfl
  | case4 text digits rest n hbig hzero hnone =>
    exact iff_of_false nofun fun h => nomatch hnone.symm.trans h.2

theorem parse_text (i : Interval) : parse i.text = .ok i := by
  have htext : i.text.toList = Nat.toDigits 10 i.multiplier ++ i.base.name.toList := by
    rw [text, String.toList_append, Nat.repr_eq_ofList_toDigits, String.toList_ofList]
  have hname := TimeUnit.isSpelled_name i.base
  have htrim : trimChars i.text.toList = i.text.toList := by
    rw [htext]
    refine trimChars_eq_self (fun c hc => ?_) (fun c hc => ?_)
    · rw [List.head?_append_of_ne_nil _ Nat.toDigits_ne_nil] at hc
      exact isBlank_of_isDigit (isDigit_of_mem_toDigits (List.mem_of_mem_head? hc))
    · rw [List.getLast?_append_of_ne_nil _ hname.ne_nil] at hc
      exact (hname.isWord (List.mem_of_getLast? hc)).2
  rw [parse_eq_ok_iff, htrim, htext]
  refine ⟨Nat.toDigits 10 i.multiplier, [], i.base.name.toList, by simp,
    fun c hc => isDigit_of_mem_toDigits hc, nofun, hname, ?_⟩
  rw [if_neg Nat.toDigits_ne_nil, digitsValue_toDigits]

def normalText? (s : String) : Option String := (parse s).toOption.map text

/-- A text is accepted exactly if it is digits for a number that fits, white space and a spelling of a
unit. An interval is read back from its own text, so the normal form of a text is its own normal
form. -/
theorem parse_canonical :
    (∀ s, (∃ i, parse s = .ok i) ↔
      ∃ u n, IsWritten (trimChars s.toList) u n ∧ 1 ≤ n ∧ n ≤ wordSize 32 - 1) ∧
    (∀ s i, parse s = .ok i ↔ IsWritten (trimChars s.toList) i.base i.multiplier) ∧
    (∀ i, parse i.text = .ok i) ∧
    ∀ s t, normalText? s = some t → normalText? t = some t := by
  refine ⟨fun s => ?_, fun s i => parse_eq_ok_iff, parse_text, fun s t ht => ?_⟩
  · constructor
    · rintro ⟨i, hi⟩
      exact ⟨i.base, i.multiplier, parse_eq_ok_iff.mp hi, i.multiplier_pos,
        Nat.le_sub_one_of_lt i.multiplier_lt⟩
    · rintro ⟨u, n, hwritten, hpos, hle⟩
      have hlt : n < wordSize 32 := Nat.lt_of_le_pred (wordSize_pos 32) hle
      exact ⟨⟨u, n, hpos, hlt⟩, parse_eq_ok_iff.mpr hwritten⟩
  · obtain ⟨i, -, rfl⟩ := Option.map_eq_some_iff.mp ht
    simp [normalText?, parse_text, Except.toOption]

example : normalText? " 0015  MINUTES " = some "15Minute" := by decide +kernel

end Interval
end SeriesAlarm
