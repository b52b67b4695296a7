import Mathlib.Tactic.SplitIfs
import SeriesAlarm.Calendar.Span
import SeriesAlarm.Engine.Basic

/-!
# The finest interval

The nominal length of an interval always makes a span, but the multiplier is read as a signed number: from
half a word on it counts as negative, and the interval as shorter than any that does not. So the interval
that is called the finest has the least length as long as no test has such a multiplier.
-/

namespace SeriesAlarm

namespace Interval

variable {i : Interval}

def exactSeconds (i : Interval) : Nat := i.base.nominalSeconds * i.multiplier

/-- The multiplier is a negative number when it is read as a signed one. -/
def Wraps (i : Interval) : Prop := wordSize 31 ≤ i.multiplier

instance (i : Interval) : Decidable i.Wraps := inferInstanceAs (Decidable (_ ≤ _))

theorem bmod_of_not_wraps (h : ¬ i.Wraps) : Int.bmod i.multiplier (wordSize 32) = i.multiplier := by
  have hlt : i.multiplier < 2147483648 := Nat.lt_of_not_le h
  have hsize : wordSize 32 = 4294967296 := rfl
  rw [hsize]
  exact Int.bmod_eq_of_le (by omega) (by omega)

theorem bmod_of_wraps (h : i.Wraps) :
    Int.bmod i.multiplier (wordSize 32) = i.multiplier - wordSize 32 := by
  have hle : 2147483648 ≤ i.multiplier := h
  have hlt : i.multiplier < 4294967296 := i.multiplier_lt
  have hsize : wordSize 32 = 4294967296 := rfl
  rw [← Int.sub_bmod_right, hsize]
  exact Int.bmod_eq_of_le (by omega) (by omega)

theorem nominalSeconds_of_not_wraps (h : ¬ i.Wraps) : i.nominalSeconds = i.exactSeconds := by
  rw [nominalSeconds, bmod_of_not_wraps h, exactSeconds]
  push_cast
  rfl

theorem unit_pos (u : TimeUnit) : 0 < u.nominalSeconds := by cases u <;> decide

theorem nominalSeconds_neg_iff : i.nominalSeconds < 0 ↔ i.Wraps := by
  by_cases h : i.Wraps
  · refine iff_of_true ?_ h
    have hlt := i.multiplier_lt
    rw [nominalSeconds, bmod_of_wraps h]
    exact Int.mul_neg_of_pos_of_neg (Int.natCast_pos.mpr (unit_pos i.base)) (by omega)
  · refine iff_of_false ?_ h
    rw [nominalSeconds_of_not_wraps h]
    omega

theorem span?_eq (i : Interval) : i.span? = some i.nominalSeconds := by
  have hlow := Int.le_bmod (x := i.multiplier) (m := wordSize 32) (by decide)
  have hhigh := Int.bmod_lt (x := i.multiplier) (m := wordSize 32) (by decide)
  rw [span?, Span.times?, if_pos, nominalSeconds]
  have hsize : wordSize 32 = 4294967296 := rfl
  have hlong : (wordSize 63 : Int) = 9223372036854775808 := rfl
  rw [hlong]
  rw [hsize] at hlow hhigh ⊢
  cases i.base <;> simp only [TimeUnit.nominalSeconds] <;> omega

end Interval

namespace Engine

variable {is : List Interval} {i f : Interval}

theorem leastInterval_cons_cons (i j : Interval) (is : List Interval) :
    leastInterval (i :: j :: is) =
      leastInterval ((if i.nominalSeconds ≤ j.nominalSeconds then i else j) :: is) := by
  cases hleast : leastInterval is with
  | none => simp [leastInterval, hleast]
  | some k =>
    simp only [leastInterval, hleast]
    split_ifs <;> first | rfl | omega

theorem exists_leastInterval (i : Interval) (is : List Interval) :
    ∃ f, leastInterval (i :: is) = some f := by
  rw [leastInterval]
  cases leastInterval is with
  | none => exact ⟨i, rfl⟩
  | some j => exact ⟨_, rfl⟩

theorem leastInterval_bounds (h : leastInterval is = some f) :
    f ∈ is ∧ ∀ j ∈ is, f.nominalSeconds ≤ j.nominalSeconds := by
  induction is generalizing f with
  | nil => cases h
  | cons i is ih =>
    rw [leastInterval] at h
    cases hleast : leastInterval is with
    | none =>
      cases is with
      | nil =>
        rw [hleast] at h
        cases h
        simp
      | cons j js =>
        obtain ⟨k, hk⟩ := exists_leastInterval j js
        cases hleast.symm.trans hk
    | some k =>
      simp only [hleast, Option.some.injEq] at h
      obtain ⟨hmem, hle⟩ := ih hleast
      by_cases hi : i.nominalSeconds ≤ k.nominalSeconds
      · rw [if_pos hi] at h
        subst h
        refine ⟨List.mem_cons_self, fun j hj => ?_⟩
        rcases List.mem_cons.mp hj with rfl | hj
        · exact Int.le_refl _
        · exact Int.le_trans hi (hle j hj)
      · rw [if_neg hi] at h
        subst h
        refine ⟨List.mem_cons_of_mem i hmem, fun j hj => ?_⟩
        rcases List.mem_cons.mp hj with rfl | hj
        · omega
        · exact hle j hj

/-- The search for the least span, each interval compared with the best of those before it: nothing if one
of them makes no span. -/
def leastFrom? (best : Interval) : List Interval → Option Interval
  | [] => best.span?.map fun _ => best
  | j :: js => do
    let m ← best.span?
    let n ← j.span?
    leastFrom? (if m ≤ n then best else j) js

/-- Every interval makes a span, and the search finds the first of the least ones. -/
theorem leastFrom?_eq (i : Interval) (is : List Interval) :
    leastFrom? i is = leastInterval (i :: is) := by
  induction is generalizing i with
  | nil => simp [leastFrom?, Interval.span?_eq, leastInterval]
  | cons j js ih =>
    rw [leastInterval_cons_cons, ← ih, leastFrom?, i.span?_eq, j.span?_eq]
    rfl

def IsFinest (is : List Interval) (f : Interval) : Prop :=
  f ∈ is ∧ ∀ j ∈ is, f.exactSeconds ≤ j.exactSeconds

theorem isFinest_of_not_wraps (h : ∀ j ∈ is, ¬ j.Wraps) (hf : leastInterval is = some f) :
    IsFinest is f := by
  obtain ⟨hmem, hle⟩ := leastInterval_bounds hf
  refine ⟨hmem, fun j hj => ?_⟩
  have hnominal := hle j hj
  rw [Interval.nominalSeconds_of_not_wraps (h f hmem),
    Interval.nominalSeconds_of_not_wraps (h j hj)] at hnominal
  exact Int.ofNat_le.mp hnominal

/-- One multiplier that wraps makes the least one wrap: its exact length is half a word of seconds or more. -/
theorem le_exactSeconds_of_wraps (hi : i ∈ is) (hwraps : i.Wraps) (hf : leastInterval is = some f) :
    wordSize 31 ≤ f.exactSeconds := by
  have hnominal := (leastInterval_bounds hf).2 i hi
  have hneg := Interval.nominalSeconds_neg_iff.mpr hwraps
  have hfwraps : f.Wraps := Interval.nominalSeconds_neg_iff.mp (by omega)
  exact Nat.le_trans hfwraps (Nat.le_mul_of_pos_left f.multiplier (Interval.unit_pos f.base))

theorem exists_intervals {e : Engine} (h : e.tests ≠ []) : ∃ i is, e.intervals = i :: is := by
  obtain ⟨s, ss, hs⟩ := List.exists_cons_of_ne_nil h
  exact ⟨s.schedule.interval, _, by rw [intervals, hs, List.flatMap_cons, List.cons_append]⟩

theorem exists_finestInterval {e : Engine} (h : e.tests ≠ []) : ∃ f, e.finestInterval = some f := by
  obtain ⟨i, is, his⟩ := exists_intervals h
  rw [finestInterval, his]
  exact exists_leastInterval i is

/-- Once there is a test, the search for the finest interval does not fault, and ends in one of the intervals
that is no longer than any other by nominal length. It has the least exact length if no multiplier wraps; and
only then, if one of the intervals is shorter than half a word of seconds, some 68 years. -/
theorem finestInterval_isFinest_iff {e : Engine} (h : e.tests ≠ []) :
    ∃ i is f, e.intervals = i :: is ∧ leastFrom? i is = some f ∧ e.finestInterval = some f ∧
      f ∈ e.intervals ∧ (∀ j ∈ e.intervals, f.nominalSeconds ≤ j.nominalSeconds) ∧
      ((∀ j ∈ e.intervals, ¬ j.Wraps) → IsFinest e.intervals f) ∧
      ((∃ j ∈ e.intervals, j.exactSeconds < wordSize 31) →
        (IsFinest e.intervals f ↔ ∀ j ∈ e.intervals, ¬ j.Wraps)) := by
  obtain ⟨i, is, his⟩ := exists_intervals h
  obtain ⟨f, hf⟩ := exists_leastInterval i is
  have hsearch := (leastFrom?_eq i is).trans hf
  rw [← his] at hf
  obtain ⟨hmem, hle⟩ := leastInterval_bounds hf
  refine ⟨i, is, f, his, hsearch, hf, hmem, hle, fun hall => isFinest_of_not_wraps hall hf, ?_⟩
  rintro ⟨k, hk, hshort⟩
  constructor
  · intro hfinest j hj hwraps
    have hlong := le_exactSeconds_of_wraps hj hwraps hf
    have hleast := hfinest.2 k hk
    omega
  · exact fun hall => isFinest_of_not_wraps hall hf

def ofTwo (i j : Interval) : Engine where
  tests := [{
    id := "level", name := "Level", root := .leaf (.ofConstant 1), window := .oneDay
    schedule := { base := { format := "HH:mm" }, interval := i, positiveInterval := some j } }]
  actions := []

/-- A day beside two thousand million seconds, some 63 years, which do not wrap. -/
theorem finestInterval_isFinest_day :
    let i : Interval := { base := .second, multiplier := 2000000000 }
    let day : Interval := { base := .day, multiplier := 1 }
    let e := ofTwo i day
    e.tests ≠ [] ∧ e.finestInterval = some day ∧ IsFinest e.intervals day := by
  intro i day e
  have htests : e.tests ≠ [] := List.cons_ne_nil _ _
  have hday : e.finestInterval = some day := by decide
  obtain ⟨-, -, f, -, -, hf, -, -, hfinest, -⟩ := finestInterval_isFinest_iff htests
  cases hf.symm.trans hday
  exact ⟨htests, hday, hfinest (by decide)⟩

/-- Three thousand million seconds, some 95 years, are called finer than one hour. -/
theorem not_isFinest_centuryOfSeconds :
    let archive : Interval := { base := .second, multiplier := 3000000000 }
    let hour : Interval := { base := .hour, multiplier := 1 }
    let e := ofTwo archive hour
    e.finestInterval = some archive ∧ ¬ IsFinest e.intervals archive := by
  intro archive hour e
  refine ⟨by decide, fun h => ?_⟩
  have hmem : hour ∈ e.intervals := List.mem_cons_of_mem archive List.mem_cons_self
  exact absurd (h.2 hour hmem) (by decide)

end Engine
end SeriesAlarm
