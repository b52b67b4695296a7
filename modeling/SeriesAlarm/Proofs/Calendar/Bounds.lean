import SeriesAlarm.Calendar.Season
import SeriesAlarm.Proofs.Calendar.Regular
import SeriesAlarm.Rule.Test

/-!
# The bounds of a scan

Looking back from an instant stays in the calendar, and the bounds of a scan lie between its beginning
and the anchor. The first day of a season without a time of day begins at midnight, so the bounds are
those of the window and of the season, both taken together.
-/

namespace SeriesAlarm

namespace Instant

theorem truncate_day (t : Instant) : (t.truncate .day).nanos = t.nanos - t.nanos % nanosPerDay :=
  rfl

theorem first_le_truncate_day {t : Instant} (h : first ≤ t) : first ≤ t.truncate .day := by
  obtain ⟨k, hk⟩ := nanosPerDay_dvd_first
  rw [le_def, hk] at h
  rw [le_def, hk, truncate_day]
  unfold nanosPerDay at h ⊢
  omega

theorem first_le_last : first ≤ last := by decide

theorem first_le_of_shiftMonths? {t u : Instant} {m : Int} (h : t.shiftMonths? m = some u) :
    first ≤ u := by
  unfold shiftMonths? at h
  dsimp only at h
  split at h
  · next hyear =>
    cases h
    obtain ⟨-, -, hday, -⟩ := Date.ofDayNumber_bounds (t.nanos / nanosPerDay)
    have hmonth := Date.monthStart_le_shiftMonths (d := t.date) hday m
    have hlow : 12 * firstYear ≤ t.date.monthNumber + m := by
      have hdiv := hyear.1
      rw [Date.shiftMonths_year] at hdiv
      omega
    have hstart := Date.monthStart_le_iff.mpr hlow
    rw [le_def, first_eq]
    unfold nanosPerDay
    dsimp only
    omega
  · cases h

theorem emod_of_shiftMonths? {t u : Instant} {m : Int} (h : t.shiftMonths? m = some u) :
    u.nanos % nanosPerDay = t.nanos % nanosPerDay := by
  unfold shiftMonths? at h
  dsimp only at h
  split at h
  · cases h
    unfold nanosPerDay
    dsimp only
    omega
  · cases h

end Instant

/-- A shift by months stays where it is, ends at an end of the calendar, or reaches a month. -/
theorem Interval.shiftMonthsSaturating_cases (t : Instant) (m : Int) :
    shiftMonthsSaturating t m = t ∨
      shiftMonthsSaturating t m = (if 0 ≤ m then Instant.last else Instant.first) ∨
      ∃ n, t.shiftMonths? n = some (shiftMonthsSaturating t m) := by
  unfold shiftMonthsSaturating
  dsimp only
  by_cases hzero : m.natAbs % wordSize 32 = 0
  · rw [if_pos hzero]
    exact .inl rfl
  rw [if_neg hzero]
  by_cases hbig : monthLimit ≤ m.natAbs % wordSize 32
  · rw [if_pos hbig]
    exact .inr (.inl rfl)
  rw [if_neg hbig]
  cases hshift : t.shiftMonths? (if 0 ≤ m then ((m.natAbs % wordSize 32 : Nat) : Int)
      else -((m.natAbs % wordSize 32 : Nat) : Int)) with
  | none => exact .inr (.inl rfl)
  | some u => exact .inr (.inr ⟨_, hshift⟩)

theorem Interval.first_le_add? {i : Interval} {t u : Instant} {n : Int} (ht : Instant.first ≤ t)
    (h : i.add? t n = some u) : Instant.first ≤ u := by
  have hshift {seconds : Int} (h : t.shift seconds = some u) : Instant.first ≤ u := by
    unfold Instant.shift Instant.inRange? at h
    split at h
    · next hrange =>
      cases h
      exact hrange.1
    · cases h
  have hmonths (m : Int) : Instant.first ≤ shiftMonthsSaturating t m := by
    rcases shiftMonthsSaturating_cases t m with heq | heq | ⟨n, heq⟩
    · rw [heq]
      exact ht
    · rw [heq]
      split
      · exact Instant.first_le_last
      · exact Int.le_refl _
    · exact Instant.first_le_of_shiftMonths? heq
  unfold add? at h
  cases hu : i.base <;> rw [hu] at h
  · exact hshift h
  · exact hshift h
  · exact hshift h
  · exact hshift h
  · cases h
    exact hmonths _
  · dsimp only at h
    split at h
    · cases h
      exact hmonths _
    · cases h

theorem Instant.isSome_shift_iff {t : Instant} {seconds : Int} :
    (t.shift seconds).isSome ↔ InRange ⟨t.nanos + seconds * nanosPerSecond⟩ := by
  unfold shift inRange?
  split
  · next h => simp [h]
  · next h => simp [h]

theorem Interval.isSome_next?_of_le {i : Interval} {t u : Instant} (ht : Instant.first ≤ t)
    (hle : t ≤ u) (h : (i.next? u).isSome) : (i.next? t).isSome := by
  have hshift {seconds : Int} (hpos : 0 ≤ seconds) (h : (u.shift seconds).isSome) :
      (t.shift seconds).isSome := by
    rw [Instant.isSome_shift_iff] at h ⊢
    obtain ⟨-, hlast⟩ := h
    simp only [Instant.InRange, Instant.le_def, nanosPerSecond] at ht hle hlast ⊢
    omega
  unfold next? add? at h ⊢
  cases hu : i.base <;> rw [hu] at h
  · exact hshift (by omega) h
  · exact hshift (by omega) h
  · exact hshift (by omega) h
  · exact hshift (by omega) h
  · rfl
  · dsimp only at h ⊢
    split
    · rfl
    · next hwide =>
      rw [if_neg hwide] at h
      cases h

namespace Season

theorem inYear?_midnight {p : TimePattern} (hp : p.hasTime = false) {year : Int} {t : Instant}
    (h : p.inYear? year = some t) : t.nanos % nanosPerDay = 0 := by
  obtain ⟨⟨hhour, hminute⟩, hsecond⟩ : (p.hour = none ∧ p.minute = none) ∧ p.second = none := by
    simpa [TimePattern.hasTime] using hp
  obtain ⟨month, -, h⟩ := Option.bind_eq_some_iff.mp h
  rw [hhour, hminute, hsecond] at h
  unfold Instant.ofFields? at h
  split at h
  · cases h
    simp [Instant.ofDate]
  · cases h

theorem truncate_first {s : Season} (hs : s.start.hasTime = false) {t first last : Instant}
    (h : s.bounds? t = some (first, last)) : first.truncate .day = first := by
  have hmidnight : first.nanos % nanosPerDay = 0 := by
    simp only [bounds?, Option.bind_eq_bind, Option.bind_eq_some_iff] at h
    obtain ⟨f, hf, l, -, h⟩ := h
    have hfirst := inYear?_midnight hs hf
    split at h
    · split at h
      · obtain ⟨f', hf', heq⟩ := Option.map_eq_some_iff.mp h
        cases heq
        rw [Instant.emod_of_shiftMonths? hf', hfirst]
      · obtain ⟨l', -, heq⟩ := Option.map_eq_some_iff.mp h
        cases heq
        exact hfirst
    · cases h
      exact hfirst
  apply Instant.ext
  rw [Instant.truncate_day, hmidnight, sub_zero]

end Season

namespace Test

variable {s : Test} {start anchor : Instant}

def seasonBounds? (s : Test) (anchor : Instant) : Option (Instant × Instant) :=
  s.season.bind fun season => season.bounds? anchor

theorem scanBounds_of_none (h : s.seasonBounds? anchor = none) :
    s.scanBounds start anchor = (start, anchor) := by
  change s.season.bind _ = none at h
  rw [scanBounds, h]

theorem scanBounds_of_some {first last : Instant}
    (h : s.seasonBounds? anchor = some (first, last)) :
    s.scanBounds start anchor = (if start < first then first.truncate .day else start,
      if last < anchor then last else anchor) := by
  change s.season.bind _ = _ at h
  rw [scanBounds, h]

theorem first_le_scanBounds (h : Instant.first ≤ start) :
    Instant.first ≤ (s.scanBounds start anchor).1 := by
  cases hbounds : s.seasonBounds? anchor with
  | none =>
    rw [scanBounds_of_none hbounds]
    exact h
  | some bounds =>
    rw [scanBounds_of_some hbounds]
    dsimp only
    split
    · next hlt => exact Instant.first_le_truncate_day (Int.le_trans h (Int.le_of_lt hlt))
    · exact h

theorem scanBounds_le_anchor : (s.scanBounds start anchor).2 ≤ anchor := by
  cases hbounds : s.seasonBounds? anchor with
  | none =>
    rw [scanBounds_of_none hbounds]
    exact Int.le_refl _
  | some bounds =>
    rw [scanBounds_of_some hbounds]
    dsimp only
    split
    · next hlt => exact Int.le_of_lt hlt
    · exact Int.le_refl _

/-- The bounds of a scan are the window and the season, where the season begins at midnight. -/
theorem scanBounds_iff (hs : ∀ season, s.season = some season → season.start.hasTime = false)
    {u : Instant} :
    ((s.scanBounds start anchor).1 ≤ u ∧ u ≤ (s.scanBounds start anchor).2) ↔
      start ≤ u ∧ u ≤ anchor ∧
        ∀ first last, s.seasonBounds? anchor = some (first, last) → first ≤ u ∧ u ≤ last := by
  cases hbounds : s.seasonBounds? anchor with
  | none =>
    rw [scanBounds_of_none hbounds]
    simp
  | some bounds =>
    obtain ⟨first, last⟩ := bounds
    obtain ⟨season, hseason, hfirst⟩ := Option.bind_eq_some_iff.mp hbounds
    have hday : first.truncate .day = first := season.truncate_first (hs season hseason) hfirst
    rw [scanBounds_of_some hbounds, hday]
    simp only [Option.some.injEq, Prod.mk.injEq, Instant.le_def, Instant.lt_def]
    constructor
    · rintro ⟨hlow, hhigh⟩
      refine ⟨?_, ?_, ?_⟩
      · split at hlow <;> omega
      · split at hhigh <;> omega
      · rintro f l ⟨rfl, rfl⟩
        constructor
        · split at hlow <;> omega
        · split at hhigh <;> omega
    · rintro ⟨hstart, hanchor, hboth⟩
      obtain ⟨hlow, hhigh⟩ := hboth first last ⟨rfl, rfl⟩
      constructor
      · split <;> omega
      · split <;> omega

end Test
end SeriesAlarm
