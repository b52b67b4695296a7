import SeriesAlarm.Proofs.Calendar.Realign
import SeriesAlarm.Proofs.Calendar.SeasonDays

/-!
# Where the bounds of a season are asked for

A season over New Year has one bound in the year in which it is asked for, and the other is moved there
from the same year. So all instants of a season get the same bounds if each bound moves to itself. A day
that only leap years have does not: in a common year it is the 28th of February, and stays that when it
is moved to a leap year.
-/

namespace SeriesAlarm

namespace Date

variable {d : Date}

theorem shiftMonths_years (h : 1 ≤ d.month ∧ d.month ≤ 12) (k : Int) :
    d.shiftMonths (12 * k) = clamped (d.year + k) d.month d.day := by
  have hdiv : (d.monthNumber + 12 * k) / 12 = d.year + k := by unfold monthNumber; omega
  have hmod : ((d.monthNumber + 12 * k) % 12 + 1).toNat = d.month := by unfold monthNumber; omega
  simp only [shiftMonths, hdiv, hmod]

end Date

namespace Instant

variable {d e : Date} {t u : Instant} {m n : Nat}

theorem date_ofDate (h : d.IsDay) (hm : m < 86400) : (ofDate d m).date = d := by
  have hday : (ofDate d m).nanos / nanosPerDay = d.dayNumber := by
    simp only [ofDate, nanosPerDay, nanosPerSecond]
    omega
  have hsame := (ofDate d m).isDay_date
  have hmonth := Instant.monthNumber_of_isDay h hday
  have hyear : (ofDate d m).date.year = d.year := by
    have hd := h.monthNumber_bounds
    have he := hsame.monthNumber_bounds
    omega
  exact (hsame.eq_iff h hyear).mpr ((ofDate d m).date_bounds.2.2.2.2.trans hday)

theorem year_ofDate (h : d.IsDay) (hm : m < 86400) : (ofDate d m).year = d.year :=
  congrArg Date.year (date_ofDate h hm)

theorem ofDate_lt_iff (hm : m < 86400) (hn : n < 86400) :
    ofDate d m < ofDate e n ↔ d.dayNumber < e.dayNumber ∨ d.dayNumber = e.dayNumber ∧ m < n := by
  simp only [lt_def, ofDate, nanosPerDay, nanosPerSecond]
  omega

theorem ofDate_eq_iff (hd : d.IsDay) (he : e.IsDay) (hm : m < 86400) :
    ofDate d m = ofDate e m ↔ d = e := by
  refine ⟨fun h => ?_, fun h => h ▸ rfl⟩
  rw [← date_ofDate hd hm, h, date_ofDate he hm]

theorem year_le (h : t ≤ u) : t.year ≤ u.year := by
  have hmonth := monthNumber_le h
  rw [year_eq, year_eq]
  omega

theorem le_of_year_lt (h : t.year < u.year) : t ≤ u :=
  Int.le_of_lt (Int.not_le.mp fun hle => absurd (year_le hle) (Int.not_le.mpr h))

theorem shiftMonths?_ofDate (h : d.IsDay) (hm : m < 86400) {k : Int}
    (hyear : firstYear ≤ d.year + k ∧ d.year + k ≤ lastYear) :
    (ofDate d m).shiftMonths? (12 * k) =
      some (ofDate (Date.clamped (d.year + k) d.month d.day) m) := by
  have hclock : (ofDate d m).nanos % nanosPerDay = m * nanosPerSecond := by
    simp only [ofDate, nanosPerDay, nanosPerSecond]
    omega
  simp only [shiftMonths?, date_ofDate h hm, Date.shiftMonths_years h.month, hclock]
  exact if_pos hyear

def HasPlainYear (t : Instant) : Prop := 1 ≤ t.year ∧ t.year ≤ 9999

instance (t : Instant) : Decidable t.HasPlainYear := inferInstanceAs (Decidable (_ ∧ _))

end Instant

namespace TimePattern

variable {p : TimePattern} {year k : Int}

def NamesLeapDay (p : TimePattern) : Prop := p.month.getD 1 = 2 ∧ 28 < p.day.getD 1

instance (p : TimePattern) : Decidable p.NamesLeapDay := inferInstanceAs (Decidable (_ ∧ _))

theorem IsYearly.secondOfDay_lt (h : p.IsYearly) : p.secondOfDay < 86400 := by
  have hfield {u : TimeUnit} (hhigh : highest u < 60) : (p.get u).getD 0 ≤ highest u := by
    cases hn : p.get u with
    | none => exact Nat.zero_le _
    | some n => exact (h.proper u n hn).2
  have hhour : p.hour.getD 0 ≤ 23 := hfield (u := .hour) (by decide)
  have hminute : p.minute.getD 0 ≤ 59 := hfield (u := .minute) (by decide)
  have hsecond : p.second.getD 0 ≤ 59 := hfield (u := .second) (by decide)
  unfold secondOfDay
  omega

def dayMoved (p : TimePattern) (year k : Int) : Date :=
  Date.clamped (year + k) (p.dayIn year).month (p.dayIn year).day

theorem IsYearly.isDay_dayMoved (h : p.IsYearly) (year k : Int) : (p.dayMoved year k).IsDay :=
  Date.isDay_clamped _ (h.isDay_dayIn year).month (h.isDay_dayIn year).day.1

theorem day_dayIn_congr {year' : Int} (h : p.NamesLeapDay → leapDay year = leapDay year') :
    (p.dayIn year).day = (p.dayIn year').day := by
  have hleap := leapDay_le year
  have hleap' := leapDay_le year'
  simp only [NamesLeapDay] at h
  simp only [dayIn, Date.clamped]
  by_cases hmonth : p.month.getD 1 = 2
  · simp only [hmonth, daysInMonth, true_and, Nat.min_def] at h ⊢
    split_ifs <;> omega
  · unfold daysInMonth
    split <;> simp_all

/-- A day moves to itself, but for a leap day that is moved from a common year to a leap year. -/
theorem dayMoved_eq_iff : p.dayMoved year k = p.dayIn (year + k) ↔
    ¬ (p.NamesLeapDay ∧ leapDay year < leapDay (year + k)) := by
  have hleap := leapDay_le year
  have hleap' := leapDay_le (year + k)
  simp only [dayMoved, dayIn, Date.clamped, Date.mk.injEq, true_and, NamesLeapDay]
  by_cases hmonth : p.month.getD 1 = 2
  · simp only [hmonth, daysInMonth, true_and, Nat.min_def]
    split_ifs <;> omega
  · have hsame : daysInMonth (year + k) (p.month.getD 1) = daysInMonth year (p.month.getD 1) := by
      unfold daysInMonth
      split <;> simp_all
    simp [hsame, hmonth]

end TimePattern

namespace Season

variable {s : Season} {t u first last : Instant} {year year' : Int}

def lastSecond (s : Season) : Nat := if s.finish.hasTime then s.finish.secondOfDay else 86399

theorem IsYearly.lastSecond_lt (h : s.IsYearly) : s.lastSecond < 86400 := by
  have hsecond := h.finish.secondOfDay_lt
  unfold lastSecond
  split <;> omega

def firstIn (s : Season) (year : Int) : Instant :=
  .ofDate (s.start.dayIn year) s.start.secondOfDay

def lastIn (s : Season) (year : Int) : Instant := .ofDate (s.finish.dayIn year) s.lastSecond

def firstBefore (s : Season) (year : Int) : Instant :=
  .ofDate (s.start.dayMoved year (-1)) s.start.secondOfDay

def lastAfter (s : Season) (year : Int) : Instant :=
  .ofDate (s.finish.dayMoved year 1) s.lastSecond

namespace IsYearly

theorem year_firstIn (h : s.IsYearly) (year : Int) : (s.firstIn year).year = year :=
  Instant.year_ofDate (h.start.isDay_dayIn year) h.start.secondOfDay_lt

theorem year_lastIn (h : s.IsYearly) (year : Int) : (s.lastIn year).year = year :=
  Instant.year_ofDate (h.finish.isDay_dayIn year) h.lastSecond_lt

theorem year_firstBefore (h : s.IsYearly) (year : Int) : (s.firstBefore year).year = year - 1 :=
  Instant.year_ofDate (h.start.isDay_dayMoved year (-1)) h.start.secondOfDay_lt

theorem year_lastAfter (h : s.IsYearly) (year : Int) : (s.lastAfter year).year = year + 1 :=
  Instant.year_ofDate (h.finish.isDay_dayMoved year 1) h.lastSecond_lt

theorem inYear?_start (h : s.IsYearly) (hfirst : Instant.firstYear < year)
    (hlast : year < Instant.lastYear) : s.start.inYear? year = some (s.firstIn year) := by
  rw [h.start.inYear?_eq, if_pos (by omega)]
  rfl

theorem finishIn?_eq_lastIn (h : s.IsYearly) (hfirst : Instant.firstYear < year)
    (hlast : year < Instant.lastYear) : s.finishIn? year = some (s.lastIn year) := by
  cases htime : s.finish.hasTime with
  | true =>
    rw [finishIn?, h.finish.inYear?_eq, if_pos (by omega)]
    simp [htime, lastIn, lastSecond]
  | false =>
    have hday : s.finish.NamesDay := ⟨h.finish, htime⟩
    obtain ⟨last, heq⟩ := Option.isSome_iff_exists.mp (isSome_finishIn? hday hfirst hlast)
    have hnanos := nanos_finishIn? hday heq
    rw [heq, Option.some.injEq]
    refine Instant.ext ?_
    simp only [lastIn, Instant.ofDate, lastSecond, htime, Bool.false_eq_true, if_false]
    unfold nanosPerDay nanosPerSecond at *
    omega

theorem bounds?_eq (h : s.IsYearly) (ht : t.year = year) (hyear : 1 ≤ year ∧ year ≤ 9999) :
    s.bounds? t = some (
      if s.lastIn year < s.firstIn year then
        if t ≤ s.lastIn year then (s.firstBefore year, s.lastIn year)
        else (s.firstIn year, s.lastAfter year)
      else (s.firstIn year, s.lastIn year)) := by
  have hinside : Instant.firstYear + 1 < year ∧ year + 1 < Instant.lastYear := by
    simp only [Instant.firstYear, Instant.lastYear]
    omega
  have hbefore : (s.firstIn year).shiftMonths? (12 * -1) = some (s.firstBefore year) :=
    Instant.shiftMonths?_ofDate (h.start.isDay_dayIn year) h.start.secondOfDay_lt
      ⟨by change _ ≤ year + -1; omega, by change year + -1 ≤ _; omega⟩
  have hafter : (s.lastIn year).shiftMonths? (12 * 1) = some (s.lastAfter year) :=
    Instant.shiftMonths?_ofDate (h.finish.isDay_dayIn year) h.lastSecond_lt
      ⟨by change _ ≤ year + 1; omega, by change year + 1 ≤ _; omega⟩
  rw [show (12 * -1 : Int) = -12 by decide] at hbefore
  rw [show (12 * 1 : Int) = 12 by decide] at hafter
  simp only [bounds?, ht, h.inYear?_start (by omega : Instant.firstYear < year) (by omega),
    h.finishIn?_eq_lastIn (by omega : Instant.firstYear < year) (by omega),
    Option.bind_eq_bind, Option.bind_some, hbefore, hafter, Option.map_some]
  split
  · split <;> rfl
  · rfl

theorem lastIn_lt_firstIn_congr (h : s.IsYearly)
    (hstart : (s.start.dayIn year).day = (s.start.dayIn year').day)
    (hfinish : (s.finish.dayIn year).day = (s.finish.dayIn year').day) :
    s.lastIn year < s.firstIn year ↔ s.lastIn year' < s.firstIn year' := by
  have hdays (year : Int) : s.lastIn year < s.firstIn year ↔
      ¬ (s.start.dayIn year).NotAfter (s.finish.dayIn year) ∨
        ((s.finish.dayIn year).NotAfter (s.start.dayIn year) ∧
          (s.start.dayIn year).NotAfter (s.finish.dayIn year)) ∧
        s.lastSecond < s.start.secondOfDay := by
    have hfirst := h.start.isDay_dayIn year
    have hlast := h.finish.isDay_dayIn year
    rw [lastIn, firstIn, Instant.ofDate_lt_iff h.lastSecond_lt h.start.secondOfDay_lt,
      ← hfirst.dayNumber_le_iff hlast rfl, ← hlast.dayNumber_le_iff hfirst rfl]
    omega
  have hmonth (p : TimePattern) : (p.dayIn year).month = (p.dayIn year').month := rfl
  simp only [hdays, Date.NotAfter, hstart, hfinish, hmonth]

end IsYearly

def WrapsIn (s : Season) (year : Int) : Prop :=
  ∃ first last, s.start.inYear? year = some first ∧ s.finishIn? year = some last ∧ last < first

theorem IsYearly.wrapsIn_iff (h : s.IsYearly) (hfirst : Instant.firstYear < year)
    (hlast : year < Instant.lastYear) : s.WrapsIn year ↔ s.lastIn year < s.firstIn year := by
  simp [WrapsIn, h.inYear?_start hfirst hlast, h.finishIn?_eq_lastIn hfirst hlast]

/-- Instants of one season have the same bounds. -/
def KeepsBounds (s : Season) : Prop :=
  ∀ t u first last : Instant, t.HasPlainYear → u.HasPlainYear → s.bounds? t = some (first, last) →
    first ≤ u → u ≤ last → s.bounds? u = some (first, last)

/-- The season over the end of the year has the same bounds seen from both of its years. -/
def Meets (s : Season) (year : Int) : Prop :=
  s.firstBefore (year + 1) = s.firstIn year ∧ s.lastAfter year = s.lastIn (year + 1)

namespace IsYearly

theorem meets_iff (h : s.IsYearly) : s.Meets year ↔
    ¬ (s.start.NamesLeapDay ∧ leapDay (year + 1) < leapDay year) ∧
      ¬ (s.finish.NamesLeapDay ∧ leapDay year < leapDay (year + 1)) := by
  have hback : year + 1 + -1 = year := by omega
  have hstart : s.start.dayMoved (year + 1) (-1) = s.start.dayIn (year + 1 + -1) ↔
      ¬ (s.start.NamesLeapDay ∧ leapDay (year + 1) < leapDay (year + 1 + -1)) :=
    TimePattern.dayMoved_eq_iff
  rw [hback] at hstart
  rw [Meets, firstBefore, firstIn, lastAfter, lastIn,
    Instant.ofDate_eq_iff (h.start.isDay_dayMoved _ _) (h.start.isDay_dayIn _) h.start.secondOfDay_lt,
    Instant.ofDate_eq_iff (h.finish.isDay_dayMoved _ _) (h.finish.isDay_dayIn _) h.lastSecond_lt,
    hstart, TimePattern.dayMoved_eq_iff]

/-- Where the year before a New Year or the year after it shows a season over it, both agree on its
bounds. -/
theorem meets_of_keepsBounds (h : s.IsYearly) (hkeeps : s.KeepsBounds) (hlow : 1 ≤ year)
    (hhigh : year < 9999)
    (hwraps : s.lastIn year < s.firstIn year ∨ s.lastIn (year + 1) < s.firstIn (year + 1)) :
    s.Meets year := by
  have hthis : 1 ≤ year ∧ year ≤ 9999 := ⟨hlow, hhigh.le⟩
  have hnext : 1 ≤ year + 1 ∧ year + 1 ≤ 9999 := ⟨by omega, hhigh⟩
  have hplain {v : Instant} {k : Int} (hv : v.year = k) (hk : 1 ≤ k ∧ k ≤ 9999) : v.HasPlainYear := by
    rwa [← hv] at hk
  have hne {v w : Instant} (hyear : v.year ≠ w.year) : v ≠ w := fun heq => hyear (heq ▸ rfl)
  have hbefore := h.year_firstBefore (year + 1)
  have hafter := h.year_lastAfter year
  rw [Int.add_sub_cancel] at hbefore
  rcases hwraps with hwraps | hwraps
  · have hfirst := h.year_firstIn year
    have hin : s.firstIn year ≤ s.lastAfter year :=
      Instant.le_of_year_lt (by rw [hfirst, hafter]; omega)
    have hother : s.firstIn (year + 1) ≠ s.firstIn year :=
      hne (by rw [hfirst, h.year_firstIn]; omega)
    have ht := h.bounds?_eq hfirst hthis
    rw [if_pos hwraps, if_neg (show ¬ s.firstIn year ≤ _ from Int.not_le.mpr hwraps)] at ht
    have hu := hkeeps _ _ _ _ (hplain hfirst hthis) (hplain hafter hnext) ht hin (Int.le_refl _)
    rw [h.bounds?_eq hafter hnext, Option.some.injEq] at hu
    split at hu
    · split at hu
      · exact ⟨congrArg Prod.fst hu, (congrArg Prod.snd hu).symm⟩
      · exact absurd (congrArg Prod.fst hu) hother
    · exact absurd (congrArg Prod.fst hu) hother
  · have hlast := h.year_lastIn (year + 1)
    have hin : s.firstBefore (year + 1) ≤ s.lastIn (year + 1) :=
      Instant.le_of_year_lt (by rw [hbefore, hlast]; omega)
    have hother : s.lastIn year ≠ s.lastIn (year + 1) :=
      hne (by rw [hlast, h.year_lastIn]; omega)
    have ht := h.bounds?_eq hlast hnext
    rw [if_pos hwraps, if_pos (show s.lastIn (year + 1) ≤ _ from Int.le_refl _)] at ht
    have hu := hkeeps _ _ _ _ (hplain hlast hnext) (hplain hbefore hthis) ht (Int.le_refl _) hin
    rw [h.bounds?_eq hbefore hthis, Option.some.injEq] at hu
    split at hu
    · split at hu
      · exact absurd (congrArg Prod.snd hu) hother
      · exact ⟨(congrArg Prod.fst hu).symm, congrArg Prod.snd hu⟩
    · exact absurd (congrArg Prod.snd hu) hother

theorem bounds?_of_meets (h : s.IsYearly) (hwraps : ∀ year, s.lastIn year < s.firstIn year)
    (hmeets : s.Meets year) (hu : u.HasPlainYear) (hfirst : s.firstIn year ≤ u)
    (hlast : u ≤ s.lastIn (year + 1)) :
    s.bounds? u = some (s.firstIn year, s.lastIn (year + 1)) := by
  have hlow := Instant.year_le hfirst
  have hhigh := Instant.year_le hlast
  rw [h.year_firstIn] at hlow
  rw [h.year_lastIn] at hhigh
  rcases (by omega : u.year = year ∨ u.year = year + 1) with hyear | hyear
  · have hlate : ¬ u ≤ s.lastIn year := Int.not_le.mpr (Int.lt_of_lt_of_le (hwraps year) hfirst)
    rw [h.bounds?_eq rfl hu, hyear, if_pos (hwraps year), if_neg hlate, hmeets.2]
  · rw [h.bounds?_eq rfl hu, hyear, if_pos (hwraps (year + 1)), if_pos hlast, hmeets.1]

theorem keepsBounds_of_meets (h : s.IsYearly) (hwraps : ∀ year, s.lastIn year < s.firstIn year)
    (hmeets : ∀ year, s.Meets year) : s.KeepsBounds := by
  intro t u first last ht hu hbounds hfirst hlast
  obtain ⟨year, hyear⟩ : ∃ year, s.bounds? t = some (s.firstIn year, s.lastIn (year + 1)) := by
    rw [h.bounds?_eq rfl ht, if_pos (hwraps t.year)]
    split
    · refine ⟨t.year - 1, ?_⟩
      rw [← (hmeets (t.year - 1)).1, Int.sub_add_cancel]
    · exact ⟨t.year, by rw [(hmeets t.year).2]⟩
  rw [hyear, Option.some.injEq, Prod.mk.injEq] at hbounds
  obtain ⟨rfl, rfl⟩ := hbounds
  exact h.bounds?_of_meets hwraps (hmeets year) hu hfirst hlast

theorem keepsBounds_of_within (h : s.IsYearly)
    (hwithin : ∀ year, 1 ≤ year → year ≤ 9999 → ¬ s.lastIn year < s.firstIn year) :
    s.KeepsBounds := by
  intro t u first last ht hu hbounds hfirst hlast
  rw [h.bounds?_eq rfl ht, if_neg (hwithin t.year ht.1 ht.2), Option.some.injEq,
    Prod.mk.injEq] at hbounds
  obtain ⟨rfl, rfl⟩ := hbounds
  have hyear : u.year = t.year := by
    have hlow := Instant.year_le hfirst
    have hhigh := Instant.year_le hlast
    rw [h.year_firstIn] at hlow
    rw [h.year_lastIn] at hhigh
    omega
  rw [h.bounds?_eq hyear ht, if_neg (hwithin t.year ht.1 ht.2)]

/-- A season that goes on over some New Year, and names a leap day, is seen with other bounds from one
side of a New Year next to a leap year. -/
theorem not_keepsBounds (h : s.IsYearly) (hwraps : s.lastIn year < s.firstIn year)
    (hleap : s.start.NamesLeapDay ∨ s.finish.NamesLeapDay) : ¬ s.KeepsBounds := by
  intro hkeeps
  have hcongr {year' : Int} (hsame : leapDay year = leapDay year') :
      s.lastIn year' < s.firstIn year' :=
    (h.lastIn_lt_firstIn_congr (TimePattern.day_dayIn_congr fun _ => hsame)
      (TimePattern.day_dayIn_congr fun _ => hsame)).mp hwraps
  have hnear : (s.lastIn 2003 < s.firstIn 2003 ∨ s.lastIn 2004 < s.firstIn 2004) ∧
      (s.lastIn 2004 < s.firstIn 2004 ∨ s.lastIn 2005 < s.firstIn 2005) := by
    by_cases hcommon : leapDay year = 0
    · exact ⟨.inl (hcongr hcommon), .inr (hcongr hcommon)⟩
    · have hlong : leapDay year = 1 := by
        have hle := leapDay_le year
        omega
      exact ⟨.inr (hcongr hlong), .inl (hcongr hlong)⟩
  have hbefore := h.meets_iff.mp (h.meets_of_keepsBounds hkeeps (by decide) (by decide) hnear.1)
  have hafter := h.meets_iff.mp (h.meets_of_keepsBounds hkeeps (by decide) (by decide) hnear.2)
  rcases hleap with hstart | hfinish
  · exact hafter.1 ⟨hstart, by decide⟩
  · exact hbefore.2 ⟨hfinish, by decide⟩

end IsYearly

/-- The bounds are the same from anywhere in a season exactly if no season goes on over New Year, or
neither bound is a day that only leap years have. -/
theorem keepsBounds_iff {start finish format : String} (parsed : parse start finish format = .ok s) :
    s.KeepsBounds ↔ (∀ year, 1 ≤ year → year ≤ 9999 → ¬ s.WrapsIn year) ∨
      ¬ s.start.NamesLeapDay ∧ ¬ s.finish.NamesLeapDay := by
  have h : s.IsYearly := (parse_bounds parsed).2.2
  have hwrapsIn {year : Int} (hlow : 1 ≤ year) (hhigh : year ≤ 9999) :
      s.WrapsIn year ↔ s.lastIn year < s.firstIn year :=
    h.wrapsIn_iff (by simp only [Instant.firstYear]; omega) (by simp only [Instant.lastYear]; omega)
  constructor
  · intro hkeeps
    by_contra hneither
    obtain ⟨hwraps, hleap⟩ := not_or.mp hneither
    simp only [not_forall, not_not] at hwraps
    obtain ⟨year, hlow, hhigh, hyear⟩ := hwraps
    refine h.not_keepsBounds ((hwrapsIn hlow hhigh).mp hyear) ?_ hkeeps
    simpa [Classical.or_iff_not_imp_left] using hleap
  · rintro (hwithin | ⟨hstart, hfinish⟩)
    · exact h.keepsBounds_of_within fun year hlow hhigh hwraps =>
        hwithin year hlow hhigh ((hwrapsIn hlow hhigh).mpr hwraps)
    · have hcongr (year year' : Int) :
          s.lastIn year < s.firstIn year ↔ s.lastIn year' < s.firstIn year' :=
        h.lastIn_lt_firstIn_congr (TimePattern.day_dayIn_congr fun hleap => absurd hleap hstart)
          (TimePattern.day_dayIn_congr fun hleap => absurd hleap hfinish)
      by_cases hwraps : s.lastIn 1 < s.firstIn 1
      · exact h.keepsBounds_of_meets (fun year => (hcongr 1 year).mp hwraps) fun year =>
          h.meets_iff.mpr ⟨fun hleap => hstart hleap.1, fun hleap => hfinish hleap.1⟩
      · exact h.keepsBounds_of_within fun year _ _ hyear => hwraps ((hcongr 1 year).mpr hyear)

/-- A winter from October to the first of April. -/
theorem keepsBounds_iff_winter :
    ∃ s, parse "10-01" "04-01" "MM-dd" = .ok s ∧ s.KeepsBounds := by
  let s : Season := {
    start := { format := "MM-dd", month := some 10, day := some 1 }
    finish := { format := "MM-dd", month := some 4, day := some 1 } }
  have parsed : parse "10-01" "04-01" "MM-dd" = .ok s := by decide +kernel
  exact ⟨s, parsed, (keepsBounds_iff parsed).mpr (.inr (by decide))⟩

/-- Asked for in November, a winter up to the end of February ends a day before it does when it is asked
for in January. -/
theorem not_keepsBounds_endOfFebruary :
    let november := Instant.ofDate ⟨2003, 11, 15⟩ 0
    let january := Instant.ofDate ⟨2004, 1, 15⟩ 0
    let first := Instant.ofDate ⟨2003, 10, 1⟩ 0
    let last := Instant.ofDate ⟨2004, 2, 28⟩ 86399
    ∃ s, parse "10-01" "02-29" "MM-dd" = .ok s ∧ november.HasPlainYear ∧ january.HasPlainYear ∧
      s.bounds? november = some (first, last) ∧ first ≤ january ∧ january ≤ last ∧
      s.bounds? january ≠ some (first, last) := by
  intro november january first last
  refine ⟨{
    start := { format := "MM-dd", month := some 10, day := some 1 }
    finish := { format := "MM-dd", month := some 2, day := some 29 } }, ?_, ?_, ?_, ?_, ?_, ?_, ?_⟩ <;>
    decide +kernel

end Season
end SeriesAlarm
