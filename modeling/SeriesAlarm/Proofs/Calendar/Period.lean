import SeriesAlarm.Proofs.Calendar.NextSlot

/-!
# The period of a schedule

A pattern puts a grid on the clock, but only within the next coarser unit: the slots of an hour are
counted from the minute that the pattern names, on both sides of it. The grids of two hours in a row fit
together exactly if the multiplier divides the minutes of the hour, or the other way round. Then a slot is
followed by the slot one interval later, and so on for ever; and where they do not, some run follows its
predecessor too early.
-/

namespace SeriesAlarm

namespace Interval

/-- The multiplier divides the number of units in the next coarser one, or is a multiple of it. -/
def Meshes (i : Interval) : Prop :=
  i.multiplier ∣ i.base.perCycle ∨ i.base.perCycle ∣ i.multiplier

instance (i : Interval) : Decidable i.Meshes := inferInstanceAs (Decidable (_ ∨ _))

/-- Two intervals fit between the beginning of the calendar and that of the year 1. -/
def IsShort (i : Interval) : Prop := Instant.first.nanos + 2 * i.stepNanos ≤ 0

instance (i : Interval) : Decidable i.IsShort := inferInstanceAs (Decidable (_ ≤ _))

/-- The units after which the grids of two coarser units lie alike. -/
def mesh (i : Interval) : Int := Nat.gcd i.multiplier i.base.perCycle

theorem mesh_dvd_multiplier (i : Interval) : i.mesh ∣ i.multiplier :=
  Int.natCast_dvd_natCast.mpr (Nat.gcd_dvd_left _ _)

theorem mesh_dvd_perCycle (i : Interval) : i.mesh ∣ i.base.perCycle :=
  Int.natCast_dvd_natCast.mpr (Nat.gcd_dvd_right _ _)

end Interval

namespace TimePattern

variable {p : TimePattern} {i : Interval} {phase : Nat} {t u v : Instant} {n : Int}

section Grid

theorem IsProper.lt_perCycle (h : p.IsProper) (hclock : i.base.IsClock)
    (hphase : p.get i.base = some phase) : phase < i.base.perCycle := by
  have hhigh := (h i.base phase hphase).2
  rcases hclock with hu | hu | hu <;> rw [hu] at hhigh ⊢ <;>
    exact Nat.lt_succ_of_le hhigh

theorem mesh_dvd_sub_back (hphase : p.get i.base = some phase) (n : Int) :
    i.mesh ∣ n - p.back i n - phase := by
  have hcycle := Int.mul_ediv_add_emod n i.base.perCycle
  have hgrid := Int.mul_ediv_add_emod (n % i.base.perCycle - phase) i.multiplier
  have hsum : n - p.back i n - phase = i.base.perCycle * (n / i.base.perCycle) +
      i.multiplier * ((n % i.base.perCycle - phase) / i.multiplier) := by
    rw [back_of_get hphase]
    omega
  rw [hsum]
  exact Int.dvd_add (Dvd.dvd.mul_right i.mesh_dvd_perCycle _)
    (Dvd.dvd.mul_right i.mesh_dvd_multiplier _)

theorem back_eq_zero_iff (meshes : i.Meshes) (hphase : p.get i.base = some phase)
    (hlt : phase < i.base.perCycle) : p.back i n = 0 ↔ i.mesh ∣ n - phase := by
  constructor
  · intro h
    have hdvd := mesh_dvd_sub_back hphase n
    rwa [h, Int.sub_zero] at hdvd
  · intro h
    rcases meshes with hm | hc
    · rw [Interval.mesh, Nat.gcd_eq_left hm] at h
      rw [back_of_dvd (Int.natCast_dvd_natCast.mpr hm) hphase]
      exact Int.emod_eq_zero_of_dvd h
    · rw [Interval.mesh, Nat.gcd_eq_right hc] at h
      have hsame : n % i.base.perCycle = phase := by
        rw [Int.emod_eq_emod_iff_emod_sub_eq_zero.mpr (Int.emod_eq_zero_of_dvd h)]
        exact Int.emod_eq_of_lt (by omega) (by omega)
      rw [back_of_get hphase, hsame, Int.sub_self, Int.zero_emod]

theorem back_sub_back (meshes : i.Meshes) (hphase : p.get i.base = some phase)
    (hlt : phase < i.base.perCycle) (n : Int) : p.back i (n - p.back i n) = 0 :=
  (back_eq_zero_iff meshes hphase hlt).mpr (mesh_dvd_sub_back hphase n)

theorem back_add_multiplier (meshes : i.Meshes) (hphase : p.get i.base = some phase)
    (hlt : phase < i.base.perCycle) (h : p.back i n = 0) : p.back i (n + i.multiplier) = 0 := by
  rw [back_eq_zero_iff meshes hphase hlt] at h ⊢
  rw [add_sub_right_comm]
  exact Int.dvd_add h i.mesh_dvd_multiplier

def lastOnGrid (i : Interval) (phase : Nat) : Int :=
  phase + (i.base.perCycle - 1 - phase) / i.multiplier * i.multiplier

theorem lastOnGrid_bounds (hlt : phase < i.base.perCycle) :
    phase ≤ lastOnGrid i phase ∧ lastOnGrid i phase < i.base.perCycle ∧
      i.base.perCycle ≤ lastOnGrid i phase + i.multiplier := by
  have hpos := i.multiplier_pos
  have hdiv := Int.mul_ediv_add_emod (i.base.perCycle - 1 - phase) i.multiplier
  have hnonneg := Int.emod_nonneg (i.base.perCycle - 1 - phase) (b := i.multiplier) (by omega)
  have hsmall := Int.emod_lt_of_pos (i.base.perCycle - 1 - phase) (b := i.multiplier) (by omega)
  have hquotient := Int.ediv_nonneg (a := i.base.perCycle - 1 - phase) (b := i.multiplier)
    (by omega) (by omega)
  have hproduct := Int.mul_nonneg hquotient (Int.natCast_nonneg i.multiplier)
  rw [Int.mul_comm] at hdiv
  unfold lastOnGrid
  omega

theorem back_lastOnGrid (hphase : p.get i.base = some phase) (hlt : phase < i.base.perCycle) :
    p.back i (lastOnGrid i phase) = 0 := by
  obtain ⟨hlow, hhigh, -⟩ := lastOnGrid_bounds hlt
  rw [back_of_get hphase, Int.emod_eq_of_lt (by omega) hhigh, lastOnGrid, add_sub_cancel_left,
    Int.mul_emod_left]

/-- Where the grids do not fit together, one interval after the last unit of the one is not on the
next. -/
theorem back_lastOnGrid_add (meshes : ¬ i.Meshes) (hphase : p.get i.base = some phase)
    (hlt : phase < i.base.perCycle) : p.back i (lastOnGrid i phase + i.multiplier) ≠ 0 := by
  obtain ⟨hlow, hhigh, hbeyond⟩ := lastOnGrid_bounds hlt
  obtain ⟨hm, hc⟩ := not_or.mp meshes
  rw [back_of_get hphase]
  intro hzero
  have hdvd := Int.dvd_of_emod_eq_zero hzero
  by_cases hless : i.multiplier < i.base.perCycle
  · have hfield : (lastOnGrid i phase + i.multiplier) % i.base.perCycle =
        lastOnGrid i phase + i.multiplier - i.base.perCycle := by
      rw [← Int.sub_emod_right]
      exact Int.emod_eq_of_lt (by omega) (by omega)
    have hsum : lastOnGrid i phase + i.multiplier - i.base.perCycle - phase =
        i.multiplier * ((i.base.perCycle - 1 - phase) / i.multiplier + 1) - i.base.perCycle := by
      unfold lastOnGrid
      ring
    rw [hfield, hsum] at hdvd
    exact hm (Int.natCast_dvd_natCast.mp
      ((Int.dvd_iff_dvd_of_dvd_sub hdvd).mp (Int.dvd_mul_right _ _)))
  · have hlast : lastOnGrid i phase = phase := by
      rw [lastOnGrid, Int.ediv_eq_zero_of_lt (by omega) (by omega), Int.zero_mul, Int.add_zero]
    have hne : i.multiplier ≠ i.base.perCycle := fun heq => hm (dvd_of_eq heq)
    have hfrom := Int.emod_nonneg (phase + i.multiplier) (b := i.base.perCycle) (by omega)
    have hto := Int.emod_lt_of_pos (phase + i.multiplier) (b := i.base.perCycle) (by omega)
    rw [hlast] at hdvd
    have hsame := Int.eq_zero_of_abs_lt_dvd hdvd (abs_lt.mpr ⟨by omega, by omega⟩)
    have hcycle := Int.dvd_self_sub_of_emod_eq (Int.sub_eq_zero.mp hsame)
    rw [add_sub_cancel_left] at hcycle
    exact hc (Int.natCast_dvd_natCast.mp hcycle)

end Grid

section Slots

theorem IsProper.unitNumber_slot (h : p.IsProper) (hclock : i.base.IsClock) (n : Int) :
    i.unitNumber (p.slot i n) = n := by
  have hnonneg := p.finerNanos_nonneg i.base
  have hlt := h.finerNanos_lt (Interval.isFixed_of_isClock hclock)
  apply Interval.unitNumber_eq
  · exact Int.le_add_of_nonneg_right hnonneg
  · rw [Int.add_mul, Int.one_mul]
    exact Int.add_lt_add_left hlt _

theorem IsProper.realign?_slot (h : p.IsProper) (hclock : i.base.IsClock)
    (ha : (p.aligned? (p.slot i n) i.base).isSome) :
    p.realign? (p.slot i n) i = (p.slot i (n - p.back i n)).inRange? := by
  rw [realign?_of_isClock hclock ha, h.unitNumber_slot hclock]

theorem slot_add (n m : Int) :
    (p.slot i (n + m)).nanos = (p.slot i n).nanos + m * i.unitNanos := by
  unfold slot
  ring

theorem slot_le_iff {k : Int} : p.slot i n ≤ p.slot i k ↔ n ≤ k := by
  rw [Instant.le_def, slot, slot, Int.add_le_add_iff_right]
  exact Int.mul_le_mul_right i.unitNanos_pos

theorem IsProper.realign?_realign? (h : p.IsProper) (hclock : i.base.IsClock) (meshes : i.Meshes)
    (hphase : p.get i.base = some phase) (hv : p.realign? t i = some v) :
    p.realign? v i = some v := by
  by_cases ha : (p.aligned? t i.base).isSome
  · obtain ⟨hrange, rfl⟩ :=
      Instant.inRange?_eq_some_iff.mp ((realign?_of_isClock hclock ha).symm.trans hv)
    rw [h.realign?_slot hclock (h.isSome_aligned?_realign? hrange.1 ha hv),
      back_sub_back meshes hphase (h.lt_perCycle hclock hphase), Int.sub_zero]
    exact Instant.inRange?_eq_some_iff.mpr ⟨hrange, rfl⟩
  · rw [realign?_of_unaligned (Option.not_isSome_iff_eq_none.mp ha)] at hv
    obtain rfl := Option.some.inj hv
    exact realign?_of_unaligned (Option.not_isSome_iff_eq_none.mp ha)

theorem IsProper.realign?_next? (h : p.IsProper) (hclock : i.base.IsClock) (meshes : i.Meshes)
    (hphase : p.get i.base = some phase) (first : Instant.first ≤ u)
    (hu : p.realign? u i = some u) (hv : i.next? u = some v) : p.realign? v i = some v := by
  have hfixed := Interval.isFixed_of_isClock hclock
  have hlt := h.lt_perCycle hclock hphase
  by_cases ha : (p.aligned? v i.base).isSome
  · have hnext := Interval.nanos_of_next? hfixed hv
    have hpos := Interval.stepNanos_pos hfixed
    have hle : u ≤ v := by
      rw [Instant.le_def]
      omega
    have hslot := (realign?_of_isClock hclock (isSome_aligned?_of_le first hle ha)).symm.trans hu
    obtain ⟨-, hn⟩ := Instant.inRange?_eq_some_iff.mp hslot
    generalize hnumber : i.unitNumber u - p.back i (i.unitNumber u) = n at hn
    have hzero : p.back i n = 0 := hnumber ▸ back_sub_back meshes hphase hlt _
    have hvslot : v = p.slot i (n + i.multiplier) := by
      apply Instant.ext
      rw [hnext, hn, slot_add, Interval.stepNanos_eq]
    rw [Interval.next?, Interval.add?_of_isFixed hfixed] at hv
    obtain ⟨hrange, hveq⟩ := Instant.inRange?_eq_some_iff.mp hv
    rw [hvslot] at ha ⊢
    rw [h.realign?_slot hclock ha, back_add_multiplier meshes hphase hlt hzero, Int.sub_zero]
    exact Instant.inRange?_eq_some_iff.mpr ⟨hvslot ▸ hveq ▸ hrange, rfl⟩
  · exact realign?_of_unaligned (Option.not_isSome_iff_eq_none.mp ha)

/-- From what lies on the grid, the next run is one interval later. -/
theorem IsProper.nextSlot?_of_onGrid (h : p.IsProper) (hclock : i.base.IsClock)
    (meshes : i.Meshes) (hphase : p.get i.base = some phase) (first : Instant.first ≤ u)
    (hu : p.realign? u i = some u) (hv : i.next? u = some v) : nextSlot? p i u = some v := by
  have hfixed := Interval.isFixed_of_isClock hclock
  have hlt : u < v := by
    have hpos := Interval.stepNanos_pos hfixed
    rw [Instant.lt_def, Interval.nanos_of_next? hfixed hv]
    omega
  rw [nextSlot?_of_lt hv (h.realign?_next? hclock meshes hphase first hu hv) hlt, hu,
    Option.map_some, if_neg fun hboth => Int.lt_irrefl _ hboth.1]

theorem IsProper.realign?_of_nextSlot? (h : p.IsProper) (hclock : i.base.IsClock)
    (first : Instant.first ≤ t) (hv : nextSlot? p i t = some v) :
    t < v ∧ ∃ w, p.realign? w i = some v := by
  obtain ⟨naive, hnaive, hrest⟩ := Option.bind_eq_some_iff.mp hv
  obtain ⟨tried, htried, -⟩ := Option.bind_eq_some_iff.mp hrest
  have room : i.HasRoom t :=
    Interval.HasRoom.of_isFixed (Interval.isFixed_of_isClock hclock) (by rw [hnaive]; rfl)
  refine ⟨lt_nextSlot? room h first hv, ?_⟩
  rw [nextSlot?_of_lt hnaive htried (room.lt_realign? h first hnaive htried)] at hv
  obtain ⟨current, hcurrent, hnext⟩ := Option.map_eq_some_iff.mp hv
  split at hnext
  · exact ⟨t, hnext ▸ hcurrent⟩
  · exact ⟨naive, hnext ▸ htried⟩

end Slots

section Inside

def IsInside (i : Interval) (n : Int) : Prop :=
  Instant.first.nanos ≤ (n - i.multiplier) * i.unitNanos ∧
    (n + i.multiplier + 1) * i.unitNanos ≤
      Date.monthStart (12 * Instant.lastYear + 11) * nanosPerDay

theorem isSome_aligned?_of_lt {b : TimeUnit} (hb : b ≠ .year) (first : Instant.first ≤ t)
    (hlt : t.nanos < Date.monthStart (12 * Instant.lastYear + 11) * nanosPerDay) :
    (p.aligned? t b).isSome := by
  have hlow := Instant.firstMonth_le first
  have hyear := t.year_eq
  have hmonth := t.monthNumber_eq
  rw [Instant.lt_monthStart_iff] at hlt
  rw [isSome_aligned?_iff, realignedField_month_of_ne hb]
  omega

theorem IsProper.slot_of_inside (h : p.IsProper) (hclock : i.base.IsClock) (inside : IsInside i n)
    {k : Int} (hlow : n - i.multiplier ≤ k) (hhigh : k ≤ n + i.multiplier) :
    (p.slot i k).InRange ∧ (p.aligned? (p.slot i k) i.base).isSome := by
  have hnonneg := p.finerNanos_nonneg i.base
  have hlt := h.finerNanos_lt (Interval.isFixed_of_isClock hclock)
  have hyear : i.base ≠ .year := by
    rcases hclock with hu | hu | hu <;> rw [hu] <;> decide
  have hfrom := Int.mul_le_mul_of_nonneg_right hlow i.unitNanos_pos.le
  have hto := Int.mul_le_mul_of_nonneg_right (Int.add_le_add_right hhigh 1) i.unitNanos_pos.le
  rw [Int.add_mul k, Int.one_mul] at hto
  have hend : Date.monthStart (12 * Instant.lastYear + 11) * nanosPerDay ≤ Instant.last.nanos := by
    decide
  obtain ⟨hfirst, hlast⟩ := inside
  have hbefore : (p.slot i k).nanos < Date.monthStart (12 * Instant.lastYear + 11) * nanosPerDay := by
    dsimp only [slot]
    omega
  have hafter : Instant.first ≤ p.slot i k := by
    rw [Instant.le_def]
    dsimp only [slot]
    omega
  exact ⟨⟨hafter, hbefore.le.trans hend⟩, isSome_aligned?_of_lt hyear hafter hbefore⟩

theorem IsProper.realign?_of_inside (h : p.IsProper) (hclock : i.base.IsClock)
    (inside : IsInside i n) {k : Int} (hlow : n ≤ k) (hhigh : k ≤ n + i.multiplier) :
    p.realign? (p.slot i k) i = some (p.slot i (k - p.back i k)) := by
  have hback := p.back_nonneg i k
  have hless := p.back_lt i k
  rw [h.realign?_slot hclock (h.slot_of_inside hclock inside (by omega) hhigh).2,
    Instant.inRange?_eq_some_iff]
  exact ⟨(h.slot_of_inside hclock inside (by omega) (by omega)).1, rfl⟩

theorem IsProper.nextSlot?_slot (h : p.IsProper) (hclock : i.base.IsClock)
    (inside : IsInside i n) : nextSlot? p i (p.slot i n) =
      some (p.slot i (n + i.multiplier - p.back i (n + i.multiplier))) := by
  have hfixed := Interval.isFixed_of_isClock hclock
  have hback := p.back_nonneg i n
  have hless := p.back_lt i (n + i.multiplier)
  have hnaive : i.next? (p.slot i n) = some (p.slot i (n + i.multiplier)) := by
    rw [Interval.next?, Interval.add?_of_isFixed hfixed, Int.one_mul, Interval.stepNanos_eq,
      ← slot_add, Instant.inRange?_eq_some_iff]
    exact ⟨(h.slot_of_inside hclock inside (by omega) (Int.le_refl _)).1, rfl⟩
  have htried := h.realign?_of_inside hclock inside (k := n + i.multiplier) (by omega)
    (Int.le_refl _)
  have hcurrent := h.realign?_of_inside hclock inside (Int.le_refl n) (by omega)
  have hlt : p.slot i n < p.slot i (n + i.multiplier - p.back i (n + i.multiplier)) :=
    Int.not_le.mp fun hle => Int.not_le.mpr (by omega) (slot_le_iff.mp hle)
  have hpast : p.slot i (n - p.back i n) ≤ p.slot i n := slot_le_iff.mpr (by omega)
  rw [nextSlot?_of_lt hnaive htried hlt, hcurrent, Option.map_some,
    if_neg fun hboth => Int.not_le.mpr hboth.1 hpast]

theorem isInside_of_isShort (hclock : i.base.IsClock) (short : i.IsShort)
    (hlt : phase < i.base.perCycle) :
    IsInside i (lastOnGrid i phase - i.multiplier) ∧ IsInside i (lastOnGrid i phase) := by
  obtain ⟨hlow, hhigh, -⟩ := lastOnGrid_bounds hlt
  have hpos := Interval.stepNanos_pos (Interval.isFixed_of_isClock hclock)
  have hstart : 0 ≤ lastOnGrid i phase * i.unitNanos :=
    Int.mul_nonneg (by omega) i.unitNanos_pos.le
  have hstop : (lastOnGrid i phase + 1) * i.unitNanos ≤ nanosPerDay := by
    refine (Int.mul_le_mul_of_nonneg_right hhigh i.unitNanos_pos.le).trans ?_
    unfold Interval.unitNanos
    rcases hclock with hu | hu | hu <;> rw [hu] <;> decide
  have hroom : 2 * nanosPerDay - Instant.first.nanos ≤
      2 * (Date.monthStart (12 * Instant.lastYear + 11) * nanosPerDay) := by decide
  unfold Interval.IsShort at short
  rw [Interval.stepNanos_eq] at hpos short
  refine ⟨⟨?_, ?_⟩, ?_, ?_⟩ <;> linarith

end Inside
end TimePattern

namespace Schedule

variable {s : Schedule} {now next u : Instant} {positive : Bool}

/-- After any instant the runs are one interval apart, as long as they stay in the calendar. -/
def KeepsPeriod (s : Schedule) : Prop :=
  ∀ now next, now.InRange → s.nextRunAfter? now false = some next →
    ∀ n : Nat, next.nanos + n * s.interval.stepNanos ≤ Instant.last.nanos →
      (s.chain now false (n + 1)).1 =
        (List.range (n + 1)).map fun k => ⟨next.nanos + k * s.interval.stepNanos⟩

theorem runs_setNextRun (s : Schedule) (run : Option Instant) (now : Instant) (positive : Bool)
    (n : Nat) : (chain { s with nextRun := run } now positive n).1 = (s.chain now positive n).1 := by
  cases n with
  | zero => rfl
  | succ n =>
    have hsame : nextRunAfter? { s with nextRun := run } now positive = s.nextRunAfter? now positive :=
      rfl
    cases hnext : s.nextRunAfter? now positive <;> rw [chain, hsame, chain, hnext]

theorem runs_succ (h : s.nextRunAfter? now positive = some next) (n : Nat) :
    (s.chain now positive (n + 1)).1 = next :: (s.chain next positive n).1 := by
  rw [chain, h]
  exact congrArg (next :: ·) (s.runs_setNextRun (some next) next positive n)

/-- A schedule on a clock whose base time names the unit of its interval. -/
structure IsClock (s : Schedule) : Prop where
  proper : s.base.IsProper
  clock : s.interval.base.IsClock
  named : (s.base.get s.interval.base).isSome

/-- From what lies on the grid, the runs are one interval apart. -/
theorem IsClock.runs_of_onGrid (h : s.IsClock) (meshes : s.interval.Meshes)
    (first : Instant.first ≤ u) (hu : s.base.realign? u s.interval = some u) {n : Nat}
    (room : u.nanos + n * s.interval.stepNanos ≤ Instant.last.nanos) :
    (s.chain u false n).1 =
      (List.range n).map fun k => ⟨u.nanos + (k + 1) * s.interval.stepNanos⟩ := by
  have hfixed := Interval.isFixed_of_isClock h.clock
  have hpos := Interval.stepNanos_pos hfixed
  obtain ⟨phase, hphase⟩ := Option.isSome_iff_exists.mp h.named
  induction n generalizing u with
  | zero => rfl
  | succ n ih =>
    have hsteps : 0 ≤ n * s.interval.stepNanos := Int.mul_nonneg (Int.natCast_nonneg n) hpos.le
    rw [Nat.cast_succ, Int.add_mul, Int.one_mul] at room
    obtain ⟨v, hv⟩ := Option.isSome_iff_exists.mp
      ((Interval.isSome_next?_iff first).mpr fun _ => (by omega :
        u.nanos + s.interval.stepNanos ≤ Instant.last.nanos))
    have hnext := Interval.nanos_of_next? hfixed hv
    have hrun : s.nextRunAfter? u false = some v :=
      h.proper.nextSlot?_of_onGrid h.clock meshes hphase first hu hv
    have hslot := h.proper.realign?_next? h.clock meshes hphase first hu hv
    have hfirst : Instant.first ≤ v := by
      rw [Instant.le_def] at first ⊢
      omega
    rw [runs_succ hrun, List.range_succ_eq_map, List.map_cons, List.map_map,
      ih hfirst hslot (by rw [hnext]; omega)]
    congr 1
    · apply Instant.ext
      simpa using hnext
    · refine List.map_congr_left fun k _ => ?_
      apply Instant.ext
      rw [Function.comp_apply, hnext, Nat.cast_succ]
      ring

theorem IsClock.keepsPeriod_of_meshes (h : s.IsClock) (meshes : s.interval.Meshes) :
    s.KeepsPeriod := by
  intro now next range hnext n room
  obtain ⟨phase, hphase⟩ := Option.isSome_iff_exists.mp h.named
  obtain ⟨hlt, w, hw⟩ := h.proper.realign?_of_nextSlot? h.clock range.1 hnext
  have hslot := h.proper.realign?_realign? h.clock meshes hphase hw
  have hfirst : Instant.first ≤ next := Int.le_trans range.1 (Int.le_of_lt hlt)
  rw [runs_succ hnext, h.runs_of_onGrid meshes hfirst hslot room, List.range_succ_eq_map,
    List.map_cons, List.map_map]
  congr 1
  · simp

theorem IsClock.nextRunAfter?_slot (h : s.IsClock) {n : Int}
    (inside : TimePattern.IsInside s.interval n) :
    s.nextRunAfter? (s.base.slot s.interval n) false =
      some (s.base.slot s.interval (n + s.interval.multiplier -
        s.base.back s.interval (n + s.interval.multiplier))) :=
  h.proper.nextSlot?_slot h.clock inside

/-- Where the grids do not fit together, the run after the last slot of the one comes early. -/
theorem IsClock.meshes_of_keepsPeriod (h : s.IsClock) (short : s.interval.IsShort)
    (keeps : s.KeepsPeriod) : s.interval.Meshes := by
  by_contra meshes
  obtain ⟨phase, hphase⟩ := Option.isSome_iff_exists.mp h.named
  have hlt := h.proper.lt_perCycle h.clock hphase
  obtain ⟨hbefore, hlast⟩ := TimePattern.isInside_of_isShort h.clock short hlt
  have hoff := TimePattern.back_lastOnGrid_add meshes hphase hlt
  have hon := TimePattern.back_lastOnGrid hphase hlt
  -- One interval before the last unit of the grid that unit is run next, and after it one that comes
  -- early, so `keeps` fails for the two of them.
  generalize TimePattern.lastOnGrid s.interval phase = x at hbefore hlast hoff hon
  have hrange := (h.proper.slot_of_inside h.clock hbefore (k := x - s.interval.multiplier)
    (by omega) (by omega)).1
  have hroom := (h.proper.slot_of_inside h.clock hlast (by omega) (Int.le_refl _)).1.2
  have hfirst := h.nextRunAfter?_slot hbefore
  rw [Int.sub_add_cancel, hon, Int.sub_zero] at hfirst
  rw [Instant.le_def, TimePattern.slot_add, ← Interval.stepNanos_eq] at hroom
  have hruns := keeps _ _ hrange hfirst 1 (by simpa using hroom)
  rw [runs_succ hfirst, runs_succ (h.nextRunAfter?_slot hlast)] at hruns
  have hsecond : s.base.slot s.interval (x + s.interval.multiplier -
      s.base.back s.interval (x + s.interval.multiplier)) =
        s.base.slot s.interval (x + s.interval.multiplier) := by
    apply Instant.ext
    rw [TimePattern.slot_add x, ← Interval.stepNanos_eq]
    simp only [List.range_succ, List.range_zero, List.nil_append, List.cons_append, List.map_cons,
      List.cons.injEq, Nat.cast_one, Int.one_mul] at hruns
    exact congrArg Instant.nanos hruns.2.1
  have hle := TimePattern.slot_le_iff.mp (Instant.le_of_eq hsecond.symm)
  have hnonneg := s.base.back_nonneg s.interval (x + s.interval.multiplier)
  omega

/-- A schedule on a clock keeps its period if the grids fit together, and only then. -/
theorem IsClock.keepsPeriod_meshes (h : s.IsClock) :
    (s.interval.Meshes → s.KeepsPeriod) ∧
      (s.interval.IsShort → s.KeepsPeriod → s.interval.Meshes) :=
  ⟨h.keepsPeriod_of_meshes, h.meshes_of_keepsPeriod⟩

/-- Quarters of an hour from the fifth minute on are kept, and ninety seconds from the tenth second on
are not. -/
theorem IsClock.keepsPeriod_meshes_fromFifthMinute :
    let quarters : Schedule := {
      base := { format := "mm", minute := some 5 }
      interval := { base := .minute, multiplier := 15 } }
    let seconds : Schedule := {
      base := { format := "ss", second := some 10 }
      interval := { base := .second, multiplier := 90 } }
    quarters.IsClock ∧ quarters.KeepsPeriod ∧
      seconds.IsClock ∧ seconds.interval.IsShort ∧ ¬ seconds.KeepsPeriod := by
  intro quarters seconds
  have hquarters : quarters.IsClock := ⟨by decide, by decide, by decide⟩
  have hseconds : seconds.IsClock := ⟨by decide, by decide, by decide⟩
  have short : seconds.interval.IsShort := by decide
  refine ⟨hquarters, hquarters.keepsPeriod_meshes.1 (by decide), hseconds, short, fun keeps => ?_⟩
  exact absurd (hseconds.keepsPeriod_meshes.2 short keeps) (by decide)

/-- Every seven minutes from the fifth on, the run at 13:54 is followed by one at 13:58, four minutes
later. -/
theorem not_keepsPeriod_sevenMinutes :
    let s : Schedule := {
      base := { format := "mm", minute := some 5 }
      interval := { base := .minute, multiplier := 7 } }
    let clock (minute : Nat) := Instant.ofDate ⟨2006, 5, 20⟩ (13 * 3600 + minute * 60)
    s.IsClock ∧ (clock 50).InRange ∧ s.nextRunAfter? (clock 50) false = some (clock 54) ∧
      s.nextRunAfter? (clock 54) false = some (clock 58) ∧ ¬ s.KeepsPeriod := by
  intro s clock
  have range : (clock 50).InRange := by decide +kernel
  have hfirst : s.nextRunAfter? (clock 50) false = some (clock 54) := by decide +kernel
  have hsecond : s.nextRunAfter? (clock 54) false = some (clock 58) := by decide +kernel
  refine ⟨⟨by decide, by decide, by decide⟩, range, hfirst, hsecond, fun keeps => ?_⟩
  have hruns := keeps _ _ range hfirst 1 (by decide +kernel)
  rw [runs_succ hfirst, runs_succ hsecond] at hruns
  exact absurd hruns (by decide +kernel)

end Schedule
end SeriesAlarm
