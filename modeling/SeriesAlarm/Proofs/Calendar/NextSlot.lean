import SeriesAlarm.Proofs.Calendar.Realign

/-!
# The next slot

A schedule always moves forward: the slot that it tries first lies ahead already. With a regular
interval it misses none either. An interval divides time into cycles, each with one slot of the base
time, and one interval after an instant lies the next cycle. So the next run is the slot of the
instant's own cycle, if that is still to come, or else that of the next one.
-/

namespace SeriesAlarm

theorem Interval.HasRoom.exists_next? {i : Interval} {t : Instant} (h : i.HasRoom t)
    (ht : Instant.first ≤ t) : ∃ v, i.next? t = some v ∧ i.FitsBetween .first v := by
  obtain ⟨v, hv⟩ := Option.isSome_iff_exists.mp h.2
  have hnext : i.next? t = some v := (h.next_eq ht).trans hv
  refine ⟨v, hnext, fun hfixed => ?_⟩
  rw [Instant.le_def] at ht
  have hnanos := Interval.nanos_of_next? hfixed hnext
  omega

theorem exists_tried {base : TimePattern} {step : Interval} {now current : Instant}
    (proper : base.IsProper) (range : now.InRange) (room : step.HasRoom now)
    (hcurrent : base.realign? now step = some current) :
    ∃ naive tried, step.next? now = some naive ∧ base.realign? naive step = some tried ∧
      now < tried ∧ nextSlot? base step now =
        some (if now < current ∧ current < tried then current else tried) := by
  obtain ⟨naive, hnaive, hfits⟩ := room.exists_next? range.1
  obtain ⟨tried, htried⟩ := Option.isSome_iff_exists.mp (proper.isSome_realign? hfits)
  have hlt := room.lt_realign? proper range.1 hnaive htried
  refine ⟨naive, tried, hnaive, htried, hlt, ?_⟩
  rw [nextSlot?_of_lt hnaive htried hlt, hcurrent]
  rfl

namespace Schedule

variable {s : Schedule} {now : Instant} {positive : Bool}

/-- The next run lies ahead and is no later than the slot that is tried first, which lies ahead too. -/
theorem lt_nextRunAfter? (proper : s.base.IsProper) (range : now.InRange)
    (room : (s.step positive).HasRoom now)
    (back : (s.base.realign? now (s.step positive)).isSome) :
    ∃ naive tried next, (s.step positive).next? now = some naive ∧
      s.base.realign? naive (s.step positive) = some tried ∧ now < tried ∧
      s.nextRunAfter? now positive = some next ∧ now < next ∧ next ≤ tried := by
  obtain ⟨current, hcurrent⟩ := Option.isSome_iff_exists.mp back
  obtain ⟨naive, tried, hnaive, htried, hlt, hnext⟩ := exists_tried proper range room hcurrent
  refine ⟨naive, tried, _, hnaive, htried, hlt, hnext, ?_⟩
  by_cases h : now < current ∧ current < tried
  · rw [if_pos h]
    exact ⟨h.1, Int.le_of_lt h.2⟩
  · rw [if_neg h]
    exact ⟨hlt, Int.le_refl _⟩

/-- After a positive run at three in the afternoon of the last day of January, a schedule for the 31st
of the month at six is run again on the last day of February. -/
theorem lt_nextRunAfter?_leapDay :
    let s : Schedule := {
      base := { format := "dd HH", day := some 31, hour := some 6 }
      interval := { base := .year, multiplier := 1 }
      positiveInterval := some { base := .month, multiplier := 1 } }
    let now := Instant.ofDate ⟨2004, 1, 31⟩ 54000
    s.base.IsProper ∧ now.InRange ∧ (s.step true).HasRoom now ∧
      ∃ naive tried next, (s.step true).next? now = some naive ∧
        s.base.realign? naive (s.step true) = some tried ∧ now < tried ∧
        s.nextRunAfter? now true = some next ∧ now < next ∧ next ≤ tried := by
  intro s now
  have proper : s.base.IsProper := by decide
  have range : now.InRange := by decide +kernel
  have room : (s.step true).HasRoom now := by decide +kernel
  exact ⟨proper, range, room, lt_nextRunAfter? proper range room (by decide +kernel)⟩

end Schedule

namespace TimePattern

variable {p : TimePattern} {i : Interval} {start slot : Int → Int} {now next u : Instant}

/-- The cycles of an interval on a pattern: they begin at `start`, and within each the pattern has its
`slot`. -/
structure Cycles (p : TimePattern) (i : Interval) (start slot : Int → Int) : Prop where
  cover : ∀ n, ∃ k, start k ≤ n ∧ n < start (k + 1)
  enclose : ∀ k, start k ≤ slot k ∧ slot k < start (k + 1)
  realign : ∀ t k, (p.aligned? t i.base).isSome → start k ≤ t.nanos → t.nanos < start (k + 1) →
    p.realign? t i = Instant.inRange? ⟨slot k⟩
  next : ∀ t v k, Instant.first ≤ t → i.HasRoom t → i.next? t = some v → start k ≤ t.nanos →
    t.nanos < start (k + 1) → start (k + 1) ≤ v.nanos ∧ v.nanos < start (k + 1 + 1)

/-- Everything that is added up for the run after `now` stays in the calendar: one interval ahead, and
the first day of the month after that, which tells how long the month is. So does the slot of the
current cycle. -/
structure HasRoom (p : TimePattern) (i : Interval) (now : Instant) : Prop where
  ahead : i.HasRoom now
  month : ((i.next? now).bind (p.aligned? · i.base)).isSome
  current : (p.realign? now i).isSome

/-- The first slot after an instant. A slot is what moving onto the pattern leaves where it is. -/
structure IsNextSlot (p : TimePattern) (i : Interval) (now next : Instant) : Prop where
  ahead : now < next
  slot : p.realign? next i = some next
  least : ∀ u, now < u → p.realign? u i = some u → next ≤ u

namespace Cycles

theorem slot_lt_iff (h : p.Cycles i start slot) {j k : Int} : slot j < slot k ↔ j < k :=
  (strictMono_int_of_lt_succ fun k => (h.enclose k).2.trans_le (h.enclose (k + 1)).1).lt_iff_lt

theorem exists_slot (h : p.Cycles i start slot) (ha : (p.aligned? u i.base).isSome)
    (hu : p.realign? u i = some u) : ∃ k, u.nanos = slot k := by
  obtain ⟨k, hlow, hhigh⟩ := h.cover u.nanos
  have hslot := (h.realign u k ha hlow hhigh).symm.trans hu
  exact ⟨k, congrArg Instant.nanos (Instant.inRange?_eq_some_iff.mp hslot).2⟩

/-- The slot between which and the one before an instant lies is the next one. -/
theorem isNextSlot (h : p.Cycles i start slot) {k : Int} (first : Instant.first ≤ now)
    (hbefore : slot (k - 1) ≤ now.nanos) (hafter : now.nanos < slot k)
    (range : (Instant.mk (slot k)).InRange) (ha : (p.aligned? ⟨slot k⟩ i.base).isSome) :
    p.IsNextSlot i now ⟨slot k⟩ := by
  obtain ⟨hlow, hhigh⟩ := h.enclose k
  refine ⟨hafter, ?_, fun u hu hslot => ?_⟩
  · rw [h.realign _ k ha hlow hhigh]
    exact Instant.inRange?_eq_some_iff.mpr ⟨range, rfl⟩
  · by_contra hle
    have hearlier : u < ⟨slot k⟩ := Int.not_le.mp hle
    have hfirst : Instant.first ≤ u := Int.le_trans first (Int.le_of_lt hu)
    obtain ⟨j, hj⟩ := h.exists_slot (isSome_aligned?_of_le hfirst (Int.le_of_lt hearlier) ha) hslot
    rw [Instant.lt_def, hj] at hu hearlier
    have hjk : j < k := h.slot_lt_iff.mp hearlier
    have hkj : k - 1 < j := h.slot_lt_iff.mp (Int.lt_of_le_of_lt hbefore hu)
    omega

theorem exists_isNextSlot (h : p.Cycles i start slot) (proper : p.IsProper) (range : now.InRange)
    (room : p.HasRoom i now) : ∃ next, nextSlot? p i now = some next ∧ p.IsNextSlot i now next := by
  obtain ⟨current, hcurrent⟩ := Option.isSome_iff_exists.mp room.current
  obtain ⟨naive, tried, hnaive, htried, hlt, hnext⟩ :=
    exists_tried proper range room.ahead hcurrent
  obtain ⟨k, hlow, hhigh⟩ := h.cover now.nanos
  obtain ⟨hlow', hhigh'⟩ := h.next now naive k range.1 room.ahead hnaive hlow hhigh
  have hmonth := room.month
  rw [hnaive, Option.bind_some] at hmonth
  have hmonth' : (p.aligned? now i.base).isSome :=
    isSome_aligned?_of_le range.1 (Int.le_of_lt (hhigh.trans_le hlow')) hmonth
  obtain ⟨htriedRange, rfl⟩ := Instant.inRange?_eq_some_iff.mp
    ((h.realign naive (k + 1) hmonth hlow' hhigh').symm.trans htried)
  obtain ⟨hcurrentRange, rfl⟩ := Instant.inRange?_eq_some_iff.mp
    ((h.realign now k hmonth' hlow hhigh).symm.trans hcurrent)
  refine ⟨_, hnext, ?_⟩
  by_cases hahead : now.nanos < slot k
  · have hbefore : slot (k - 1) ≤ now.nanos := by
      have hend := (h.enclose (k - 1)).2
      rw [Int.sub_add_cancel] at hend
      exact hend.le.trans hlow
    rw [if_pos ⟨hahead, h.slot_lt_iff.mpr (Int.lt_succ k)⟩]
    exact h.isNextSlot range.1 hbefore hahead hcurrentRange
      (proper.isSome_aligned?_realign? hcurrentRange.1 hmonth' hcurrent)
  · rw [if_neg fun hboth => hahead hboth.1]
    refine h.isNextSlot range.1 ?_ hlt htriedRange
      (proper.isSome_aligned?_realign? htriedRange.1 hmonth htried)
    rw [Int.add_sub_cancel]
    exact Int.not_lt.mp hahead

end Cycles

section Regular

theorem back_of_dvd (hdvd : (i.multiplier : Int) ∣ i.base.perCycle) {phase : Nat}
    (hphase : p.get i.base = some phase) (n : Int) :
    p.back i n = (n - phase) % i.multiplier := by
  rw [back_of_get hphase, Int.sub_emod, Int.emod_emod_of_dvd n hdvd, ← Int.sub_emod]

theorem back_of_regular (regular : i.IsRegular)
    (phase : 1 < i.multiplier → (p.get i.base).isSome) (n : Int) :
    p.back i n = (n - (p.get i.base).getD 0 : Int) % i.multiplier := by
  have hpos := i.multiplier_pos
  by_cases hone : i.multiplier = 1
  · have hnonneg := p.back_nonneg i n
    have hlt := p.back_lt i n
    rw [hone] at hlt ⊢
    rw [Nat.cast_one, Int.emod_one]
    omega
  · obtain ⟨k, hk⟩ := Option.isSome_iff_exists.mp (phase (by omega))
    have hdvd : i.multiplier ∣ i.base.perCycle := by
      rcases regular with h | ⟨h | h, hm⟩ | ⟨h, hm⟩
      · exact absurd h hone
      all_goals
        rw [h]
        exact hm
    rw [back_of_dvd (Int.natCast_dvd_natCast.mpr hdvd) hk, hk]
    rfl

theorem IsProper.realign?_of_regular (h : p.IsProper) (hfixed : i.IsFixed)
    (regular : i.IsRegular) (phase : 1 < i.multiplier → (p.get i.base).isSome) {t : Instant}
    (ht : (p.aligned? t i.base).isSome) :
    p.realign? t i = (p.slot i (i.unitNumber t -
      (i.unitNumber t - (p.get i.base).getD 0 : Int) % i.multiplier)).inRange? := by
  by_cases hclock : i.base.IsClock
  · rw [realign?_of_isClock hclock ht, back_of_regular regular phase]
  · have hone : i.multiplier = 1 := regular.resolve_right fun hm => hclock <| by
      unfold TimeUnit.IsClock
      tauto
    obtain ⟨a, ha⟩ := Option.isSome_iff_exists.mp ht
    rw [realign?_of_not_isClock hclock ha, hone, Nat.cast_one, Int.emod_one, Int.sub_zero, eq_comm,
      Instant.inRange?_eq_some_iff]
    have hslot : a = p.slot i (i.unitNumber t) := Instant.ext (aligned?_of_isFixed hfixed ha)
    exact ⟨hslot ▸ inRange_aligned? h ha, hslot⟩

/-- The cycles of an interval of a fixed length are as long as the interval, and one of them begins
with the unit that the pattern names. -/
theorem IsProper.cycles_of_isFixed (h : p.IsProper) (hfixed : i.IsFixed) (regular : i.IsRegular)
    (phase : 1 < i.multiplier → (p.get i.base).isSome) :
    p.Cycles i (fun k => ((p.get i.base).getD 0 + k * i.multiplier) * i.unitNanos)
      (fun k => (p.slot i ((p.get i.base).getD 0 + k * i.multiplier)).nanos) := by
  generalize horigin : (((p.get i.base).getD 0 : Nat) : Int) = origin
  have hunit := i.unitNanos_pos
  have hsucc (k : Int) : (origin + (k + 1) * i.multiplier) * i.unitNanos =
      (origin + k * i.multiplier) * i.unitNanos + i.stepNanos := by
    rw [Interval.stepNanos_eq]
    ring
  have hone : i.unitNanos ≤ i.stepNanos := by
    have hpos := i.multiplier_pos
    rw [Interval.stepNanos_eq]
    exact le_mul_of_one_le_left hunit.le (by omega)
  refine ⟨fun n => ⟨(n - origin * i.unitNanos) / i.stepNanos, ?_⟩, fun k => ?_,
    fun t k ha hlow hhigh => ?_, fun t v k _ _ hv hlow hhigh => ?_⟩
  · have hdiv := Int.mul_ediv_add_emod (n - origin * i.unitNanos) i.stepNanos
    have hnonneg := Int.emod_nonneg (n - origin * i.unitNanos) (Int.ne_of_gt (hunit.trans_le hone))
    have hlt := Int.emod_lt_of_pos (n - origin * i.unitNanos) (hunit.trans_le hone)
    have hstart (k : Int) : (origin + k * i.multiplier) * i.unitNanos =
        origin * i.unitNanos + i.stepNanos * k := by
      rw [Interval.stepNanos_eq]
      ring
    rw [hsucc, hstart]
    omega
  · have hnonneg := p.finerNanos_nonneg i.base
    have hlt := h.finerNanos_lt hfixed
    rw [hsucc]
    dsimp only [slot]
    omega
  · obtain ⟨hle, hlt⟩ := i.unitNumber_bounds t
    have hfrom := Int.lt_of_mul_lt_mul_right (hlow.trans_lt hlt) hunit.le
    have hto := Int.lt_of_mul_lt_mul_right (hle.trans_lt hhigh) hunit.le
    have hback : (i.unitNumber t - origin) % i.multiplier =
        i.unitNumber t - (origin + k * i.multiplier) := by
      rw [Int.add_mul, Int.one_mul] at hto
      rw [← Int.sub_mul_emod_self_right _ k, Int.emod_eq_of_lt (by omega) (by omega)]
      ring
    rw [h.realign?_of_regular hfixed regular phase ha, horigin, hback, Int.sub_sub_self]
  · have hnext := Interval.nanos_of_next? hfixed hv
    rw [hsucc (k + 1), hsucc]
    rw [hsucc] at hhigh
    omega

def monthWithin (p : TimePattern) (u : TimeUnit) : Nat :=
  match u with
  | .year => p.month.getD 1 - 1
  | _ => 0

def monthSlot (p : TimePattern) (u : TimeUnit) (k : Int) : Instant :=
  ⟨(Date.clamped (k / 12) (k % 12 + 1).toNat (p.day.getD 1)).dayNumber * nanosPerDay +
    p.finerNanos u⟩

theorem IsProper.monthSlot_bounds (h : p.IsProper) (u : TimeUnit) (k : Int) :
    Date.monthStart k * nanosPerDay ≤ (p.monthSlot u k).nanos ∧
      (p.monthSlot u k).nanos < Date.monthStart (k + 1) * nanosPerDay := by
  have hday : 1 ≤ p.day.getD 1 :=
    (h.realignedField_bounds .month .day (n := 1) (by decide) (by decide)).1
  have hmonth : 1 ≤ (k % 12 + 1).toNat ∧ (k % 12 + 1).toNat ≤ 12 := by omega
  obtain ⟨hstart, hstop⟩ := Date.clamped_bounds (k / 12) hmonth hday
  have hnumber : 12 * (k / 12) + (k % 12 + 1).toNat = k + 1 := by omega
  rw [hnumber] at hstart hstop
  rw [Int.add_sub_cancel] at hstart
  have hnonneg := p.finerNanos_nonneg u
  have hlt := h.finerNanos_lt_day u
  unfold nanosPerDay at hlt
  unfold monthSlot nanosPerDay
  dsimp only
  omega

theorem months_of_one (hfixed : ¬ i.IsFixed) (hone : i.multiplier = 1) :
    (i.base = .month ∧ i.months = 1) ∨ (i.base = .year ∧ i.months = 12) := by
  cases hu : i.base with
  | month => exact .inl ⟨rfl, by simp [Interval.months, hu, hone]⟩
  | year => exact .inr ⟨rfl, by simp [Interval.months, hu, hone]⟩
  | _ => simp [Interval.IsFixed, hu] at hfixed

theorem IsProper.monthWithin_lt (h : p.IsProper) (hfixed : ¬ i.IsFixed) (hone : i.multiplier = 1) :
    p.monthWithin i.base < i.months := by
  rcases months_of_one hfixed hone with ⟨hu, hmonths⟩ | ⟨hu, hmonths⟩ <;> rw [hu, hmonths]
  · exact Nat.one_pos
  · have hmonth := (h.realignedField_bounds .year .month (n := 1) (by decide) (by decide)).2
    change p.month.getD 1 ≤ 12 at hmonth
    change p.month.getD 1 - 1 < 12
    omega

theorem IsProper.aligned?_of_months (h : p.IsProper) (hfixed : ¬ i.IsFixed)
    (hone : i.multiplier = 1) {t a : Instant} {k : Int} (ha : p.aligned? t i.base = some a)
    (hlow : i.months * k ≤ t.date.monthNumber) (hhigh : t.date.monthNumber < i.months * (k + 1)) :
    a = p.monthSlot i.base (i.months * k + p.monthWithin i.base) := by
  have hyear := t.year_eq
  have hnumber := t.monthNumber_eq
  obtain ⟨hfrom, hto, -⟩ := t.date_bounds
  have hbounds := h.realignedField_bounds i.base .month hfrom hto
  simp only [lowest, highest] at hbounds
  have hmonth : i.months * k + p.monthWithin i.base =
      12 * t.year + (p.realignedField i.base .month t.month - 1 : Nat) := by
    rcases months_of_one hfixed hone with ⟨hu, hmonths⟩ | ⟨hu, hmonths⟩ <;>
      rw [hmonths] at hlow hhigh ⊢ <;> rw [hu]
    · change (1 : Nat) * k + (0 : Nat) = 12 * t.year + (t.month - 1 : Nat)
      omega
    · change (12 : Nat) * k + (p.month.getD 1 - 1 : Nat) = 12 * t.year + (p.month.getD 1 - 1 : Nat)
      omega
  have hdiv : (i.months * k + p.monthWithin i.base) / 12 = t.year := by omega
  have hmod : ((i.months * k + p.monthWithin i.base) % 12 + 1).toNat =
      p.realignedField i.base .month t.month := by omega
  apply Instant.ext
  rw [aligned?_of_not_isFixed hfixed ha, monthSlot, hdiv, hmod]

theorem IsProper.cycles_of_months (h : p.IsProper) (hfixed : ¬ i.IsFixed)
    (hone : i.multiplier = 1) :
    p.Cycles i (fun k => Date.monthStart (i.months * k) * nanosPerDay)
      (fun k => (p.monthSlot i.base (i.months * k + p.monthWithin i.base)).nanos) := by
  have hclock : ¬ i.base.IsClock := fun hclock => hfixed (Interval.isFixed_of_isClock hclock)
  have hwithin := h.monthWithin_lt hfixed hone
  have hsucc (k : Int) : i.months * (k + 1) = i.months * k + i.months := by ring
  refine ⟨fun n => ⟨(Instant.mk n).date.monthNumber / i.months, ?_⟩, fun k => ?_,
    fun t k ha hlow hhigh => ?_, fun t v k first room hv hlow hhigh => ?_⟩
  · have hdiv := Int.mul_ediv_add_emod (Instant.mk n).date.monthNumber i.months
    have hnonneg := Int.emod_nonneg (Instant.mk n).date.monthNumber (b := i.months) (by omega)
    have hlt := Int.emod_lt_of_pos (Instant.mk n).date.monthNumber (b := i.months) (by omega)
    refine ⟨(Instant.mk n).monthStart_le_iff.mpr ?_, (Instant.mk n).lt_monthStart_iff.mpr ?_⟩
    · omega
    · rw [hsucc]
      omega
  · obtain ⟨hstart, hstop⟩ := h.monthSlot_bounds i.base (i.months * k + p.monthWithin i.base)
    refine ⟨le_trans (Int.mul_le_mul_of_nonneg_right (Date.monthStart_le_iff.mpr ?_) (by decide))
      hstart, hstop.trans_le
        (Int.mul_le_mul_of_nonneg_right (Date.monthStart_le_iff.mpr ?_) (by decide))⟩
    · omega
    · rw [hsucc]
      omega
  · obtain ⟨a, haligned⟩ := Option.isSome_iff_exists.mp ha
    have hslot := h.aligned?_of_months hfixed hone haligned (Instant.monthStart_le_iff.mp hlow)
      (Instant.lt_monthStart_iff.mp hhigh)
    rw [realign?_of_not_isClock hclock haligned, eq_comm, Instant.inRange?_eq_some_iff]
    exact ⟨hslot ▸ inRange_aligned? h haligned, hslot⟩
  · have hmoved : v.date.monthNumber = t.date.monthNumber + i.months := by
      obtain ⟨hmonth, hyear⟩ := room.monthNumber first hv
      rcases months_of_one hfixed hone with ⟨hu, hmonths⟩ | ⟨hu, hmonths⟩ <;> rw [hmonths]
      · simpa [hone] using hmonth hu
      · simpa [hone] using hyear hu
    rw [Instant.monthStart_le_iff] at hlow ⊢
    rw [Instant.lt_monthStart_iff] at hhigh ⊢
    rw [hsucc (k + 1), hsucc]
    rw [hsucc] at hhigh
    omega

/-- A regular interval divides time into cycles. -/
theorem IsProper.exists_cycles (h : p.IsProper) (regular : i.IsRegular)
    (phase : 1 < i.multiplier → (p.get i.base).isSome) : ∃ start slot, p.Cycles i start slot := by
  by_cases hfixed : i.IsFixed
  · exact ⟨_, _, h.cycles_of_isFixed hfixed regular phase⟩
  · have hone : i.multiplier = 1 := regular.resolve_right fun hm => hfixed <| by
      unfold Interval.IsFixed
      tauto
    exact ⟨_, _, h.cycles_of_months hfixed hone⟩

end Regular

end TimePattern

namespace Schedule

variable {s : Schedule} {now : Instant} {positive : Bool}

/-- With a regular step the next run is the first slot ahead. -/
theorem isNextSlot_nextRunAfter? (proper : s.base.IsProper) (regular : (s.step positive).IsRegular)
    (phase : 1 < (s.step positive).multiplier → (s.base.get (s.step positive).base).isSome)
    (range : now.InRange) (room : s.base.HasRoom (s.step positive) now) :
    ∃ next, s.nextRunAfter? now positive = some next ∧
      s.base.IsNextSlot (s.step positive) now next := by
  obtain ⟨start, slot, hcycles⟩ := proper.exists_cycles regular phase
  exact hcycles.exists_isNextSlot proper range room

/-- A schedule for half past eight in the evening every twelve hours is run at half past eight in the
morning, too. -/
theorem isNextSlot_nextRunAfter?_twiceADay :
    let s : Schedule := {
      base := { format := "HH:mm", hour := some 20, minute := some 30 }
      interval := { base := .hour, multiplier := 12 } }
    let now := Instant.ofDate ⟨2004, 2, 29⟩ 30599
    s.base.IsProper ∧ (s.step false).IsRegular ∧
      (1 < (s.step false).multiplier → (s.base.get (s.step false).base).isSome) ∧ now.InRange ∧
      s.base.HasRoom (s.step false) now ∧
      s.nextRunAfter? now false = some (Instant.ofDate ⟨2004, 2, 29⟩ 30600) ∧
      ∃ next, s.nextRunAfter? now false = some next ∧
        s.base.IsNextSlot (s.step false) now next := by
  intro s now
  have proper : s.base.IsProper := by decide
  have regular : (s.step false).IsRegular := by decide
  have phase : 1 < (s.step false).multiplier → (s.base.get (s.step false).base).isSome := by decide
  have range : now.InRange := by decide +kernel
  have room : s.base.HasRoom (s.step false) now :=
    ⟨by decide +kernel, by decide +kernel, by decide +kernel⟩
  exact ⟨proper, regular, phase, range, room, by decide +kernel,
    isNextSlot_nextRunAfter? proper regular phase range room⟩

end Schedule
end SeriesAlarm
