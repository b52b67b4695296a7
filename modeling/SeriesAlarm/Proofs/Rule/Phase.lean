import SeriesAlarm.Proofs.Calendar.Cycle
import SeriesAlarm.Proofs.Rule.Ending

/-!
# The phase of a scan

Two passes of a test look at the instants that their windows have in common alike exactly if the
interval of the series is regular. An irregular one is stepped from where the window happens to begin:
of a series with a sample every other day, a pass comes to all samples or to none.
-/

namespace SeriesAlarm

theorem Interval.follows_iff {i : Interval} {t next u : Instant} (hnext : i.next? t = some next)
    (hlt : t < next) : i.Follows t u ↔ u = t ∨ i.Follows next u := by
  constructor
  · intro h
    cases h with
    | refl => exact .inl rfl
    | step hnext' _ hfollows =>
      cases hnext.symm.trans hnext'
      exact .inr hfollows
  · rintro (rfl | h)
    · exact .refl _
    · exact .step hnext hlt h

namespace Test

variable {i : Interval} {g : Int → Int} {flag : CancelReadings}

/-- A finished scan visited every slot from its first one up to its end, and nothing else. -/
theorem mem_visited_scan {last t : Instant} {c done : Scan} (h : scan flag i last t c = .ok done)
    (finished : done.cancelled = false) (u : Instant) :
    u ∈ done.visited ↔ u ∈ c.visited ∨ (i.Follows t u ∧ u ≤ last) := by
  fun_induction scan flag i last t c with
  | case1 => cases h
  | case2 t c hle c' hstep hcancelled =>
    cases h
    rw [finished] at hcancelled
    cases hcancelled
  | case3 => cases h
  | case4 t c hle c' hstep hgoing next hnext hlt ih =>
    have hvisited : c'.visited = t :: c.visited := by
      rcases Scan.step_cases hstep with ⟨-, rfl⟩ | ⟨-, root, -, rfl⟩
      · exact absurd rfl hgoing
      · rfl
    rw [ih h, hvisited, List.mem_cons, Interval.follows_iff hnext hlt]
    constructor
    · rintro ((rfl | hu) | ⟨hu, hbelow⟩)
      · exact .inr ⟨.inl rfl, hle⟩
      · exact .inl hu
      · exact .inr ⟨.inr hu, hbelow⟩
    · rintro (hu | ⟨rfl | hu, hbelow⟩)
      · exact .inl (.inr hu)
      · exact .inl (.inl rfl)
      · exact .inr ⟨hu, hbelow⟩
  | case5 => cases h
  | case6 t c hgt =>
    cases h
    refine ⟨.inl, fun hu => hu.resolve_right ?_⟩
    rintro ⟨hfollows, hbelow⟩
    exact hgt (Int.le_trans hfollows.le hbelow)

theorem tick_of_follows (h : i.Ticks g) {t u : Instant} (hfollows : i.Follows t u)
    (tick : i.align t = t ∨ t = Instant.last) (hfirst : Instant.first ≤ t)
    (hlast : u ≤ Instant.last) : i.align u = u ∨ u = Instant.last := by
  induction hfollows with
  | refl => exact tick
  | step hnext hlt hfollows ih =>
    rcases tick with htick | rfl
    · exact ih (h.align_next htick hfirst hnext) (h.first_le_next htick hfirst hnext) hlast
    · have hbeyond := Int.lt_of_lt_of_le hlt hfollows.le
      exact absurd hlast (Int.not_le.mpr hbeyond)

theorem follows_of_scan (h : i.Ticks g) {last t : Instant} {c done : Scan}
    (hscan : scan flag i last t c = .ok done) (finished : done.cancelled = false)
    (hlast : last ≤ Instant.last) (tick : i.align t = t ∨ t = Instant.last)
    (hfirst : Instant.first ≤ t) {u : Instant} (hu : i.align u = u) (hle : t ≤ u) (hbelow : u ≤ last) :
    i.Follows t u := by
  fun_induction scan flag i last t c with
  | case1 => cases hscan
  | case2 t c hle c' hstep hcancelled =>
    cases hscan
    rw [finished] at hcancelled
    cases hcancelled
  | case3 => cases hscan
  | case4 t c _ c' hstep hgoing next hnext hlt ih =>
    have htick : i.align t = t := by
      refine tick.elim (fun heq => heq) fun heq => ?_
      have hend : u = t := Instant.ext (Int.le_antisymm (heq ▸ Int.le_trans hbelow hlast) hle)
      rw [← hend, hu]
    have hnext' : i.next? (i.align t) = some next := by rw [htick, hnext]
    rcases Int.lt_or_eq_of_le hle with hlater | heq
    · have hafter : next ≤ u := by
        rw [h.next_le_iff hfirst hnext' hu (Int.le_trans hbelow hlast), htick]
        exact hlater
      exact .step hnext hlt (ih hscan (h.align_next htick hfirst hnext)
        (h.first_le_next htick hfirst hnext) hafter)
    · rw [Instant.ext heq]
      exact .refl u
  | case5 => cases hscan
  | case6 t c hgt => exact absurd (Int.le_trans hle hbelow) hgt

/-- A pass of the test that scanned its window on the grid of the interval and was not interrupted. -/
structure Samples (s : Test) (source : Source) (i : Interval) (start anchor : Instant) (p : Pass) :
    Prop where
  range : anchor.InRange
  scans : s.ScansBy source anchor i (start, anchor)
  ends : ∃ flag, s.pass source flag anchor = .ok p
  finished : p.result ≠ .error .cancelled

section Samples

variable {s : Test} {source : Source} {start anchor u : Instant} {p : Pass}

theorem Samples.scan (h : s.Samples source i start anchor p) (unseasonal : s.season = none) :
    s.window.back? anchor = some start ∧ ∃ (flag : CancelReadings) (first : Instant) (c done : Scan),
      firstSlot? i start = some first ∧ scan flag i (i.align anchor) first c = .ok done ∧
        done.cancelled = false ∧ c.visited = [] ∧ p.visited = done.visited.reverse := by
  obtain ⟨start', root, resolved, hstart, hroot, hnative, hbounds⟩ := h.scans
  have hunclamped : s.scanBounds start' anchor = (start', anchor) := by
    rw [scanBounds, unseasonal]
    rfl
  cases hbounds.trans hunclamped
  obtain ⟨flag, hpass⟩ := h.ends
  obtain ⟨start', root', resolved', hstart', hroot', hends⟩ := pass_cases hpass
  cases hstart.symm.trans hstart'
  cases hroot.symm.trans hroot'
  refine ⟨hstart, flag, ?_⟩
  rcases hends with ⟨e, he, -⟩ | ⟨interval, done, hinterval, hdone, hvisited, -, hends⟩
  · cases hnative.symm.trans he
  cases hnative.symm.trans hinterval
  change (s.bound root).scanBetween flag anchor (s.scanBounds start anchor) (some i) = _ at hdone
  rw [hunclamped] at hdone
  obtain ⟨first, hfirst, hscan⟩ := bind_eq_ok.mp hdone
  refine ⟨first, _, done, orFault_eq_ok.mp hfirst, hscan, ?_, rfl, hvisited⟩
  rcases hends with ⟨-, -, hresult⟩ | ⟨hfinished, -⟩
  · exact absurd hresult h.finished
  · exact hfinished

theorem Samples.mem_visited_iff (h : s.Samples source i start anchor p)
    (unseasonal : s.season = none) :
    u ∈ p.visited ↔ IsSlot anchor (start, anchor) (some i) u := by
  obtain ⟨-, flag, first, c, done, hfirst, hscan, hfinished, hempty, hvisited⟩ := h.scan unseasonal
  rw [hvisited, List.mem_reverse, mem_visited_scan hscan hfinished, hempty]
  constructor
  · rintro (hu | hu)
    · exact absurd hu List.not_mem_nil
    · exact ⟨first, hfirst, hu⟩
  · rintro ⟨first', hfirst', hu⟩
    cases hfirst.symm.trans hfirst'
    exact .inr hu

theorem Samples.mem_visited_iff_tick (h : s.Samples source i start anchor p)
    (unseasonal : s.season = none) (ticks : i.Ticks g) :
    u ∈ p.visited ↔ i.align u = u ∧ start ≤ u ∧ u ≤ anchor := by
  rw [h.mem_visited_iff unseasonal]
  obtain ⟨hstart, flag, first, c, done, hfirst, hscan, hfinished, -⟩ := h.scan unseasonal
  have hlow : Instant.first ≤ start := Interval.first_le_add? h.range.1 hstart
  obtain ⟨htick, hfirstLow, hiff⟩ := firstSlot?_bounds ticks hlow hfirst
  constructor
  · rintro ⟨first', hfirst', hfollows, hbelow⟩
    cases hfirst.symm.trans hfirst'
    have hlast : u ≤ Instant.last :=
      Int.le_trans hbelow (Int.le_trans (i.align_le anchor) h.range.2)
    have htick' := tick_of_follows ticks hfollows htick hfirstLow hlast
    obtain ⟨hu, hle⟩ := tick_of_le_align ticks h.range.2 htick' hbelow
    exact ⟨hu, (hiff u hu hlast).mp hfollows.le, hle⟩
  · rintro ⟨hu, hle, hbelow⟩
    have hreach := (hiff u hu (Int.le_trans hbelow h.range.2)).mpr hle
    have hend : u ≤ i.align anchor := (ticks.le_align_iff hu).mpr hbelow
    have hlast : i.align anchor ≤ Instant.last := Int.le_trans (i.align_le anchor) h.range.2
    exact ⟨first, hfirst, follows_of_scan ticks hscan hfinished hlast htick hfirstLow hu hreach hend,
      hend⟩

theorem samples_of_resolve {root : Tree} {resolved : List Bool} (unseasonal : s.season = none)
    (range : anchor.InRange) (window : s.window.back? anchor = some start)
    (resolve : s.root.resolve? source start anchor = some (root, resolved))
    (bound : root.boundIntervals ≠ []) (shared : ∀ j ∈ root.boundIntervals, j = i)
    (ends : s.pass source .down anchor = .ok p) : s.Samples source i start anchor p := by
  refine ⟨range, ⟨start, root, resolved, window, resolve, ?_, ?_⟩, ⟨.down, ends⟩, ?_⟩
  · exact nativeInterval_eq_some_iff.mpr ⟨bound, shared⟩
  · rw [scanBounds, unseasonal]
    rfl
  · exact pass_down_ne_cancelled ends

theorem exists_samples (modest : i.IsModest) (moves : i.Moves) (era : anchor.InEra)
    (unseasonal : s.season = none) (window : s.window.back? anchor = some start)
    (inputs : s.root.identifiers ≠ []) : ∃ p, s.Samples (every i) i start anchor p := by
  have range := era.inRange
  have answers : (every i).Answers := fun _ _ _ _ h => by cases h
  obtain ⟨root, resolved, hroot, hbound, hshared⟩ := exists_resolve?_every i inputs start anchor
  have hle : start ≤ anchor := Interval.back?_le range.1 window
  have hends : ∃ p, s.pass (every i) .down anchor = .ok p := by
    refine (pass_ends_iff answers range.1 era.lt_last).mpr ⟨?_, ?_⟩
    · rw [← Interval.isSome_back?_iff range.2, window]
      rfl
    · rintro j bounds ⟨start', root', resolved', hstart', hroot', hnative, rfl⟩
      cases window.symm.trans hstart'
      cases hroot.symm.trans hroot'
      have hj : j = i := hshared j (mem_of_nativeInterval hnative)
      subst hj
      refine modest.ends moves era ?_ scanBounds_le_anchor
      rw [scanBounds, unseasonal]
      exact hle
  obtain ⟨p, hpass⟩ := hends
  exact ⟨p, samples_of_resolve unseasonal range window hroot hbound hshared hpass⟩

end Samples

end Test

namespace Interval

variable {i : Interval}

/-- Two passes over series with the interval look at the instants that their windows have in common
alike, whatever the test, the source and the anchors. -/
def PhaseFree (i : Interval) : Prop :=
  ∀ (s : Test) (source : Source) (start start' a b : Instant) (p q : Pass), s.season = none →
    s.Samples source i start a p → s.Samples source i start' b q →
      ∀ u, start ≤ u ∧ u ≤ a → start' ≤ u ∧ u ≤ b → (u ∈ p.visited ↔ u ∈ q.visited)

theorem IsRegular.phaseFree (h : i.IsRegular) : i.PhaseFree := by
  obtain ⟨g, ticks⟩ := h.ticks
  intro s source start start' a b p q unseasonal hp hq u hu hu'
  rw [hp.mem_visited_iff_tick unseasonal ticks, hq.mem_visited_iff_tick unseasonal ticks]
  exact ⟨fun hmem => ⟨hmem.1, hu'⟩, fun hmem => ⟨hmem.1, hu⟩⟩

def millennium : Instant := Instant.ofDate ⟨2000, 1, 1⟩ 0

theorem millennium_begins (i : Interval) : ∃ before ∈ i.cycle.back? millennium,
    ∃ after ∈ i.cycle.next? millennium, i.cycle.next? before = some millennium ∧
      i.cycle.back? after = some millennium ∧ i.cycle.align before = before ∧
      i.cycle.align millennium = millennium ∧ i.cycle.align after = after ∧
      before < millennium ∧ millennium < after ∧ after.InEra := by
  unfold cycle
  cases i.base <;> decide +kernel

/-- A pass that begins where the grid begins anew looks there; one that ends there does so only if it
is led there. -/
theorem isRegular_of_phaseFree (modest : i.IsModest) (fits : i.MonthsFit) (h : i.PhaseFree) :
    i.IsRegular := by
  obtain ⟨before, hbefore, after, hafter, hnext, hback, hlow, hhere, hhigh, hlt, hlt', era⟩ :=
    i.millennium_begins
  have era' : millennium.InEra := by decide +kernel
  let s : Test := { Test.winter with window := i.cycle, season := none }
  have inputs : Test.winter.root.identifiers ≠ [] := by decide
  obtain ⟨p, hp⟩ := Test.exists_samples (s := s) modest fits.moves era rfl hback inputs
  obtain ⟨q, hq⟩ := Test.exists_samples (s := s) modest fits.moves era' rfl hbefore inputs
  have hle := Int.le_of_lt hlt'
  have hvisited : millennium ∈ p.visited := by
    rw [hp.mem_visited_iff rfl]
    refine ⟨millennium, ?_, .refl _, ?_⟩
    · simp [Test.firstSlot?, align_of_align_cycle hhere, Instant.lt_def]
    · rw [align_of_align_cycle hhigh]
      exact hle
  have hled := (h s _ _ _ _ _ p q rfl hp hq millennium ⟨Int.le_refl _, hle⟩
    ⟨Int.le_of_lt hlt, Int.le_refl _⟩).mp hvisited
  rw [hq.mem_visited_iff rfl] at hled
  obtain ⟨first, hfirst, hfollows, -⟩ := hled
  have hsame : first = before := by
    simpa [Test.firstSlot?, align_of_align_cycle hlow, Instant.lt_def] using hfirst.symm
  rw [hsame] at hfollows
  refine isRegular_of_follows fits ?_ hlow hnext hlt (by decide +kernel) hfollows
  exact first_le_add? era'.inRange.1 hbefore

/-- Passes agree exactly over series with a regular interval. -/
theorem phaseFree_iff (modest : i.IsModest) (fits : i.MonthsFit) : i.PhaseFree ↔ i.IsRegular :=
  ⟨isRegular_of_phaseFree modest fits, IsRegular.phaseFree⟩

/-- The phase does not matter for a sample every quarter of an hour. -/
theorem phaseFree_quarterHour :
    let quarter : Interval := { base := .minute, multiplier := 15 }
    quarter.IsModest ∧ quarter.MonthsFit ∧ quarter.PhaseFree := by
  intro quarter
  have modest : quarter.IsModest := by decide +kernel
  have fits : quarter.MonthsFit := by decide +kernel
  exact ⟨modest, fits, (phaseFree_iff modest fits).mpr (by decide)⟩

def everyOtherDay : Series where
  identifier := "level"
  interval := { base := .day, multiplier := 2 }
  samples := [(.ofDate ⟨2005, 10, 1⟩ 0, 10), (.ofDate ⟨2005, 10, 3⟩ 0, 75),
    (.ofDate ⟨2005, 10, 5⟩ 0, 10), (.ofDate ⟨2005, 10, 7⟩ 0, 10)]

/-- One pass comes to the samples and finds the second one; the pass of the next day has it in its
window too, but looks at the days in between only. -/
theorem not_phaseFree_everyOtherDay :
    let s : Test := { Test.winter with window := { base := .day, multiplier := 4 }, season := none }
    let source := Source.ofSeries [everyOtherDay] [] false
    let day (n : Nat) := Instant.ofDate ⟨2005, 10, n⟩ 0
    ∃ p q, s.Samples source everyOtherDay.interval (day 1) (day 5) p ∧
      s.Samples source everyOtherDay.interval (day 2) (day 6) q ∧
      p.visited = [day 1, day 3, day 5] ∧ p.test.groups.length = 1 ∧
      q.visited = [day 2, day 4, day 6] ∧ q.test.groups.length = 0 := by
  intro s source day
  let shown (p : Pass) := (p.visited, p.test.groups.length)
  have hfirst : ((s.pass source .down (day 5)).toOption.map shown) =
      some ([day 1, day 3, day 5], 1) := by decide +kernel
  have hsecond : ((s.pass source .down (day 6)).toOption.map shown) =
      some ([day 2, day 4, day 6], 0) := by decide +kernel
  cases hp : s.pass source .down (day 5) with
  | error fault =>
    rw [hp] at hfirst
    cases hfirst
  | ok p =>
    cases hq : s.pass source .down (day 6) with
    | error fault =>
      rw [hq] at hsecond
      cases hsecond
    | ok q =>
      rw [hp] at hfirst
      rw [hq] at hsecond
      obtain ⟨hvisited, hgroups⟩ := Prod.mk.inj (Option.some.inj hfirst)
      obtain ⟨hvisited', hgroups'⟩ := Prod.mk.inj (Option.some.inj hsecond)
      refine ⟨p, q, ?_, ?_, hvisited, hgroups, hvisited', hgroups'⟩
      · exact Test.samples_of_resolve rfl (by decide +kernel) (by decide +kernel) rfl
          (List.cons_ne_nil _ _) (fun j hj => List.mem_singleton.mp hj) hp
      · exact Test.samples_of_resolve rfl (by decide +kernel) (by decide +kernel) rfl
          (List.cons_ne_nil _ _) (fun j hj => List.mem_singleton.mp hj) hq

end Interval
end SeriesAlarm
