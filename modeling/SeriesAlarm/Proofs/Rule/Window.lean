import SeriesAlarm.Proofs.Expr.Binding
import SeriesAlarm.Proofs.Rule.Scan

/-!
# Where a pass looks

A pass evaluates the tree at whole seconds between the bounds of its scan, or at the anchor. It stays
in its window and its season exactly if all of these do: the first day of a season is scanned from
midnight, although the season may open later that day and the window may begin in between.
-/

namespace SeriesAlarm

def Source.MonthsFit (source : Source) : Prop :=
  ∀ id first last s, source.resolve id first last = .series s → s.interval.MonthsFit

/-- The instants of a pass: those at which it evaluated the tree and those of the results it kept. -/
def Pass.LooksAt (p : Pass) (u : Instant) : Prop :=
  u ∈ p.visited ∨ ∃ g ∈ p.test.groups, ∃ r ∈ g, r.timestamp = u

namespace Test

/-- The instant lies in the window and in the season. -/
structure Covers (s : Test) (start anchor u : Instant) : Prop where
  window : start ≤ u ∧ u ≤ anchor
  season : s.inSeason u = true

/-- A pass may come to the instant: it is the anchor, or a whole second at which a leaf may have data,
between the bounds of the scan. -/
structure MayVisit (s : Test) (start anchor u : Instant) : Prop where
  sample : u = anchor ∨ (u.IsWhole ∧ s.root.identifiers ≠ [])
  bounds : (s.scanBounds start anchor).1 ≤ u ∧ u ≤ (s.scanBounds start anchor).2

theorem mem_of_nativeInterval {s : Test} {i : Interval} (h : s.nativeInterval = .ok (some i)) :
    i ∈ s.root.boundIntervals := by
  obtain ⟨hsome, hsame⟩ := nativeInterval_eq_some_iff.mp h
  obtain ⟨j, hj⟩ := List.exists_mem_of_ne_nil _ hsome
  exact hsame j hj ▸ hj

section Sound

variable {s : Test} {anchor start u : Instant} {bounds : Instant × Instant}

theorem IsSlot.isWhole {i : Interval} (fits : i.MonthsFit) (hfirst : Instant.first ≤ bounds.1)
    (hlast : bounds.2 ≤ Instant.last) (h : IsSlot anchor bounds (some i) u) :
    u.IsWhole ∧ bounds.1 ≤ u ∧ u ≤ bounds.2 := by
  obtain ⟨slot, hslot, hfollows, hend⟩ := h
  have hbelow : u ≤ bounds.2 := Int.le_trans hend (i.align_le bounds.2)
  have hinside : ¬ Instant.last ≤ u := by
    intro hbeyond
    have hle := Int.le_trans (i.align_le bounds.2) hlast
    have heq : i.align bounds.2 = Instant.last :=
      Instant.ext (Int.le_antisymm hle (Int.le_trans hbeyond hend))
    exact Instant.not_isWhole_last (heq ▸ i.isWhole_align bounds.2)
  have hstart : (slot.IsWhole ∨ Instant.last ≤ slot) ∧ (bounds.1 ≤ slot ∨ Instant.last ≤ slot) := by
    unfold firstSlot? at hslot
    dsimp only at hslot
    split at hslot
    · have hafter := Interval.lt_next_align fits hfirst hslot
      have hwhole := Interval.isWhole_next? (i.isWhole_align bounds.1) hslot
      exact ⟨hwhole.imp_right fun heq => Instant.le_of_eq heq.symm,
        hafter.imp Int.le_of_lt fun heq => Instant.le_of_eq heq.symm⟩
    · next hge =>
      cases hslot
      exact ⟨.inl (i.isWhole_align bounds.1), .inl (Int.not_lt.mp hge)⟩
  have hle := hfollows.le
  refine ⟨(hfollows.isWhole hstart.1).resolve_right hinside, ?_, hbelow⟩
  rcases hstart.2 with hlow | hbeyond
  · exact Int.le_trans hlow hle
  · exact absurd (Int.le_trans hbeyond hle) hinside

variable {source : Source} {flag : CancelReadings} {p : Pass}

/-- The months of so many years wrap to four, so a scan that begins in December comes to May first. -/
example : firstSlot? { base := .year, multiplier := 715827883 } (Instant.ofDate ⟨2005, 12, 31⟩ 0) =
    some (Instant.ofDate ⟨2005, 5, 1⟩ 0) := by
  decide +kernel

/-- The tree is evaluated at slots of the pass only, and the results are of such instants. -/
theorem isPassSlot_of_looksAt (h : s.pass source flag anchor = .ok p) (hu : p.LooksAt u) :
    s.IsPassSlot source anchor u := by
  have hkept : (∀ g ∈ p.test.groups, ∀ r ∈ g, s.IsPassSlot source anchor r.timestamp) ∧
      ∀ t ∈ p.visited.reverse, s.IsPassSlot source anchor t := by
    refine pass_keeps (P := fun s' vs =>
      (∀ g ∈ s'.groups, ∀ r ∈ g, s.IsPassSlot source anchor r.timestamp) ∧
        ∀ t ∈ vs, s.IsPassSlot source anchor t) h ?_ ?_ ?_ ?_
    · intro start root resolved _
      exact ⟨fun g hg => absurd hg List.not_mem_nil, fun t ht => absurd ht List.not_mem_nil⟩
    · rintro s' vs ⟨-, hvisited⟩
      exact ⟨fun g hg => absurd hg List.not_mem_nil, hvisited⟩
    · rintro s' vs ⟨hgroups, hvisited⟩
      exact ⟨fun g hg => hgroups g (settle_groups_subset s' hg), hvisited⟩
    · rintro s' vs t root hslot ⟨hgroups, hvisited⟩ -
      refine ⟨fun g hg r hr => ?_, fun t' ht' => ?_⟩
      · rcases List.mem_append.mp hg with hg | hg
        · exact hgroups g hg r hr
        · split at hg
          · rw [List.mem_singleton] at hg
            subst hg
            rw [(Tree.mem_explain hr).1.2]
            exact hslot
          · cases hg
      · rcases List.mem_cons.mp ht' with rfl | ht'
        · exact hslot
        · exact hvisited t' ht'
  rcases hu with hu | ⟨g, hg, r, hr, rfl⟩
  · exact hkept.2 u (List.mem_reverse.mpr hu)
  · exact hkept.1 g hg r hr

theorem mayVisit_of_looksAt (range : anchor.InRange) (window : s.window.back? anchor = some start)
    (fits : source.MonthsFit) (h : s.pass source flag anchor = .ok p) (hu : p.LooksAt u) :
    s.MayVisit start anchor u := by
  obtain ⟨start', root, resolved, interval, hstart, hroot, hinterval, hslot⟩ :=
    isPassSlot_of_looksAt h hu
  cases window.symm.trans hstart
  cases interval with
  | none => exact ⟨.inl hslot.1, hslot.2⟩
  | some i =>
    have hmem : i ∈ root.boundIntervals := mem_of_nativeInterval hinterval
    obtain ⟨id, hid, series, hanswer, rfl⟩ := (Tree.mem_boundIntervals_resolve? hroot).mp hmem
    have hfirst : Instant.first ≤ (s.scanBounds start anchor).1 :=
      first_le_scanBounds (Interval.first_le_add? range.1 window)
    have hlast : (s.scanBounds start anchor).2 ≤ Instant.last :=
      Int.le_trans scanBounds_le_anchor range.2
    obtain ⟨hwhole, hbounds⟩ := hslot.isWhole (fits _ _ _ _ hanswer) hfirst hlast
    exact ⟨.inr ⟨hwhole, List.ne_nil_of_mem hid⟩, hbounds⟩

end Sound

section Complete

variable {s : Test} {flag : CancelReadings} {anchor start u : Instant}

def noSeries : Source where
  resolve _ _ _ := .error .unreadable
  identifiers := .error .unreadable

def everySecond : Source where
  resolve id _ _ := .series { identifier := id, interval := { Interval.oneDay with base := .second } }
  identifiers := .error .unreadable

theorem everySecond_monthsFit : everySecond.MonthsFit := by
  intro id first last series hanswer
  cases hanswer
  intro hbase
  cases hbase

theorem noSeries_monthsFit : noSeries.MonthsFit := by
  intro id first last series hanswer
  cases hanswer

theorem align_second {i : Interval} (hu : i.base = .second) (hm : i.multiplier = 1) (h : u.IsWhole) :
    i.align u = u := by
  apply Instant.ext
  unfold Instant.IsWhole at h
  simp [Interval.align, hu, hm, Nat.mod_one, Instant.truncate, h]

theorem visited_noSeries (down : ∀ n, flag n = false) (window : s.window.back? anchor = some start)
    (bounds : (s.scanBounds start anchor).1 ≤ anchor ∧ anchor ≤ (s.scanBounds start anchor).2) :
    ∃ p, s.pass noSeries flag anchor = .ok p ∧ anchor ∈ p.visited := by
  have hanswers : ∀ id ∈ s.root.identifiers, noSeries.resolve id start anchor ≠ .fault := by
    intro id _ hfault
    cases hfault
  obtain ⟨root, resolved, hroot⟩ := Tree.exists_resolve? hanswers
  have hempty : root.boundIntervals = [] := by
    rw [List.eq_nil_iff_forall_not_mem]
    intro i hi
    obtain ⟨id, -, series, hanswer, -⟩ := (Tree.mem_boundIntervals_resolve? hroot).mp hi
    cases hanswer
  have hnative : (s.bound root).nativeInterval = .ok none := nativeInterval_eq_none_iff.mpr hempty
  obtain ⟨root', heval, -⟩ := Tree.exists_evaluate? (t := anchor) (e := root) (by simp [hempty])
  obtain ⟨test, hstep, -⟩ := Scan.step_down down (c := { test := s.bound root }) heval
  have hbetween : (s.bound root).scanBetween flag anchor (s.scanBounds start anchor) none =
      .ok { test, visited := [anchor], reads := 1 } := by
    rw [scanBetween, if_pos bounds]
    exact hstep
  exact ⟨_, pass_eq_ok window hroot hnative hbetween rfl, List.mem_cons_self⟩

def every (i : Interval) : Source where
  resolve id _ _ := .series { identifier := id, interval := i }
  identifiers := .error .unreadable

theorem exists_resolve?_every (i : Interval) (inputs : s.root.identifiers ≠ [])
    (start anchor : Instant) : ∃ root resolved,
      s.root.resolve? (every i) start anchor = some (root, resolved) ∧
        root.boundIntervals ≠ [] ∧ ∀ j ∈ root.boundIntervals, j = i := by
  have hanswers : ∀ id ∈ s.root.identifiers, (every i).resolve id start anchor ≠ .fault := by
    intro id _ hfault
    cases hfault
  obtain ⟨root, resolved, hroot⟩ := Tree.exists_resolve? hanswers
  refine ⟨root, resolved, hroot, ?_, ?_⟩
  · obtain ⟨id, hid⟩ := List.exists_mem_of_ne_nil _ inputs
    have hmem : i ∈ root.boundIntervals :=
      (Tree.mem_boundIntervals_resolve? hroot).mpr ⟨id, hid, _, rfl, rfl⟩
    exact List.ne_nil_of_mem hmem
  · intro j hj
    obtain ⟨id, -, series, hanswer, rfl⟩ := (Tree.mem_boundIntervals_resolve? hroot).mp hj
    cases hanswer
    rfl

/-- With a slot at every second the tree is evaluated at each whole second between the bounds. -/
theorem visited_everySecond (down : ∀ n, flag n = false) (range : anchor.InRange)
    (window : s.window.back? anchor = some start) (room : (anchor.shift 1).isSome)
    (inputs : s.root.identifiers ≠ []) (whole : u.IsWhole)
    (bounds : (s.scanBounds start anchor).1 ≤ u ∧ u ≤ (s.scanBounds start anchor).2) :
    ∃ p, s.pass everySecond flag anchor = .ok p ∧ u ∈ p.visited := by
  let i : Interval := { Interval.oneDay with base := .second }
  obtain ⟨root, resolved, hroot, hbound, hshared⟩ := exists_resolve?_every i inputs start anchor
  have hregular : i.IsRegular := .inl rfl
  obtain ⟨g, hticks⟩ := hregular.ticks
  have hfirst : Instant.first ≤ (s.scanBounds start anchor).1 :=
    first_le_scanBounds (Interval.first_le_add? range.1 window)
  have hle := Int.le_trans bounds.1 bounds.2
  have hnext : (i.next? (s.scanBounds start anchor).2).isSome :=
    Interval.isSome_next?_of_le (Int.le_trans hfirst hle) scanBounds_le_anchor room
  obtain ⟨p, -, hpass, -, -, hmem⟩ := pass_visits hticks down window hroot hbound hshared
    hfirst (Int.le_trans scanBounds_le_anchor range.2) (.of_last hticks hfirst hle hnext)
  exact ⟨p, hpass, (hmem u).mpr ⟨align_second rfl rfl whole, bounds⟩⟩

end Complete

section Inside

variable {s : Test} {anchor start : Instant}

/-- The passes of a test that end at an anchor stay in the window and the season if all instants do
that they may visit, and only then, short of the last second of the calendar. -/
theorem pass_inside_iff (range : anchor.InRange) (window : s.window.back? anchor = some start) :
    ((∀ u, s.MayVisit start anchor u → s.Covers start anchor u) →
        ∀ source : Source, source.MonthsFit → ∀ flag p, s.pass source flag anchor = .ok p →
          ∀ u, p.LooksAt u → s.Covers start anchor u) ∧
      ((anchor.shift 1).isSome →
        (∀ source : Source, source.MonthsFit → ∀ flag p, s.pass source flag anchor = .ok p →
          ∀ u, p.LooksAt u → s.Covers start anchor u) →
        ∀ u, s.MayVisit start anchor u → s.Covers start anchor u) := by
  constructor
  · intro covers source fits flag p hpass u hu
    exact covers u (mayVisit_of_looksAt range window fits hpass hu)
  · intro room inside u hvisit
    let flag : CancelReadings := fun _ => false
    have down : ∀ n, flag n = false := fun _ => rfl
    rcases hvisit.sample with rfl | ⟨whole, inputs⟩
    · obtain ⟨p, hpass, hmem⟩ := visited_noSeries down window hvisit.bounds
      exact inside noSeries noSeries_monthsFit flag p hpass _ (.inl hmem)
    · obtain ⟨p, hpass, hmem⟩ := visited_everySecond down range window room inputs whole hvisit.bounds
      exact inside everySecond everySecond_monthsFit flag p hpass u (.inl hmem)

/-- In the first night of winter every pass stays inside. -/
theorem pass_inside_winter :
    let start := Instant.ofDate ⟨2005, 9, 30⟩ 81000
    let anchor := Instant.ofDate ⟨2005, 10, 1⟩ 5400
    anchor.InRange ∧ winter.window.back? anchor = some start ∧
      ∀ source : Source, source.MonthsFit → ∀ flag p, winter.pass source flag anchor = .ok p →
        ∀ u, p.LooksAt u → winter.Covers start anchor u := by
  intro start anchor
  have range : anchor.InRange := by decide +kernel
  have window : winter.window.back? anchor = some start := by decide +kernel
  refine ⟨range, window, (pass_inside_iff range window).1 fun u hvisit => ?_⟩
  obtain ⟨-, hlow, hhigh⟩ := hvisit
  let midnight := Instant.ofDate ⟨2005, 10, 1⟩ 0
  let spring := Instant.ofDate ⟨2005, 4, 1⟩ 86399
  let nextSpring := Instant.ofDate ⟨2006, 4, 1⟩ 86399
  have hopen : (winter.scanBounds start anchor).1 = midnight := by decide +kernel
  have hclose : (winter.scanBounds start anchor).2 = anchor := by decide +kernel
  rw [hopen] at hlow
  rw [hclose] at hhigh
  have hyear : u.year = 2005 := by
    have hmidnight : midnight.nanos = 732219 * nanosPerDay := by decide +kernel
    have hanchor : anchor.nanos < 732220 * nanosPerDay := by decide +kernel
    have hday : u.nanos / nanosPerDay = 732219 := by
      rw [Instant.le_def] at hlow hhigh
      unfold nanosPerDay at hmidnight hanchor ⊢
      omega
    unfold Instant.year Instant.date
    rw [hday]
    decide +kernel
  obtain ⟨season, hseason, hstart, hfinish⟩ : ∃ season, winter.season = some season ∧
      season.start.inYear? 2005 = some midnight ∧ season.finishIn? 2005 = some spring :=
    ⟨_, rfl, by decide +kernel, by decide +kernel⟩
  have hlate : ¬ u ≤ spring :=
    Int.not_le.mpr (Int.lt_of_lt_of_le (by decide +kernel) hlow)
  have hbounds : season.bounds? u = some (midnight, nextSpring) := by
    have hnext : spring.shiftMonths? 12 = some nextSpring := by decide +kernel
    have hwraps : spring < midnight := by decide +kernel
    simp [Season.bounds?, hyear, hstart, hfinish, if_pos hwraps, if_neg hlate, hnext]
  refine ⟨⟨Int.le_trans (by decide +kernel) hlow, hhigh⟩, ?_⟩
  have hend : u ≤ nextSpring := Int.le_trans hhigh (by decide +kernel)
  simp [inSeason, hseason, Season.contains, hbounds, hlow, hend]

/-- The first day of the season is open from the evening on only. -/
def evening : Test := { winter with
  window := { base := .hour, multiplier := 6 }
  season := some {
    start := { format := "MM-dd HH:mm", month := some 10, day := some 1, hour := some 18, minute := some 0 }
    finish := { format := "MM-dd HH:mm", month := some 4, day := some 1, hour := some 0, minute := some 0 } } }

/-- Two hours into the season a pass comes to the midnight before, long before the window. -/
theorem pass_outside_evening :
    let hourly : Interval := { base := .hour, multiplier := 1 }
    let source := Source.ofSeries [{ identifier := "level", interval := hourly }] [] false
    let start := Instant.ofDate ⟨2005, 10, 1⟩ 50400
    let anchor := Instant.ofDate ⟨2005, 10, 1⟩ 72000
    evening.window.back? anchor = some start ∧
      ∃ p, evening.pass source (fun _ => false) anchor = .ok p ∧
        ∃ u ∈ p.visited, u < start ∧ evening.inSeason u = false := by
  intro hourly source start anchor
  have regular : hourly.IsRegular := .inl rfl
  obtain ⟨g, hticks⟩ := regular.ticks
  have window : evening.window.back? anchor = some start := by decide +kernel
  have hfirst : Instant.first ≤ (evening.scanBounds start anchor).1 := by decide +kernel
  have hlast : (evening.scanBounds start anchor).2 ≤ Instant.last := by decide +kernel
  have hle : (evening.scanBounds start anchor).1 ≤ (evening.scanBounds start anchor).2 := by
    decide +kernel
  have room : hourly.StaysWithin (evening.scanBounds start anchor) :=
    .of_last hticks hfirst hle (by decide +kernel)
  obtain ⟨root, resolved, hroot⟩ : ∃ root resolved,
      evening.root.resolve? source start anchor = some (root, resolved) ∧
        root.boundIntervals = [hourly] := ⟨_, _, rfl, rfl⟩
  obtain ⟨p, -, hpass, -, -, hmem⟩ := pass_visits hticks (fun _ => rfl) window hroot.1
    (by simp [hroot.2]) (by simp [hroot.2]) hfirst hlast room
  let midnight := Instant.ofDate ⟨2005, 10, 1⟩ 0
  have hvisited : midnight ∈ p.visited := (hmem midnight).mpr (by decide +kernel)
  exact ⟨window, p, hpass, midnight, hvisited, by decide +kernel, by decide +kernel⟩

end Inside

end Test
end SeriesAlarm
