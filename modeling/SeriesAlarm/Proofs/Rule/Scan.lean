import SeriesAlarm.Proofs.Calendar.Bounds
import SeriesAlarm.Proofs.Rule.Groups

/-!
# The instants of a scan

With the cancel flag down, a scan on the grid of a regular interval visits each tick within its
bounds once, in order, and nothing else.
-/

namespace SeriesAlarm

/-- No addition that a scan of the bounds makes leaves the calendar. -/
structure Interval.StaysWithin (i : Interval) (bounds : Instant × Instant) : Prop where
  first : i.align bounds.1 < bounds.1 → (i.next? (i.align bounds.1)).isSome
  later : ∀ u, i.align u = u → bounds.1 ≤ u → u ≤ bounds.2 → (i.next? u).isSome

theorem Interval.StaysWithin.of_last {i : Interval} {g : Int → Int} (h : i.Ticks g)
    {bounds : Instant × Instant} (hfirst : Instant.first ≤ bounds.1) (hle : bounds.1 ≤ bounds.2)
    (hnext : (i.next? bounds.2).isSome) : i.StaysWithin bounds := by
  have haligned := h.align_le bounds.1
  refine ⟨fun _ => ?_, fun u _ hlow hhigh => ?_⟩
  · exact isSome_next?_of_le (h.first_le_align hfirst) (Int.le_trans haligned hle) hnext
  · exact isSome_next?_of_le (Int.le_trans hfirst hlow) hhigh hnext

namespace Test

variable {i : Interval} {g : Int → Int}

/-- The scan begins at the first tick at or after the start. -/
theorem firstSlot?_bounds (h : i.Ticks g) {start first : Instant} (hstart : Instant.first ≤ start)
    (hfirst : firstSlot? i start = some first) :
    (i.align first = first ∨ first = Instant.last) ∧ Instant.first ≤ first ∧
      ∀ u, i.align u = u → u ≤ Instant.last → (first ≤ u ↔ start ≤ u) := by
  have haligned := h.align_align start
  have hle := h.align_le start
  have hlow := h.first_le_align hstart
  unfold firstSlot? at hfirst
  dsimp only at hfirst
  split at hfirst
  · next hlt =>
    refine ⟨h.align_next haligned hlow hfirst, h.first_le_next haligned hlow hfirst, ?_⟩
    intro u hu hlast
    rw [h.next_le_iff hstart hfirst hu hlast]
    constructor
    · intro hafter
      by_contra hbefore
      have hend : u ≤ i.align start := (h.le_align_iff hu).mpr (Int.le_of_lt (Int.not_le.mp hbefore))
      exact Int.not_lt.mpr hend hafter
    · intro hafter
      exact Int.lt_of_lt_of_le hlt hafter
  · next hge =>
    have heq : i.align start = start := Instant.ext (Int.le_antisymm hle (Int.not_lt.mp hge))
    rw [heq] at hfirst
    cases hfirst
    exact ⟨.inl heq, hstart, fun u _ _ => Iff.rfl⟩

theorem Scan.step_down {flag : CancelReadings} (down : ∀ n, flag n = false) {t : Instant} {c : Scan}
    {root : Tree} (h : c.test.root.evaluate? t = some root) :
    ∃ test, c.step flag t =
      .ok { c with test, visited := t :: c.visited, reads := c.reads + 1 } ∧ test.root = root := by
  unfold Scan.step
  rw [down c.reads]
  simp only [Test.run?, h, Option.map_some, orFault]
  by_cases htruthy : isTruthy root.last = true
  · rw [if_pos htruthy]
    exact ⟨_, rfl, rfl⟩
  · rw [if_neg htruthy]
    exact ⟨_, rfl, rfl⟩

theorem Scan.step_shared {flag : CancelReadings} (down : ∀ n, flag n = false) {t : Instant} {c : Scan}
    (shared : ∀ j ∈ c.test.root.boundIntervals, j = i) (hnext : (i.next? t).isSome) :
    ∃ test, c.step flag t = .ok { c with test, visited := t :: c.visited, reads := c.reads + 1 } ∧
      ∀ j ∈ test.root.boundIntervals, j = i := by
  obtain ⟨root, hroot, hbound⟩ := Tree.exists_evaluate? fun j hj => shared j hj ▸ hnext
  obtain ⟨test, hstep, rfl⟩ := Scan.step_down down hroot
  exact ⟨test, hstep, fun j hj => shared j (hbound ▸ hj)⟩

theorem tick_of_le_align (h : i.Ticks g) {stop t : Instant} (hstop : stop ≤ Instant.last)
    (tick : i.align t = t ∨ t = Instant.last) (hle : t ≤ i.align stop) :
    i.align t = t ∧ t ≤ stop := by
  have hend := h.align_le stop
  refine ⟨tick.elim (fun heq => heq) fun heq => ?_, Int.le_trans hle hend⟩
  have hsame : t = i.align stop :=
    Instant.ext (Int.le_antisymm hle (heq ▸ Int.le_trans hend hstop))
  rw [hsame]
  exact h.align_align stop

/-- From a tick on, a scan visits the ticks up to its end. -/
theorem scan_visits (h : i.Ticks g) {flag : CancelReadings} (down : ∀ n, flag n = false)
    {stop : Instant} (hstop : stop ≤ Instant.last) {t : Instant} {c : Scan}
    (tick : i.align t = t ∨ t = Instant.last) (hfirst : Instant.first ≤ t)
    (shared : ∀ j ∈ c.test.root.boundIntervals, j = i)
    (room : ∀ u, i.align u = u → t ≤ u → u ≤ stop → (i.next? u).isSome)
    (going : c.cancelled = false) :
    ∃ (done : Scan) (visited : List Instant), scan flag i (i.align stop) t c = .ok done ∧
      done.cancelled = false ∧ done.visited = visited.reverse ++ c.visited ∧
      visited.Pairwise (· < ·) ∧ ∀ u, u ∈ visited ↔ i.align u = u ∧ t ≤ u ∧ u ≤ stop := by
  generalize hlast : i.align stop = last
  fun_induction scan flag i last t c with
  | case1 t c hle e he =>
    obtain ⟨htick, hbelow⟩ := tick_of_le_align h hstop tick (hlast ▸ hle)
    obtain ⟨test, hok, -⟩ := Scan.step_shared down shared (room t htick (Int.le_refl _) hbelow)
    rw [he] at hok
    cases hok
  | case2 t c hle c' hc' hcancelled =>
    obtain ⟨htick, hbelow⟩ := tick_of_le_align h hstop tick (hlast ▸ hle)
    obtain ⟨test, hok, -⟩ := Scan.step_shared down shared (room t htick (Int.le_refl _) hbelow)
    rw [hc'] at hok
    cases hok
    rw [going] at hcancelled
    cases hcancelled
  | case3 t c hle c' hc' hgoing hnone =>
    obtain ⟨htick, hbelow⟩ := tick_of_le_align h hstop tick (hlast ▸ hle)
    have hsome := room t htick (Int.le_refl _) hbelow
    rw [hnone] at hsome
    cases hsome
  | case4 t c hle c' hc' hgoing next hnext hlt ih =>
    obtain ⟨htick, hbelow⟩ := tick_of_le_align h hstop tick (hlast ▸ hle)
    obtain ⟨test, hok, hshared⟩ := Scan.step_shared down shared (room t htick (Int.le_refl _) hbelow)
    rw [hc'] at hok
    cases hok
    have hnext' : i.next? (i.align t) = some next := by rw [htick, hnext]
    have hafter (u : Instant) (hu : i.align u = u) (hle : u ≤ stop) : next ≤ u ↔ t < u := by
      rw [h.next_le_iff hfirst hnext' hu (Int.le_trans hle hstop), htick]
    obtain ⟨done, visited, hscan, hdone, hvisited, hsorted, hmem⟩ := ih
      (h.align_next htick hfirst hnext) (h.first_le_next htick hfirst hnext) hshared
      (fun u hu hle => room u hu (Int.le_trans (Int.le_of_lt hlt) hle)) going
    refine ⟨done, t :: visited, hscan, hdone, ?_, ?_, fun u => ?_⟩
    · rw [hvisited, List.reverse_cons, List.append_assoc]
      rfl
    · refine List.pairwise_cons.mpr ⟨fun u hu => ?_, hsorted⟩
      obtain ⟨htick, hle, hbelow⟩ := (hmem u).mp hu
      exact (hafter u htick hbelow).mp hle
    · rw [List.mem_cons, hmem]
      constructor
      · rintro (rfl | ⟨hu, hle, hbelow⟩)
        · exact ⟨htick, Int.le_refl _, hbelow⟩
        · exact ⟨hu, Int.le_of_lt ((hafter u hu hbelow).mp hle), hbelow⟩
      · rintro ⟨hu, hle, hbelow⟩
        rcases Int.lt_or_eq_of_le hle with hlt | heq
        · exact .inr ⟨hu, (hafter u hu hbelow).mpr hlt, hbelow⟩
        · exact .inl (Instant.ext heq.symm)
  | case5 t c hle c' hc' hgoing next hnext hnlt =>
    obtain ⟨htick, hbelow⟩ := tick_of_le_align h hstop tick (hlast ▸ hle)
    exact absurd (h.lt_next htick hfirst (Int.le_trans hbelow hstop) hnext) hnlt
  | case6 t c hgt =>
    refine ⟨c, [], rfl, going, rfl, List.Pairwise.nil, fun u => ?_⟩
    refine ⟨fun hu => (List.not_mem_nil hu).elim, ?_⟩
    rintro ⟨hu, hle, hbelow⟩
    have hlow : u ≤ last := hlast ▸ (h.le_align_iff hu).mpr hbelow
    exact absurd (Int.le_trans hle hlow) hgt

theorem nativeInterval_eq_some_iff {s : Test} : s.nativeInterval = .ok (some i) ↔
    s.root.boundIntervals ≠ [] ∧ ∀ j ∈ s.root.boundIntervals, j = i := by
  change sharedInterval s.id s.root.boundIntervals = _ ↔ _
  cases s.root.boundIntervals with
  | nil => simp [sharedInterval]
  | cons j rest =>
    cases hfind : rest.find? (· ≠ j) with
    | none =>
      have hsame : ∀ k ∈ rest, k = j := by simpa using hfind
      simp only [sharedInterval, hfind, Except.ok.injEq, Option.some.injEq, ne_eq, reduceCtorEq,
        not_false_eq_true, true_and, List.forall_mem_cons]
      exact ⟨fun hj => ⟨hj, fun k hk => (hsame k hk).trans hj⟩, fun h => h.1⟩
    | some other =>
      have hother : other ≠ j := by simpa using List.find?_some hfind
      simp only [sharedInterval, hfind, reduceCtorEq, false_iff, not_and]
      intro _ hsame
      have hj := hsame j List.mem_cons_self
      exact hother ((hsame other (List.mem_cons_of_mem j (List.mem_of_find?_eq_some hfind))).trans
        hj.symm)

theorem nativeInterval_eq_none_iff {s : Test} :
    s.nativeInterval = .ok none ↔ s.root.boundIntervals = [] := by
  change sharedInterval s.id s.root.boundIntervals = _ ↔ _
  cases s.root.boundIntervals with
  | nil => simp [sharedInterval]
  | cons j rest =>
    simp only [sharedInterval]
    split <;> simp

section Exact

variable {s : Test} {source : Source} {flag : CancelReadings} {anchor start : Instant}
  {root : Tree} {resolved : List Bool}

/-- A pass visits the ticks within the bounds of its scan. -/
theorem pass_visits (h : i.Ticks g) (down : ∀ n, flag n = false)
    (window : s.window.back? anchor = some start)
    (resolve : s.root.resolve? source start anchor = some (root, resolved))
    (bound : root.boundIntervals ≠ []) (shared : ∀ j ∈ root.boundIntervals, j = i)
    (hfirst : Instant.first ≤ (s.scanBounds start anchor).1)
    (hlast : (s.scanBounds start anchor).2 ≤ Instant.last)
    (room : i.StaysWithin (s.scanBounds start anchor)) :
    ∃ p report, s.pass source flag anchor = .ok p ∧ p.result = .ok report ∧
      p.visited.Pairwise (· < ·) ∧ ∀ u, u ∈ p.visited ↔
        i.align u = u ∧ (s.scanBounds start anchor).1 ≤ u ∧ u ≤ (s.scanBounds start anchor).2 := by
  generalize hbounds : s.scanBounds start anchor = bounds at hfirst hlast room ⊢
  obtain ⟨first, hslot⟩ : ∃ first, firstSlot? i bounds.1 = some first := by
    unfold firstSlot?
    dsimp only
    split
    · next hlt => exact Option.isSome_iff_exists.mp (room.first hlt)
    · exact ⟨_, rfl⟩
  obtain ⟨tick, hlow, hiff⟩ := firstSlot?_bounds h hfirst hslot
  obtain ⟨done, visited, hscan, hdone, hvisited, hsorted, hmem⟩ :=
    scan_visits h down hlast (c := { test := s.bound root }) tick hlow shared
      (fun u hu hle hbelow =>
        room.later u hu ((hiff u hu (Int.le_trans hbelow hlast)).mp hle) hbelow) rfl
  have hnative : (s.bound root).nativeInterval = .ok (some i) :=
    nativeInterval_eq_some_iff.mpr ⟨bound, shared⟩
  have hbetween : (s.bound root).scanBetween flag anchor bounds (some i) = .ok done := by
    simp only [scanBetween, hslot, orFault]
    exact hscan
  have hpass := pass_eq_ok window resolve hnative (hbounds ▸ hbetween) hdone
  refine ⟨_, _, hpass, rfl, ?_, fun u => ?_⟩
  · rw [hvisited, List.append_nil, List.reverse_reverse]
    exact hsorted
  · rw [hvisited, List.append_nil, List.reverse_reverse, hmem]
    constructor
    · rintro ⟨hu, hle, hbelow⟩
      exact ⟨hu, (hiff u hu (Int.le_trans hbelow hlast)).mp hle, hbelow⟩
    · rintro ⟨hu, hle, hbelow⟩
      exact ⟨hu, (hiff u hu (Int.le_trans hbelow hlast)).mpr hle, hbelow⟩

/-- A pass evaluates the tree exactly at the instants of the window and the season that are on the
grid of the series, each once and in order. -/
theorem pass_exact (regular : i.IsRegular) (range : anchor.InRange) (down : ∀ n, flag n = false)
    (season : ∀ season, s.season = some season → season.start.hasTime = false)
    (window : s.window.back? anchor = some start)
    (resolve : s.root.resolve? source start anchor = some (root, resolved))
    (bound : root.boundIntervals ≠ []) (shared : ∀ j ∈ root.boundIntervals, j = i)
    (room : i.StaysWithin (s.scanBounds start anchor)) :
    ∃ p report, s.pass source flag anchor = .ok p ∧ p.result = .ok report ∧
      s.Evaluates root p report ∧ p.visited.Pairwise (· < ·) ∧
      ∀ u, u ∈ p.visited ↔ i.align u = u ∧ start ≤ u ∧ u ≤ anchor ∧
        ∀ first last, s.seasonBounds? anchor = some (first, last) → first ≤ u ∧ u ≤ last := by
  obtain ⟨g, h⟩ := regular.ticks
  have hstart : Instant.first ≤ start := Interval.first_le_add? range.1 window
  obtain ⟨p, report, hpass, hreport, hsorted, hmem⟩ := pass_visits h down window resolve bound shared
    (first_le_scanBounds hstart) (Int.le_trans scanBounds_le_anchor range.2) room
  have hevaluates : s.Evaluates root p report := by
    obtain ⟨start', root', resolved', hstart', hroot', hevaluates⟩ := evaluates_of_ok hpass hreport
    cases window.symm.trans hstart'
    cases resolve.symm.trans hroot'
    exact hevaluates
  refine ⟨p, report, hpass, hreport, hevaluates, hsorted, fun u => ?_⟩
  rw [hmem, scanBounds_iff season]

end Exact

/-- A test of one series over three hours, in winter. -/
def winter : Test where
  id := "level"
  name := "Level"
  root := .ofOperator .greaterThan (.leaf { kind := .getValue, inputs := ["level"], bound := [none] })
    (.leaf (.ofConstant 50)) none
  schedule := { base := { format := "HH", hour := some 0 }, interval := .oneDay }
  window := { base := .hour, multiplier := 3 }
  season := some {
    start := { format := "MM-dd", month := some 10, day := some 1 }
    finish := { format := "MM-dd", month := some 4, day := some 1 } }

/-- At half past one on the first day of winter, one sample of an hourly series is too high. -/
theorem pass_exact_winter :
    let hourly : Interval := { base := .hour, multiplier := 1 }
    let level : Series := {
      identifier := "level"
      interval := hourly
      samples := [(.ofDate ⟨2005, 10, 1⟩ 0, 10), (.ofDate ⟨2005, 10, 1⟩ 3600, 75)] }
    let source := Source.ofSeries [level] [] false
    let start := Instant.ofDate ⟨2005, 9, 30⟩ 81000
    let anchor := Instant.ofDate ⟨2005, 10, 1⟩ 5400
    winter.window.back? anchor = some start ∧ ∃ root resolved,
      winter.root.resolve? source start anchor = some (root, resolved) ∧
      ∃ p report, winter.pass source (fun _ => false) anchor = .ok p ∧ p.result = .ok report ∧
        winter.Evaluates root p report ∧ p.visited.Pairwise (· < ·) ∧
        ∀ u, u ∈ p.visited ↔ hourly.align u = u ∧ start ≤ u ∧ u ≤ anchor ∧ ∀ first last,
          winter.seasonBounds? anchor = some (first, last) → first ≤ u ∧ u ≤ last := by
  intro hourly level source start anchor
  have regular : hourly.IsRegular := .inl rfl
  obtain ⟨g, hticks⟩ := regular.ticks
  have window : winter.window.back? anchor = some start := by decide +kernel
  have hfirst : Instant.first ≤ (winter.scanBounds start anchor).1 := by decide +kernel
  have hle : (winter.scanBounds start anchor).1 ≤ (winter.scanBounds start anchor).2 := by
    decide +kernel
  have room : hourly.StaysWithin (winter.scanBounds start anchor) :=
    .of_last hticks hfirst hle (by decide +kernel)
  have season : ∀ season, winter.season = some season → season.start.hasTime = false := by
    intro season hseason
    cases hseason
    rfl
  exact ⟨window, _, _, rfl, pass_exact regular (by decide +kernel) (fun _ => rfl) season window rfl
    (by decide) (by decide) room⟩

end Test
end SeriesAlarm
