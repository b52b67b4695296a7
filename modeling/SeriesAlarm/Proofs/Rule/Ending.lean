import SeriesAlarm.Proofs.Calendar.Room
import SeriesAlarm.Proofs.Rule.Idle
import SeriesAlarm.Proofs.Rule.Uninterrupted
import SeriesAlarm.Proofs.Rule.Window

/-!
# Passes that come to an end

A pass comes to an end exactly if the window fits before the anchor, and at every slot the interval of
the series fits ahead and leads on. Raising the cancel flag makes a pass shorter, never longer.
-/

namespace SeriesAlarm

/-- The source can be asked for every window that does not end before it begins. -/
def Source.Answers (source : Source) : Prop :=
  ∀ id first last, first ≤ last → source.resolve id first last ≠ .fault

theorem Source.answers_ofSeries (all : List Series) (hang : List String) (unlistable : Bool) :
    (ofSeries all hang unlistable).Answers := by
  intro id first last hle
  simp only [ofSeries, Series.window?, hle, or_true, if_true]
  split
  · exact fun h => by cases h
  · split <;> exact fun h => by cases h

namespace Interval

theorem first_le_align (i : Interval) {t : Instant} (ht : Instant.first ≤ t) :
    Instant.first ≤ i.align t := by
  have htruncate : Instant.first ≤ t.truncate i.base := by
    have hregular : IsRegular { base := i.base, multiplier := 1 } := .inl rfl
    obtain ⟨g, hticks⟩ := hregular.ticks
    rw [← align_one]
    exact hticks.first_le_align ht
  have hday := Instant.first_le_truncate_day htruncate
  generalize hu : t.truncate i.base = u at hday
  have hfield : i.base.clockField u * i.base.nominalSeconds ≤ u.secondOfDay := by
    cases i.base <;>
      simp only [TimeUnit.clockField, TimeUnit.nominalSeconds, Instant.hour, Instant.minute,
        Instant.second] <;> omega
  have hoffset : i.base.clockField u % i.multiplier * i.base.nominalSeconds ≤ u.secondOfDay :=
    (Nat.mul_le_mul_right _ (Nat.mod_le _ _)).trans hfield
  have hcast : ((i.base.clockField u % i.multiplier : Nat) : Int) * i.base.nominalSeconds ≤
      u.nanos % nanosPerDay / nanosPerSecond := by
    have hseconds : (u.secondOfDay : Int) = u.nanos % nanosPerDay / nanosPerSecond := by
      simp only [Instant.secondOfDay, nanosPerDay, nanosPerSecond]
      omega
    rw [← hseconds]
    exact_mod_cast hoffset
  rw [Instant.le_def, Instant.truncate_day] at hday
  rw [Instant.le_def, align, hu]
  dsimp only
  unfold nanosPerDay nanosPerSecond at *
  omega

/-- A scan of the bounds stays in the calendar and leads on. -/
structure Ends (i : Interval) (anchor : Instant) (bounds : Instant × Instant) : Prop where
  first : i.align bounds.1 < bounds.1 → i.FitsBetween (i.align bounds.1) .last
  later : ∀ u, Test.IsSlot anchor bounds (some i) u → i.FitsBetween u .last ∧ i.Moves

theorem IsModest.ends {i : Interval} (h : i.IsModest) (moves : i.Moves) {anchor : Instant}
    (era : anchor.InEra) {bounds : Instant × Instant} (hlow : bounds.1 ≤ anchor)
    (hhigh : bounds.2 ≤ anchor) : i.Ends anchor bounds := by
  refine ⟨fun _ => h.fitsAhead era (Int.le_trans (i.align_le _) hlow), ?_⟩
  rintro u ⟨slot, -, -, hbelow⟩
  exact ⟨h.fitsAhead era (Int.le_trans hbelow (Int.le_trans (i.align_le _) hhigh)), moves⟩

end Interval

namespace Test

variable {i : Interval} {flag : CancelReadings}

/-- From its first slot on, a scan comes to an end if at every slot the interval fits ahead and leads
on. -/
theorem scan_ends_iff {last t : Instant} {c : Scan} (hlow : Instant.first ≤ t)
    (hhigh : last < Instant.last) (shared : ∀ j ∈ c.test.root.boundIntervals, j = i)
    (going : c.cancelled = false) :
    (∃ done, scan .down i last t c = .ok done) ↔
      ∀ u, i.Follows t u → u ≤ last → i.FitsBetween u .last ∧ i.Moves := by
  have down : ∀ n, CancelReadings.down n = false := fun _ => rfl
  fun_induction scan .down i last t c with
  | case1 t c hle e he =>
    refine iff_of_false (by rintro ⟨done, h⟩; cases h) fun h => ?_
    have hsome := (Interval.isSome_next?_iff hlow).mpr (h t (.refl t) hle).1
    obtain ⟨test, hok, -⟩ := Scan.step_shared down shared hsome
    rw [he] at hok
    cases hok
  | case2 t c hle c' hc' hcancelled =>
    rw [Scan.cancelled_step_down hc', going] at hcancelled
    cases hcancelled
  | case3 t c hle c' hc' hgoing hnone =>
    refine iff_of_false (by rintro ⟨done, h⟩; cases h) fun h => ?_
    have hsome := (Interval.isSome_next?_iff hlow).mpr (h t (.refl t) hle).1
    rw [hnone] at hsome
    cases hsome
  | case4 t c hle c' hc' hgoing next hnext hlt ih =>
    have hsome : (i.next? t).isSome := by rw [hnext]; rfl
    have hend : t < Instant.last := Int.lt_of_le_of_lt hle hhigh
    obtain ⟨test, hok, hshared⟩ := Scan.step_shared down shared hsome
    rw [hc'] at hok
    cases hok
    refine Iff.trans (ih (Interval.first_le_add? hlow hnext) hshared going) ?_
    constructor
    · intro h u hu hbelow
      cases hu with
      | refl =>
        exact ⟨(Interval.isSome_next?_iff hlow).mp hsome,
          (Interval.lt_next?_iff hend hnext).mp hlt⟩
      | step hnext' _ hfollows =>
        cases hnext.symm.trans hnext'
        exact h u hfollows hbelow
    · exact fun h u hu => h u (.step hnext hlt hu)
  | case5 t c hle c' hc' hgoing next hnext hnlt =>
    refine iff_of_false (by rintro ⟨done, h⟩; cases h) fun h => hnlt ?_
    have hend : t < Instant.last := Int.lt_of_le_of_lt hle hhigh
    exact (Interval.lt_next?_iff hend hnext).mpr (h t (.refl t) hle).2
  | case6 t c hgt =>
    refine iff_of_true ⟨c, rfl⟩ fun u hu hle => ?_
    exact absurd (Int.le_trans hu.le hle) hgt

theorem scan_of_down {last t : Instant} {c done : Scan} (going : c.cancelled = false)
    (h : scan .down i last t c = .ok done) (flag : CancelReadings) :
    ∃ done', scan flag i last t c = .ok done' ∧ (done'.cancelled = false → done' = done) := by
  fun_induction scan .down i last t c with
  | case1 => cases h
  | case2 t c hle c' hc' hcancelled =>
    rw [Scan.cancelled_step_down hc', going] at hcancelled
    cases hcancelled
  | case3 => cases h
  | case4 t c hle c' hc' hgoing next hnext hlt ih =>
    unfold scan
    rw [if_pos hle]
    cases hflag : flag c.reads with
    | true =>
      rw [Scan.step_of_up hflag]
      exact ⟨_, rfl, fun hdown => by cases hdown⟩
    | false =>
      have hstep : c.step flag t = .ok c' := by
        rw [← hc']
        unfold Scan.step
        rw [hflag]
        rfl
      rw [hstep]
      simp only [hnext, if_pos hlt, hgoing, Bool.false_eq_true, if_false]
      exact ih (by simpa using hgoing) h
  | case5 => cases h
  | case6 t c hgt =>
    cases h
    unfold scan
    rw [if_neg hgt]
    exact ⟨_, rfl, fun _ => rfl⟩

theorem isSome_firstSlot?_iff {start : Instant} (hstart : Instant.first ≤ start) :
    (firstSlot? i start).isSome ↔
      (i.align start < start → i.FitsBetween (i.align start) .last) := by
  rw [← Interval.isSome_next?_iff (i.first_le_align hstart)]
  unfold firstSlot?
  dsimp only
  split
  · next hlt => simp [hlt]
  · next hge => simp [hge]

theorem scanBetween_ends_iff {s : Test} {anchor : Instant} {bounds : Instant × Instant}
    {interval : Option Interval} (native : s.nativeInterval = .ok interval)
    (hlow : Instant.first ≤ bounds.1) (hhigh : bounds.2 < Instant.last) :
    (∃ done, s.scanBetween .down anchor bounds interval = .ok done) ↔
      ∀ i, interval = some i → i.Ends anchor bounds := by
  have down : ∀ n, CancelReadings.down n = false := fun _ => rfl
  cases interval with
  | none =>
    refine iff_of_true ?_ fun i h => by cases h
    have hempty := nativeInterval_eq_none_iff.mp native
    obtain ⟨root, hroot, -⟩ := Tree.exists_evaluate? (t := anchor) (e := s.root) (by simp [hempty])
    simp only [scanBetween]
    split
    · obtain ⟨test, hstep, -⟩ := Scan.step_down down (c := { test := s }) hroot
      exact ⟨_, hstep⟩
    · exact ⟨_, rfl⟩
  | some i =>
    have hshared := (nativeInterval_eq_some_iff.mp native).2
    have hstop : i.align bounds.2 < Instant.last := Int.lt_of_le_of_lt (i.align_le bounds.2) hhigh
    have hfirst (slot : Instant) (hslot : firstSlot? i bounds.1 = some slot) :
        Instant.first ≤ slot := by
      have haligned := i.first_le_align hlow
      unfold firstSlot? at hslot
      dsimp only at hslot
      split at hslot
      · exact Interval.first_le_add? haligned hslot
      · cases hslot
        exact haligned
    constructor
    · rintro ⟨done, hdone⟩ j hj
      cases hj
      obtain ⟨slot, hslot, hscan⟩ := bind_eq_ok.mp hdone
      have hslot := orFault_eq_ok.mp hslot
      refine ⟨(isSome_firstSlot?_iff hlow).mp (by rw [hslot]; rfl), ?_⟩
      rintro u ⟨slot', hslot', hfollows, hbelow⟩
      cases hslot.symm.trans hslot'
      exact (scan_ends_iff (hfirst slot hslot) hstop hshared rfl).mp ⟨done, hscan⟩ u hfollows hbelow
    · intro h
      obtain ⟨hends, hlater⟩ := h i rfl
      obtain ⟨slot, hslot⟩ := Option.isSome_iff_exists.mp ((isSome_firstSlot?_iff hlow).mpr hends)
      obtain ⟨done, hscan⟩ := (scan_ends_iff (c := { test := s }) (hfirst slot hslot) hstop hshared
        rfl).mpr fun u hfollows hbelow => hlater u ⟨slot, hslot, hfollows, hbelow⟩
      exact ⟨done, bind_eq_ok.mpr ⟨slot, orFault_eq_ok.mpr hslot, hscan⟩⟩

theorem scanBetween_of_down {s : Test} {anchor : Instant} {bounds : Instant × Instant}
    {interval : Option Interval} {done : Scan}
    (h : s.scanBetween .down anchor bounds interval = .ok done) (flag : CancelReadings) :
    ∃ done', s.scanBetween flag anchor bounds interval = .ok done' ∧
      (done'.cancelled = false → done' = done) := by
  cases interval with
  | some i =>
    obtain ⟨slot, hslot, hscan⟩ := bind_eq_ok.mp h
    obtain ⟨done', hscan', hsame⟩ := scan_of_down rfl hscan flag
    exact ⟨done', bind_eq_ok.mpr ⟨slot, hslot, hscan'⟩, hsame⟩
  | none =>
    simp only [scanBetween] at h ⊢
    split at h
    · next hin =>
      rw [if_pos hin]
      unfold Scan.step at h ⊢
      cases hflag : flag 0 with
      | true =>
        rw [if_pos rfl]
        exact ⟨_, rfl, fun hdown => by cases hdown⟩
      | false => exact ⟨done, h, fun _ => rfl⟩
    · next hout =>
      rw [if_neg hout]
      cases h
      refine ⟨_, rfl, fun hdown => ?_⟩
      dsimp only at hdown
      rw [hdown]
      rfl

def ScansBy (s : Test) (source : Source) (anchor : Instant) (i : Interval)
    (bounds : Instant × Instant) : Prop :=
  ∃ start root resolved, s.window.back? anchor = some start ∧
    s.root.resolve? source start anchor = some (root, resolved) ∧
    (s.bound root).nativeInterval = .ok (some i) ∧ bounds = s.scanBounds start anchor

theorem sweep_ends_iff {s : Test} {flag : CancelReadings} {anchor start : Instant}
    {resolved : List Bool} : (∃ p, s.sweep flag anchor start resolved = .ok p) ↔
      ∀ interval, s.nativeInterval = .ok interval →
        ∃ done, s.scanBetween flag anchor (s.scanBounds start anchor) interval = .ok done := by
  unfold sweep
  cases s.nativeInterval with
  | error e => exact iff_of_true ⟨_, rfl⟩ fun interval h => by cases h
  | ok interval =>
    constructor
    · rintro ⟨p, hp⟩ _ ⟨⟩
      obtain ⟨done, hdone, -⟩ := bind_eq_ok.mp hp
      exact ⟨done, hdone⟩
    · intro h
      obtain ⟨done, hdone⟩ := h interval rfl
      dsimp only
      rw [hdone]
      simp only [bind, Except.bind]
      split <;> exact ⟨_, rfl⟩

theorem sweep_of_down {s : Test} {anchor start : Instant} {resolved : List Bool} {p : Pass}
    (h : s.sweep .down anchor start resolved = .ok p) (flag : CancelReadings) :
    ∃ p', s.sweep flag anchor start resolved = .ok p' ∧
      (p'.result ≠ .error .cancelled → p' = p) := by
  unfold sweep at h ⊢
  cases hnative : s.nativeInterval with
  | error e =>
    rw [hnative] at h
    exact ⟨p, h, fun _ => rfl⟩
  | ok interval =>
    rw [hnative] at h
    obtain ⟨done, hdone, h⟩ := bind_eq_ok.mp h
    obtain ⟨done', hdone', hsame⟩ := scanBetween_of_down hdone flag
    dsimp only
    rw [hdone']
    simp only [bind, Except.bind]
    cases hcancelled : done'.cancelled with
    | true => exact ⟨_, rfl, fun hdown => absurd rfl hdown⟩
    | false =>
      have heq := hsame hcancelled
      subst heq
      rw [hcancelled] at h
      exact ⟨p, h, fun _ => rfl⟩

/-- A pass comes to an end if its window fits before the anchor and its scan comes to an end. -/
theorem pass_ends_iff {s : Test} {source : Source} {anchor : Instant} (answers : source.Answers)
    (hlow : Instant.first ≤ anchor) (hhigh : anchor < Instant.last) :
    (∃ p, s.pass source .down anchor = .ok p) ↔ s.window.FitsBetween .first anchor ∧
      ∀ i bounds, s.ScansBy source anchor i bounds → i.Ends anchor bounds := by
  rw [← Interval.isSome_back?_iff (Int.le_of_lt hhigh)]
  have hsweep {start : Instant} {root : Tree} {resolved : List Bool}
      (hstart : s.window.back? anchor = some start) :
      (∃ p, (s.bound root).sweep .down anchor start resolved = .ok p) ↔
        ∀ i, (s.bound root).nativeInterval = .ok (some i) →
          i.Ends anchor (s.scanBounds start anchor) := by
    have hbounds : Instant.first ≤ (s.scanBounds start anchor).1 ∧
        (s.scanBounds start anchor).2 < Instant.last :=
      ⟨first_le_scanBounds (Interval.first_le_add? hlow hstart),
        Int.lt_of_le_of_lt scanBounds_le_anchor hhigh⟩
    rw [sweep_ends_iff]
    constructor
    · intro h i hi
      exact (scanBetween_ends_iff hi hbounds.1 hbounds.2).mp (h _ hi) i rfl
    · intro h interval hi
      refine (scanBetween_ends_iff hi hbounds.1 hbounds.2).mpr fun i hsome => h i ?_
      rw [hi, hsome]
  constructor
  · rintro ⟨p, hp⟩
    rw [pass_eq] at hp
    obtain ⟨start, hstart, hp⟩ := bind_eq_ok.mp hp
    obtain ⟨⟨root, resolved⟩, hroot, hp⟩ := bind_eq_ok.mp hp
    have hstart := orFault_eq_ok.mp hstart
    have hroot := orFault_eq_ok.mp hroot
    refine ⟨by rw [hstart]; rfl, ?_⟩
    rintro i bounds ⟨start', root', resolved', hstart', hroot', hi, rfl⟩
    cases hstart.symm.trans hstart'
    cases hroot.symm.trans hroot'
    exact (hsweep hstart).mp ⟨p, hp⟩ i hi
  · rintro ⟨hwindow, hends⟩
    obtain ⟨start, hstart⟩ := Option.isSome_iff_exists.mp hwindow
    have hle : start ≤ anchor := Interval.back?_le hlow hstart
    obtain ⟨root, resolved, hroot⟩ := Tree.exists_resolve? (e := s.root) fun id _ =>
      answers id start anchor hle
    obtain ⟨p, hp⟩ := (@hsweep start root resolved hstart).mpr fun i hi =>
      hends i _ ⟨start, root, resolved, hstart, hroot, hi, rfl⟩
    refine ⟨p, ?_⟩
    rw [pass_eq]
    exact bind_eq_ok.mpr ⟨start, orFault_eq_ok.mpr hstart,
      bind_eq_ok.mpr ⟨(root, resolved), orFault_eq_ok.mpr hroot, hp⟩⟩

/-- Raising the flag ends a pass early, or changes nothing. -/
theorem pass_of_down {s : Test} {source : Source} {anchor : Instant} {p : Pass}
    (h : s.pass source .down anchor = .ok p) (flag : CancelReadings) :
    ∃ p', s.pass source flag anchor = .ok p' ∧ (p'.result ≠ .error .cancelled → p' = p) := by
  rw [pass_eq] at h ⊢
  obtain ⟨start, hstart, h⟩ := bind_eq_ok.mp h
  obtain ⟨x, hx, h⟩ := bind_eq_ok.mp h
  obtain ⟨p', hp', hsame⟩ := sweep_of_down h flag
  exact ⟨p', bind_eq_ok.mpr ⟨start, hstart, bind_eq_ok.mpr ⟨x, hx, hp'⟩⟩, hsame⟩

end Test
end SeriesAlarm
