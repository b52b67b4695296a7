import SeriesAlarm.Proofs.Rule.Ending

/-!
# The rounds of a scan

The loop of a scan evaluates the tree and adds the interval, round after round, and never asks whether
the addition led on. `Test.scanFor` is that loop, cut off after a number of rounds. It is over after as
many rounds as there are seconds to scan, unless the months of the interval vanish: counted modulo a
word, those of `2 ^ 30` years are none, and the loop stays at its first slot for ever.
-/

namespace SeriesAlarm

namespace Interval

variable {i : Interval} {t v : Instant}

/-- The months vanish for three of all the intervals that can be written. -/
theorem moves_iff : i.Moves ↔ ¬ (i.base = .year ∧ wordSize 30 ∣ i.multiplier) := by
  have hmonth : ¬ wordSize 32 ∣ i.multiplier :=
    Nat.not_dvd_of_pos_of_lt i.multiplier_pos i.multiplier_lt
  have hyear : wordSize 32 ∣ 12 * i.multiplier ↔ wordSize 30 ∣ i.multiplier := by
    have hword : wordSize 32 = 4 * wordSize 30 := by decide
    have hodd : Nat.Coprime (wordSize 30) 3 := Nat.Coprime.pow_left 30 (by decide)
    have hmonths : 12 * i.multiplier = 4 * (3 * i.multiplier) := by omega
    rw [hword, hmonths, Nat.mul_dvd_mul_iff_left (by decide)]
    exact ⟨Nat.Coprime.dvd_of_dvd_mul_left hodd, fun h => Nat.dvd_mul_left_of_dvd h 3⟩
  cases hu : i.base <;> simp [Moves, IsFixed, months, hu, hmonth, hyear]

theorem next?_of_not_moves (h : ¬ i.Moves) (t : Instant) : i.next? t = some t := by
  obtain ⟨hfixed, hmonths⟩ : ¬ i.IsFixed ∧ wordSize 32 ∣ i.months := by simpa [Moves] using h
  rw [next?, add?_of_not_isFixed hfixed t (.inl rfl), mul_one]
  simp [shiftMonthsSaturating, Nat.mod_eq_zero_of_dvd hmonths]

def LeadsOn (i : Interval) : Prop :=
  ∀ t next, Instant.first ≤ t → t < Instant.last → i.next? t = some next → t < next

theorem leadsOn_iff : i.LeadsOn ↔ i.Moves := by
  constructor
  · intro h
    by_contra hstill
    have hstep := next?_of_not_moves hstill .first
    exact Int.lt_irrefl _ (h .first .first (Int.le_refl _) (by decide) hstep)
  · intro h t next _ hlast hnext
    exact (lt_next?_iff hlast hnext).mpr h

theorem LeadsOn.second_le (h : i.LeadsOn) (hfirst : Instant.first ≤ t) (hlast : t < Instant.last)
    (whole : t.IsWhole) (hv : i.next? t = some v) :
    (v.IsWhole ∧ t.nanos + nanosPerSecond ≤ v.nanos) ∨ v = Instant.last := by
  have hlt := h t v hfirst hlast hv
  refine (isWhole_next? whole hv).imp_left fun hwhole => ⟨hwhole, ?_⟩
  unfold Instant.IsWhole nanosPerSecond at *
  rw [Instant.lt_def] at hlt
  omega

end Interval

namespace Test

variable {flag : CancelReadings} {i : Interval} {last t : Instant} {c : Scan} {n : Nat}

/-- The loop of a scan, without a look at whether the interval leads on, and cut off after `n` rounds:
nothing, if it is not over by then. -/
def scanFor (flag : CancelReadings) (i : Interval) (last : Instant) :
    Nat → Instant → Scan → Option (Except Fault Scan)
  | 0, _, _ => none
  | n + 1, t, c =>
    if t ≤ last then
      match c.step flag t with
      | .error e => some (.error e)
      | .ok c' =>
        if c'.cancelled then some (.ok c')
        else
          match i.next? t with
          | none => some (.error .outOfCalendar)
          | some next => scanFor flag i last n next c'
    else some (.ok c)

/-- One round for each second from `t` to `last`, and one to find that the loop is over. -/
def roundsUpTo (last t : Instant) : Nat := ((last.nanos - t.nanos) / nanosPerSecond + 1).toNat + 1

theorem roundsUpTo_lt {next : Instant} (hle : t ≤ last)
    (hstep : t.nanos + nanosPerSecond ≤ next.nanos ∨ last < next) :
    roundsUpTo last next < roundsUpTo last t := by
  rw [Instant.le_def] at hle
  rw [Instant.lt_def] at hstep
  unfold roundsUpTo nanosPerSecond at *
  omega

theorem Scan.step_error {e : Fault} (h : c.step flag t = .error e) : e = .outOfCalendar := by
  rw [Scan.step] at h
  by_cases hup : flag c.reads
  · simp [hup] at h
  · cases hrun : c.test.run? t <;>
      simp_all [orFault, bind, Except.bind, pure, Except.pure]

/-- While the interval leads on, the loop is the scan and is over in time. -/
theorem scanFor_eq_scan (leads : i.LeadsOn) (hend : last < Instant.last) (hfirst : Instant.first ≤ t)
    (whole : t.IsWhole ∨ t = Instant.last) (hn : roundsUpTo last t ≤ n) :
    scanFor flag i last n t c = some (scan flag i last t c) ∧
      scan flag i last t c ≠ .error .endlessScan := by
  induction n generalizing t c with
  | zero => simp [roundsUpTo] at hn
  | succ n ih =>
    rw [scan, scanFor]
    by_cases hle : t ≤ last
    · have hlast : t < Instant.last := Int.lt_of_le_of_lt hle hend
      have hwhole : t.IsWhole := whole.resolve_right fun heq => Int.lt_irrefl _ (heq ▸ hlast)
      simp only [hle, if_true]
      cases hstep : c.step flag t with
      | error e =>
        cases Scan.step_error hstep
        simp
      | ok c' =>
        by_cases hcancelled : c'.cancelled
        · simp [hcancelled]
        cases hnext : i.next? t with
        | none => simp [hcancelled]
        | some next =>
          have hlt := leads t next hfirst hlast hnext
          have hsecond := leads.second_le hfirst hlast hwhole hnext
          have hfewer : roundsUpTo last next < roundsUpTo last t :=
            roundsUpTo_lt hle (hsecond.imp And.right fun heq => by rw [heq]; exact hend)
          simp only [hcancelled, hlt, if_true, Bool.false_eq_true, if_false]
          exact ih (Interval.first_le_add? hfirst hnext) (hsecond.imp_left And.left) (by omega)
    · simp [hle]

/-- Where the months vanish, no number of rounds is enough. -/
theorem scanFor_of_not_moves (still : ¬ i.Moves) (hle : t ≤ last)
    (shared : ∀ j ∈ c.test.root.boundIntervals, j = i) (going : c.cancelled = false) (n : Nat) :
    scanFor .down i last n t c = none := by
  have down : ∀ n, CancelReadings.down n = false := fun _ => rfl
  have hnext := Interval.next?_of_not_moves still t
  induction n generalizing c with
  | zero => rfl
  | succ n ih =>
    obtain ⟨test, hstep, hshared⟩ := Scan.step_shared down shared (by rw [hnext]; rfl)
    simp only [scanFor, hle, if_true, hstep, going, hnext, Bool.false_eq_true, if_false]
    exact ih hshared rfl

theorem isWhole_firstSlot? {start : Instant} (hstart : Instant.first ≤ start)
    (h : firstSlot? i start = some t) :
    Instant.first ≤ t ∧ (t.IsWhole ∨ t = Instant.last) := by
  have hfirst := i.first_le_align hstart
  have hwhole := i.isWhole_align start
  unfold firstSlot? at h
  by_cases hlt : i.align start < start
  · simp only [hlt, if_true] at h
    exact ⟨Interval.first_le_add? hfirst h, Interval.isWhole_next? hwhole h⟩
  · simp only [hlt, if_false, Option.some.injEq] at h
    exact h ▸ ⟨hfirst, .inl hwhole⟩

theorem align_lt_last {u : Instant} (h : u ≤ Instant.last) : i.align u < Instant.last := by
  refine lt_of_le_of_ne (Int.le_trans (i.align_le u) h) fun heq => Instant.not_isWhole_last ?_
  rw [← Instant.ext heq]
  exact i.isWhole_align u

def winterOver (i : Interval) : Test :=
  winter.bound (.ofOperator .greaterThan
    (.leaf {
      kind := .getValue, inputs := ["level"]
      bound := [some { identifier := "level", interval := i }] })
    (.leaf (.ofConstant 50)) none)

theorem boundIntervals_winterOver (i : Interval) : (winterOver i).root.boundIntervals = [i] := rfl

theorem scanFor_winterOver (still : ¬ i.Moves) (t : Instant) (n : Nat) :
    scanFor .down i t n t { test := winterOver i } = none :=
  scanFor_of_not_moves still (Int.le_refl _) (by simp [boundIntervals_winterOver]) rfl n

/-- The loop of every scan ends, and in time, exactly if each addition leads on, which it does unless
the interval is a multiple of `2 ^ 30` years. -/
theorem scan_ends_tfae (i : Interval) : List.TFAE
    [i.LeadsOn,
      ∀ flag (bounds : Instant × Instant) t c, Instant.first ≤ bounds.1 → bounds.2 ≤ Instant.last →
        firstSlot? i bounds.1 = some t →
        scanFor flag i (i.align bounds.2) (roundsUpTo (i.align bounds.2) t) t c =
            some (scan flag i (i.align bounds.2) t c) ∧
          scan flag i (i.align bounds.2) t c ≠ .error .endlessScan,
      ∀ flag (bounds : Instant × Instant) t c, Instant.first ≤ bounds.1 → bounds.2 ≤ Instant.last →
        firstSlot? i bounds.1 = some t → ∃ n, (scanFor flag i (i.align bounds.2) n t c).isSome,
      ¬ (i.base = .year ∧ wordSize 30 ∣ i.multiplier)] := by
  tfae_have 1 → 2 := by
    intro leads flag bounds t c hfirst hlast hslot
    obtain ⟨hlow, whole⟩ := isWhole_firstSlot? hfirst hslot
    exact scanFor_eq_scan leads (align_lt_last hlast) hlow whole (Nat.le_refl _)
  tfae_have 2 → 3 := by
    intro h flag bounds t c hfirst hlast hslot
    exact ⟨_, by rw [(h flag bounds t c hfirst hlast hslot).1, Option.isSome_some]⟩
  tfae_have 3 → 4 := by
    rintro h ⟨hyear, hdvd⟩
    have still : ¬ i.Moves := fun hmoves => Interval.moves_iff.mp hmoves ⟨hyear, hdvd⟩
    let newYear := Instant.ofDate ⟨2006, 1, 1⟩ 0
    have haligned : i.align newYear = newYear := by
      simp only [Interval.align, hyear, TimeUnit.clockField, Nat.zero_mod]
      decide +kernel
    have hslot : firstSlot? i newYear = some newYear := by
      simp [firstSlot?, haligned, Instant.lt_def]
    obtain ⟨n, hn⟩ := h .down (newYear, newYear) newYear { test := winterOver i }
      (by decide +kernel) (by decide +kernel) hslot
    rw [haligned, scanFor_winterOver still] at hn
    cases hn
  tfae_have 4 → 1 := fun h => Interval.leadsOn_iff.mpr (Interval.moves_iff.mpr h)
  tfae_finish

/-- Over a series of `2 ^ 30` years the loop stays at its first slot. -/
theorem scanFor_billionYears :
    let newYear := Instant.ofDate ⟨2006, 1, 1⟩ 0
    ∃ i, Interval.parse "1073741824y" = .ok i ∧ i.next? newYear = some newYear ∧
      (winterOver i).nativeInterval = .ok (some i) ∧ i.align newYear = newYear ∧
      ∀ n, scanFor .down i newYear n newYear { test := winterOver i } = none := by
  intro newYear
  let i : Interval := { base := .year, multiplier := 1073741824 }
  have still : ¬ i.Moves := fun hmoves => Interval.moves_iff.mp hmoves ⟨rfl, by decide⟩
  exact ⟨i, by decide +kernel, Interval.next?_of_not_moves still newYear, by decide +kernel,
    by decide +kernel, scanFor_winterOver still newYear⟩

end Test
end SeriesAlarm
