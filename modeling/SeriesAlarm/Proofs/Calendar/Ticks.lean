import Mathlib.Order.Monotone.Basic
import SeriesAlarm.Calendar.Interval
import SeriesAlarm.Proofs.Calendar.Date

/-!
# The ticks of an interval

The instants on the grid of a regular interval are the values of an increasing function on the whole
numbers. Aligning an instant finds the last tick up to it, and one interval after a tick comes the
next one, unless that lies beyond the calendar.
-/

namespace SeriesAlarm

namespace Interval

/-- Aligning to the interval is a floor on one grid without gaps or jumps. -/
def IsRegular (i : Interval) : Prop :=
  i.multiplier = 1 ∨ ((i.base = .second ∨ i.base = .minute) ∧ i.multiplier ∣ 60) ∨
    (i.base = .hour ∧ i.multiplier ∣ 24)

instance (i : Interval) : Decidable i.IsRegular := inferInstanceAs (Decidable (_ ∨ _))

/-- The values of `g` are the ticks of the interval, in nanoseconds. -/
structure Ticks (i : Interval) (g : Int → Int) : Prop where
  lt_succ : ∀ k, g k < g (k + 1)
  align : ∀ t, ∃ k, (i.align t).nanos = g k ∧ g k ≤ t.nanos ∧ t.nanos < g (k + 1)
  next : ∀ k v, Instant.first.nanos ≤ g k → i.next? ⟨g k⟩ = some v →
    v.nanos = g (k + 1) ∨
      (v = Instant.last ∧ (∀ j, g j ≠ Instant.last.nanos) ∧ Instant.last.nanos < g (k + 1))
  first : ∃ k, g k = Instant.first.nanos

namespace Ticks

variable {i : Interval} {g : Int → Int}

theorem lt_iff (h : i.Ticks g) {j k : Int} : g j < g k ↔ j < k :=
  (strictMono_int_of_lt_succ h.lt_succ).lt_iff_lt

theorem le_iff (h : i.Ticks g) {j k : Int} : g j ≤ g k ↔ j ≤ k :=
  (strictMono_int_of_lt_succ h.lt_succ).le_iff_le

theorem eq_of_bounds (h : i.Ticks g) {j k n : Int} (hj : g j ≤ n) (hj' : n < g (j + 1))
    (hk : g k ≤ n) (hk' : n < g (k + 1)) : j = k := by
  have hjk : j < k + 1 := h.lt_iff.mp (hj.trans_lt hk')
  have hkj : k < j + 1 := h.lt_iff.mp (hk.trans_lt hj')
  omega

theorem align_le (h : i.Ticks g) (t : Instant) : i.align t ≤ t := by
  obtain ⟨k, hk, hle, -⟩ := h.align t
  rw [Instant.le_def, hk]
  exact hle

theorem align_tick (h : i.Ticks g) {t : Instant} {k : Int} (ht : t.nanos = g k) :
    i.align t = t := by
  obtain ⟨j, hj, hle, hlt⟩ := h.align t
  have hjk : j = k := h.eq_of_bounds hle hlt ht.ge (ht ▸ h.lt_succ k)
  apply Instant.ext
  rw [hj, hjk, ht]

theorem align_eq_iff (h : i.Ticks g) {t : Instant} : i.align t = t ↔ ∃ k, t.nanos = g k := by
  constructor
  · intro ht
    obtain ⟨k, hk, -⟩ := h.align t
    exact ⟨k, by rw [← hk, ht]⟩
  · rintro ⟨k, hk⟩
    exact h.align_tick hk

theorem align_align (h : i.Ticks g) (t : Instant) : i.align (i.align t) = i.align t := by
  obtain ⟨k, hk, -⟩ := h.align t
  exact h.align_tick hk

theorem le_align_iff (h : i.Ticks g) {t u : Instant} (hu : i.align u = u) :
    u ≤ i.align t ↔ u ≤ t := by
  refine ⟨fun hle => Int.le_trans hle (h.align_le t), fun hle => ?_⟩
  obtain ⟨k, hk, -, hlt⟩ := h.align t
  obtain ⟨j, hj⟩ := h.align_eq_iff.mp hu
  rw [Instant.le_def] at hle ⊢
  have hjk : j < k + 1 := h.lt_iff.mp (hj ▸ hle.trans_lt hlt)
  rw [hk, hj]
  exact h.le_iff.mpr (by omega)

theorem first_le_align (h : i.Ticks g) {t : Instant} (ht : Instant.first ≤ t) :
    Instant.first ≤ i.align t := by
  obtain ⟨k, hk⟩ := h.first
  have hfirst : i.align Instant.first = Instant.first := h.align_tick hk.symm
  exact (h.le_align_iff hfirst).mpr ht

section Next

variable {t v : Instant}

/-- One interval after a tick comes a tick, or the end of the calendar. -/
theorem align_next (h : i.Ticks g) (ht : i.align t = t) (hfirst : Instant.first ≤ t)
    (hv : i.next? t = some v) : i.align v = v ∨ v = Instant.last := by
  obtain ⟨k, hk⟩ := h.align_eq_iff.mp ht
  have heq : t = ⟨g k⟩ := Instant.ext hk
  subst heq
  rcases h.next k v hfirst hv with hnext | ⟨hlast, -⟩
  · exact .inl (h.align_tick hnext)
  · exact .inr hlast

theorem lt_next (h : i.Ticks g) (ht : i.align t = t) (hfirst : Instant.first ≤ t)
    (hlast : t ≤ Instant.last) (hv : i.next? t = some v) : t < v := by
  obtain ⟨k, hk⟩ := h.align_eq_iff.mp ht
  have heq : t = ⟨g k⟩ := Instant.ext hk
  subst heq
  rcases h.next k v hfirst hv with hnext | ⟨rfl, hne, -⟩
  · rw [Instant.lt_def, hnext]
    exact h.lt_succ k
  · exact lt_of_le_of_ne hlast (hne k)

theorem first_le_next (h : i.Ticks g) (ht : i.align t = t) (hfirst : Instant.first ≤ t)
    (hv : i.next? t = some v) : Instant.first ≤ v := by
  obtain ⟨k, hk⟩ := h.align_eq_iff.mp ht
  have heq : t = ⟨g k⟩ := Instant.ext hk
  subst heq
  rcases h.next k v hfirst hv with hnext | ⟨rfl, -⟩
  · rw [Instant.le_def, hnext]
    exact le_trans hfirst (h.lt_succ k).le
  · decide

/-- No tick lies between a tick and what comes one interval later, and none is passed over. -/
theorem next_le_iff (h : i.Ticks g) {s u : Instant} (hs : Instant.first ≤ s)
    (hv : i.next? (i.align s) = some v) (hu : i.align u = u) (hlast : u ≤ Instant.last) :
    v ≤ u ↔ i.align s < u := by
  obtain ⟨k, hk, hle, hlt⟩ := h.align s
  obtain ⟨j, hj⟩ := h.align_eq_iff.mp hu
  have hfirst := h.first_le_align hs
  have heq : i.align s = ⟨g k⟩ := Instant.ext hk
  rw [heq] at hv hfirst
  rw [Instant.le_def, Instant.lt_def, hk, hj, h.lt_iff]
  rw [Instant.le_def, hj] at hlast
  rcases h.next k v hfirst hv with hnext | ⟨rfl, hne, hbeyond⟩
  · rw [hnext, h.le_iff]
    omega
  · have hjk : j < k + 1 := h.lt_iff.mp (hlast.trans_lt hbeyond)
    constructor
    · intro hle
      exact absurd (le_antisymm hlast hle) (hne j)
    · intro hkj
      omega

end Next

end Ticks

end Interval
end SeriesAlarm
