import SeriesAlarm.Calendar.Pattern

/-!
# Schedules

When a test or an action runs again: a step of its interval, moved onto the phase of its base time.
-/

namespace SeriesAlarm

/-- The run after `now` for a step. The naive instant is realigned; if it does not lie after `now`,
one more step is taken. A slot of the current cycle that is still ahead wins when it is earlier. -/
def nextSlot? (base : TimePattern) (step : Interval) (now : Instant) : Option Instant := do
  let naive ← step.next? now
  let first ← base.realign? naive step
  let next ← if first ≤ now then (step.next? naive).bind (base.realign? · step) else some first
  let current ← base.realign? now step
  return if now < current ∧ current < next then current else next

/-- The timing of a test or an action, and the instant from which its next run is due. -/
structure Schedule where
  base : TimePattern
  interval : Interval
  positiveInterval : Option Interval := none
  nextRun : Option Instant := none
  deriving DecidableEq, Repr

namespace Schedule

/-- The interval that follows a run: the positive one after a positive run where there is one. -/
def step (s : Schedule) (positive : Bool) : Interval :=
  if positive then s.positiveInterval.getD s.interval else s.interval

def nextRunAfter? (s : Schedule) (now : Instant) (positive : Bool) : Option Instant :=
  nextSlot? s.base (s.step positive) now

/-- Before the first run the base time on the day of `t` is the gate. -/
def isDue? (s : Schedule) (t : Instant) : Option Bool :=
  match s.nextRun with
  | some next => some (next ≤ t)
  | none => (s.base.realign? t .oneDay).map (· ≤ t)

def advance? (s : Schedule) (now : Instant) (positive : Bool) : Option Schedule :=
  (s.nextRunAfter? now positive).map fun next => { s with nextRun := some next }

/-- The instants of `n` runs in a row, each taken at the instant the one before it named, up to the
first that leaves the calendar; and the schedule after the last of them. -/
def chain (s : Schedule) (now : Instant) (positive : Bool) : Nat → List Instant × Schedule × Bool
  | 0 => ([], s, true)
  | n + 1 =>
    match s.nextRunAfter? now positive with
    | none => ([], s, false)
    | some next =>
      let (ts, last, ok) := chain { s with nextRun := some next } next positive n
      (next :: ts, last, ok)

end Schedule
end SeriesAlarm
