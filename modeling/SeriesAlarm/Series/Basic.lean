import SeriesAlarm.Calendar.Interval
import SeriesAlarm.Decimal.Binary

/-!
# Time series

Samples of one identifier in the order of their instants, at most one at each, together with the
value that stands for a missing sample.
-/

namespace SeriesAlarm

/-- A float is missing when it is NaN or equals the sentinel. -/
def isMissingValue (value sentinel : Float) : Bool := value.isNaN || value == sentinel

abbrev Sample := Instant × Float

def insertSample (t : Instant) (value : Float) : List Sample → List Sample
  | [] => [(t, value)]
  | s :: rest =>
    if t < s.1 then (t, value) :: s :: rest
    else if t = s.1 then (t, value) :: rest
    else s :: insertSample t value rest

def sampleAt? (t : Instant) : List Sample → Option Float
  | [] => none
  | s :: rest => if s.1 = t then some s.2 else sampleAt? t rest

theorem sampleAt?_insertSample (t u : Instant) (value : Float) (samples : List Sample) :
    sampleAt? u (insertSample t value samples) =
      if t = u then some value else sampleAt? u samples := by
  induction samples with
  | nil => simp [insertSample, sampleAt?]
  | cons s rest ih =>
    unfold insertSample
    split
    · simp [sampleAt?]
    · split
      · next h => subst h; by_cases hu : s.1 = u <;> simp [sampleAt?, hu]
      · next hne =>
        by_cases hu : s.1 = u
        · have : t ≠ u := fun h => hne (h.trans hu.symm)
          simp [sampleAt?, hu, this]
        · simp [sampleAt?, hu, ih]

structure Series where
  identifier : String
  interval : Interval
  missing : Float := notANumber
  samples : List Sample := []

namespace Series

def insert (s : Series) (t : Instant) (value : Float) : Series :=
  { s with samples := insertSample t value s.samples }

def valueAt (s : Series) (t : Instant) : Float := (sampleAt? t s.samples).getD s.missing

theorem valueAt_insert (s : Series) (t u : Instant) (value : Float) :
    (s.insert t value).valueAt u = if t = u then value else s.valueAt u := by
  simp only [valueAt, insert, sampleAt?_insertSample]
  split <;> rfl

def isMissing (s : Series) (value : Float) : Bool := isMissingValue value s.missing

def size (s : Series) : Nat := s.samples.length

def isEmpty (s : Series) : Bool := s.samples.isEmpty

def window (s : Series) (first last : Instant) : Series :=
  { s with samples := s.samples.filter fun p => first ≤ p.1 ∧ p.1 ≤ last }

/-- A window of a series with samples has to begin no later than it ends. -/
def window? (s : Series) (first last : Instant) : Option Series :=
  if s.isEmpty ∨ first ≤ last then some (s.window first last) else none

end Series
end SeriesAlarm
