import SeriesAlarm.Calendar.Pattern

/-!
# Seasons

A window of the year such as `10-01` to `04-01`, which may cross New Year. A last day without a
time of day belongs to the season as a whole.
-/

namespace SeriesAlarm

structure Season where
  start : TimePattern
  finish : TimePattern
  deriving DecidableEq, Repr

/-- Why two texts do not bound a season; `bound` is `start` or `end`. -/
inductive SeasonError
  | pattern (cause : PatternError)
  | noMonth (bound format : String)
  | hasYear (bound : String)
  deriving DecidableEq, Repr

def SeasonError.message : SeasonError → String
  | .pattern cause => cause.message
  | .noMonth bound format =>
    "season " ++ bound ++ " needs a month field (format '" ++ format ++ "')"
  | .hasYear bound => "season " ++ bound ++ " must not carry a year; seasons recur yearly"

namespace Season

def checkBound (name : String) (p : TimePattern) : Except SeasonError Unit :=
  if p.month.isNone then .error (.noMonth name p.format)
  else if p.year.isSome then .error (.hasYear name)
  else .ok ()

def parse (start finish format : String) : Except SeasonError Season := do
  let first ← (TimePattern.parse start format).mapError .pattern
  let last ← (TimePattern.parse finish format).mapError .pattern
  checkBound "start" first
  checkBound "end" last
  return ⟨first, last⟩

/-- The end of the season in a year: the last second of the day where no time of day is given. -/
def finishIn? (s : Season) (year : Int) : Option Instant := do
  let last ← s.finish.inYear? year
  if s.finish.hasTime then some last else ← (last.shift 86400).map (·.shift (-1))

/-- The bounds that matter at `t`. When the end comes before the start within the year, an instant
up to this year's end belongs to the season of last year, and a later one to that of this year. -/
def bounds? (s : Season) (t : Instant) : Option (Instant × Instant) := do
  let first ← s.start.inYear? t.year
  let last ← s.finishIn? t.year
  if last < first then
    if t ≤ last then (first.shiftMonths? (-12)).map (·, last)
    else (last.shiftMonths? 12).map (first, ·)
  else some (first, last)

def contains (s : Season) (t : Instant) : Bool :=
  match s.bounds? t with
  | some (first, last) => first ≤ t && t ≤ last
  | none => false

end Season
end SeriesAlarm
