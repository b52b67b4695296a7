import SeriesAlarm.Calendar.Interval

/-!
# Spans of time

A span is a signed number of seconds. Only as many seconds make a span as have their milliseconds in a
signed word of 64 bits, but a multiple of a span is one as long as its seconds fit.
-/

namespace SeriesAlarm

namespace Span

def longest : Nat := (wordSize 63 - 1) / 1000

def ofSeconds? (n : Int) : Option Int := if n.natAbs ≤ longest then some n else none

/-- A multiple of a span; the ends of the word count as too long. -/
def times? (span n : Int) : Option Int :=
  if -(wordSize 63 : Int) < span * n ∧ span * n < wordSize 63 - 1 then some (span * n) else none

end Span

def Interval.span? (i : Interval) : Option Int :=
  Span.times? i.base.nominalSeconds (Int.bmod i.multiplier (wordSize 32))

end SeriesAlarm
