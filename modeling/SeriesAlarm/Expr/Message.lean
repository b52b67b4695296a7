import SeriesAlarm.Calendar.InstantText
import SeriesAlarm.Decimal.Text
import SeriesAlarm.Text.Replace

/-!
# Message texts

The tokens `$TSID[0]` to `$TSID[9]`, `$DATETIME` and `$VALUE` of a message are replaced one after
the other in this order, each in the text that the one before it left.
-/

namespace SeriesAlarm
namespace Message

open Text

/-- Whole values have no point: `75`. -/
def valueText (x : Float) : String := Decimal.plain x

def identifierToken (i : Nat) : List Char := ("$TSID[" ++ Nat.repr i ++ "]").toList

/-- A token and the text that takes its place. -/
structure Replacement where
  token : List Char
  text : List Char
  deriving DecidableEq, Repr

/-- The replacements in the order in which they are made; an identifier that is not there is
empty. -/
def replacements (t : Instant) (value : Float) (identifiers : List String) : List Replacement :=
  ((List.range 10).map fun i => ⟨identifierToken i, (identifiers.getD i "").toList⟩) ++
    [⟨"$DATETIME".toList, t.stamp.toList⟩, ⟨"$VALUE".toList, (valueText value).toList⟩]

def substitute (template : String) (t : Instant) (value : Float) (identifiers : List String) :
    String :=
  String.ofList <| (replacements t value identifiers).foldl
    (fun text r => replaceAll r.token r.text text) template.toList

end Message
end SeriesAlarm
