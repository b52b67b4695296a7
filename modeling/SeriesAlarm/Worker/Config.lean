import SeriesAlarm.Text.Digits
import SeriesAlarm.Text.Environment
import SeriesAlarm.Text.LetterCase
import SeriesAlarm.Text.Names
import SeriesAlarm.Width

/-!
# Configuration

What a worker is set up with. Every setting is an environment variable; under a profile `P` the
variable `P_KEY` counts before `KEY`, and an empty variable counts as unset.
-/

namespace SeriesAlarm

open Text

structure Config where
  /-- In upper case; empty when there is none. -/
  profile : String := ""
  rulesDir : String := "data/rules"
  watch : Bool := true
  dataDir : String := "data/series"
  timeoutSeconds : Nat := 30
  tickSeconds : Nat := 60
  deriving DecidableEq, Repr

namespace Config

def setting? (env : Environment) (profile key : String) : Option String :=
  let own := if profile = "" then none else env.nonempty? (profile ++ "_" ++ key)
  own.orElse fun _ => env.nonempty? key

def number? (s : String) : Option Nat := (plusDigits? s.toList).filter (· < wordSize 64)

/-- A setting that is no number counts as unset. -/
def number (env : Environment) (profile key : String) (default : Nat) : Nat :=
  ((setting? env profile key).bind number?).getD default

def isYes (s : String) : Bool := ["1", "true", "yes", "on"].contains (lower s)

def ofProfile (env : Environment) (profile : String) : Config :=
  let profile := upperCase profile
  let defaults : Config := {}
  { profile
    rulesDir := (setting? env profile "RULES_DIR").getD defaults.rulesDir
    watch := ((setting? env profile "WATCH_RULES").map isYes).getD defaults.watch
    dataDir := (setting? env profile "DATA_DIR").getD defaults.dataDir
    timeoutSeconds := number env profile "DATA_TIMEOUT_SECS" defaults.timeoutSeconds
    tickSeconds := number env profile "TICK_SECONDS" defaults.tickSeconds }

def profileKey : String := "TSALARM_PROFILE"

def ofEnvironment (env : Environment) : Config :=
  ofProfile env ((env.get? profileKey).getD "")

def label (c : Config) : String := if c.profile = "" then "default" else c.profile

def markerKeys : List String := ["RULES_DIR", "DATA_DIR", "TICK_SECONDS"]

/-- The profile that a variable belongs to, if its name is one of capital letters and underscores,
an underscore, and a marker. -/
def profileOf? (marker name : String) : Option String :=
  match dropLeading? (("_" ++ marker).toList.reverse) name.toList.reverse with
  | some (c :: cs) =>
    let profile := (c :: cs).reverse
    if profile.all fun c => c.isUpper || c == '_' then some (String.ofList profile) else none
  | _ => none

/-- All profiles, sorted; the one without a name is always there. -/
def profiles (env : Environment) : List String :=
  sortedNames ("default" :: env.flatMap fun v => markerKeys.filterMap (profileOf? · v.1))

end Config
end SeriesAlarm
