import SeriesAlarm.Proofs.Engine.Finest
import SeriesAlarm.Worker.Basic

/-!
# The period between ticks

The period comes from an argument, from a variable, or is a minute. Only the argument is raised to a second:
a worker whose variable is zero has no ticker. A period that makes no span cannot be compared with the
tests'. With any other period a worker starts to take turns.
-/

namespace SeriesAlarm

open Text

namespace Arguments

/-- No tick is among the arguments, and the variable for it is the number zero. -/
def TicksAtZero (a : Arguments) (env : Environment) : Prop :=
  a.tick = none ∧
    (Config.setting? env (a.config env).profile "TICK_SECONDS").bind Config.number? = some 0

theorem tickSeconds_config (a : Arguments) (env : Environment) :
    (a.config env).tickSeconds =
      (a.tick.map (max 1)).getD (Config.number env (a.config env).profile "TICK_SECONDS" 60) := by
  cases hprofile : a.profile <;> simp only [config, hprofile] <;> rfl

theorem tickSeconds_config_eq_zero_iff (a : Arguments) (env : Environment) :
    (a.config env).tickSeconds = 0 ↔ a.TicksAtZero env := by
  rw [tickSeconds_config, TicksAtZero]
  cases a.tick with
  | some n => simp
  | none =>
    rw [Config.number]
    cases (Config.setting? env (a.config env).profile "TICK_SECONDS").bind Config.number? <;> simp

end Arguments

namespace Worker

/-- A period that a worker can keep beside its tests: at least a second, and the comparison with the finest
interval and the ticker are there. -/
structure KeepsTime (tickSeconds : Nat) (finest : Option Interval) : Prop where
  one_le : 1 ≤ tickSeconds
  compared : (isLate? tickSeconds finest).isSome
  ticks : (ticker? tickSeconds).isSome

theorem isSome_ticker? (n : Nat) : (ticker? n).isSome ↔ 1 ≤ n := by
  rw [ticker?]
  split_ifs with hn
  · simp [hn]
  · simpa using Nat.one_le_iff_ne_zero.mpr hn

theorem isSome_ofSeconds? (n : Int) : (Span.ofSeconds? n).isSome ↔ n.natAbs ≤ Span.longest := by
  rw [Span.ofSeconds?]
  split_ifs with hn <;> simp [hn]

theorem isSome_isLate? (n : Nat) (i : Interval) :
    (isLate? n (some i)).isSome ↔ n ≤ Span.longest := by
  have hshort : (min (n : Int) (wordSize 63 - 1)).natAbs ≤ Span.longest ↔ n ≤ Span.longest := by
    have hlongest : Span.longest = 9223372036854775 := by decide
    have hsize : wordSize 63 = 9223372036854775808 := rfl
    rw [hlongest, hsize]
    omega
  rw [← hshort, ← isSome_ofSeconds?, isLate?, i.span?_eq]
  cases Span.ofSeconds? (min (n : Int) (wordSize 63 - 1)) <;> rfl

theorem keepsTime_none_iff (n : Nat) : KeepsTime n none ↔ 1 ≤ n :=
  ⟨fun h => h.one_le, fun h => ⟨h, rfl, (isSome_ticker? n).mpr h⟩⟩

theorem keepsTime_some_iff (n : Nat) (i : Interval) :
    KeepsTime n (some i) ↔ 1 ≤ n ∧ n ≤ Span.longest :=
  ⟨fun h => ⟨h.one_le, (isSome_isLate? n i).mp h.compared⟩,
    fun h => ⟨h.1, (isSome_isLate? n i).mpr h.2, (isSome_ticker? n).mpr h.1⟩⟩

theorem canRepeat_iff (w : Worker) :
    w.canRepeat ↔ KeepsTime w.config.tickSeconds w.engine.finestInterval := by
  rw [canRepeat, Bool.and_eq_true]
  exact ⟨fun h => ⟨(isSome_ticker? _).mp h.2, h.1, h.2⟩, fun h => ⟨h.compared, h.ticks⟩⟩

end Worker

namespace Engine

theorem finestInterval_eq_none {e : Engine} (h : e.tests = []) : e.finestInterval = none := by
  rw [finestInterval, intervals, h]
  rfl

end Engine

namespace Worker

/-- A worker with the given arguments, not to run only once. -/
theorem launch_of_start {args : List String} {a : Arguments} {s : Surroundings} {w : Worker}
    (ha : Arguments.parse args = .ok a) (hrepeat : a.once = false)
    (hw : start (a.config s.environment) s.environment s.files = .ok w) :
    launch args s = if w.canRepeat then .ok (.looping w) else .error .crashed := by
  simp only [launch, ha, Except.mapError, hrepeat, hw, bind, Except.bind]
  rfl

theorem exists_start {c : Config} (env : Environment) (files : FileNode) (h : c.watch = false) :
    ∃ w, start c env files = .ok w := by
  simp only [start, h, Bool.false_eq_true, if_false]
  exact ⟨_, rfl⟩

theorem config_of_start {c : Config} {env : Environment} {files : FileNode} {w : Worker}
    (hw : start c env files = .ok w) : w.config = c := by
  simp only [start] at hw
  split at hw
  · cases hw
  · cases hw
    rfl

/-- The condition for a period to be kept. -/
theorem keepsTime_config_iff (a : Arguments) (env : Environment) (e : Engine) :
    KeepsTime (a.config env).tickSeconds e.finestInterval ↔
      ¬ a.TicksAtZero env ∧ (e.tests = [] ∨ (a.config env).tickSeconds ≤ Span.longest) := by
  rw [← a.tickSeconds_config_eq_zero_iff, ← ne_eq, ← Nat.one_le_iff_ne_zero]
  by_cases he : e.tests = []
  · rw [Engine.finestInterval_eq_none he, keepsTime_none_iff]
    simp [he]
  · obtain ⟨f, hf⟩ := Engine.exists_finestInterval he
    rw [hf, keepsTime_some_iff]
    simp [he]

/-- For all arguments, variables and tests: the period is at least a second, and the comparison and the
ticker do not fault, exactly if no variable makes it zero and, once there is a test, it makes a span. A worker
that does not run only once then takes turns, and else crashes. -/
theorem launch_keepsTime_iff (a : Arguments) (env : Environment) :
    (∀ e : Engine, KeepsTime (a.config env).tickSeconds e.finestInterval ↔
      ¬ a.TicksAtZero env ∧ (e.tests = [] ∨ (a.config env).tickSeconds ≤ Span.longest)) ∧
    ∀ (args : List String) (s : Surroundings) (w : Worker),
      Arguments.parse args = .ok a → a.once = false → s.environment = env →
      start (a.config env) env s.files = .ok w →
        (KeepsTime (a.config env).tickSeconds w.engine.finestInterval →
          launch args s = .ok (.looping w)) ∧
        (¬ KeepsTime (a.config env).tickSeconds w.engine.finestInterval →
          launch args s = .error .crashed) := by
  refine ⟨keepsTime_config_iff a env, ?_⟩
  rintro args s w ha hrepeat rfl hw
  rw [launch_of_start ha hrepeat hw, ← config_of_start hw, ← canRepeat_iff]
  exact ⟨fun h => if_pos h, fun h => if_neg h⟩

/-- The variable alone, in a folder without documents. -/
theorem not_keepsTime_zeroVariable :
    let s : Surroundings := { env := [("TICK_SECONDS", "0")], now := .ofDate ⟨2006, 5, 20⟩ 0 }
    let a : Arguments := { noWatch := true }
    Arguments.parse ["--no-watch"] = .ok a ∧ (a.config s.environment).tickSeconds = 0 ∧
      (∀ e : Engine, ¬ KeepsTime (a.config s.environment).tickSeconds e.finestInterval) ∧
      launch ["--no-watch"] s = .error .crashed := by
  intro s a
  have hparse : Arguments.parse ["--no-watch"] = .ok a := rfl
  have hzero : (a.config s.environment).tickSeconds = 0 := rfl
  have hnot (e : Engine) : ¬ KeepsTime (a.config s.environment).tickSeconds e.finestInterval :=
    fun h => absurd h.one_le (by omega)
  obtain ⟨w, hw⟩ := exists_start (c := a.config s.environment) s.environment s.files rfl
  refine ⟨hparse, hzero, hnot, ?_⟩
  rw [launch_of_start hparse rfl hw, if_neg]
  rw [canRepeat_iff, config_of_start hw]
  exact hnot w.engine

end Worker
end SeriesAlarm
