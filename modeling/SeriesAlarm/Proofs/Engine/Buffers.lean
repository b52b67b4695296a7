import SeriesAlarm.Proofs.Engine.Reload

/-!
# What buffers hold

Whoever reads the test or the instant of a group looks at its first result only. That speaks for all
of its results: in every engine as it can be, a buffered group is one positive instant of one test,
cut off for its action, and the result of the root is its last one.
-/

namespace SeriesAlarm

namespace Action

/-- The group is as it can be in the buffer of the action. -/
structure Holds (a : Action) (g : ResultGroup) : Prop where
  ne_nil : g ≠ []
  /-- What the first result says is what every result says. -/
  common : ∃ test t, (g.testId? = some test ∧ g.timestamp? = some t) ∧
    ∀ r ∈ g, r.testId = test ∧ r.timestamp = t
  within : ∀ cutoff, a.cutoff = some cutoff → ∀ r ∈ g, r.level ≤ cutoff
  /-- The last result, and no other, is that of the root. -/
  root : ∃ below top, g = below ++ [top] ∧ top.level = 0 ∧ ∀ r ∈ below, 0 < r.level

variable {a : Action} {g : ResultGroup}

theorem holds_of_explains {test : String} {t : Instant} (h : g.Explains test t)
    (within : ∀ r ∈ g, r.isWithin a.cutoff = true) : a.Holds g := by
  refine ⟨h.ne_nil, ⟨test, t, ⟨h.testId?, h.timestamp?⟩, h.common⟩, ?_, h.root⟩
  intro cutoff hcutoff r hr
  have hlevel := within r hr
  rw [PositiveResult.isWithin, hcutoff] at hlevel
  exact of_decide_eq_true hlevel

theorem isWithin_of_taken_eq (h : a.taken g = [g]) : ∀ r ∈ g, r.isWithin a.cutoff = true := by
  have hkept : g.upTo a.cutoff = g := by
    unfold taken at h
    split at h
    · cases h
    · exact List.singleton_inj.mp h
  exact List.filter_eq_self.mp hkept

theorem addResults_holds {test : String} {t : Instant} (h : g.Explains test t) (a : Action) :
    ∃ kept, a.addResults g = a.receive [kept] ∧ kept.Sublist g ∧ a.Holds kept := by
  refine ⟨g.upTo a.cutoff, addResults_of_explains ⟨test, t, h⟩ a, g.upTo_sublist a.cutoff, ?_⟩
  exact holds_of_explains (h.upTo a.cutoff) fun r hr => (List.mem_filter.mp hr).2

end Action

namespace Engine

/-- The buffers hold groups of the right shape only, and whatever is handed on leaves one. -/
structure KeepsShape (e : Engine) : Prop where
  buffered : ∀ a ∈ e.actions, ∀ g ∈ a.buffered, a.Holds g
  handed : ∀ s ∈ e.tests, ∀ source flag anchor p, s.pass source flag anchor = .ok p →
    ∀ g ∈ p.handed, ∀ a : Action,
      ∃ kept, a.addResults g = a.receive [kept] ∧ kept.Sublist g ∧ a.Holds kept

theorem Reached.keepsShape {e : Engine} {j : Journal} {sent : List (String × Notification)}
    (h : Reached e j sent) : e.KeepsShape := by
  obtain ⟨hsound, hagrees, -⟩ := h.agrees
  constructor
  · intro a ha g hg
    obtain ⟨test, t, hexplains⟩ := hagrees.mem_explains a ha g hg
    exact Action.holds_of_explains hexplains (Action.isWithin_of_taken_eq (h.tidy a ha g hg))
  · intro s hs source flag anchor p hpass g hg a
    obtain ⟨t, hexplains⟩ := Test.explains_of_handed hpass (hsound.tests s hs).root g hg
    exact Action.addResults_holds hexplains a

/-- A test with operators below the root and a message of its own, and an action with a cutoff. -/
def nested (cutoff : Nat) : List Document :=
  let schedule : ScheduleEntry := { baseTime := "00", baseTimeFormat := "HH", interval := "1Day" }
  let positive : Formula := .operation .greaterThan (.constant 1 none) (.constant 0 none) none
  [.action {
      apiVersion := "1"
      metadata := { id := "log", name := "Log" }
      schedule
      cutoff := some cutoff
      retention := "2Day"
      subject := some "positive"
      body := some "again"
      delivery := .log },
    .test {
      apiVersion := "1"
      metadata := { id := "both", name := "Both" }
      schedule
      window := "1Day"
      formula := .operation .and positive positive none
      message := some "both"
      actions := ["log"] }]

/-- Of the levels 2, 2, 1 and 0 the buffer holds the last two, and one once the cutoff is lowered. -/
theorem Reached.keepsShape_nested :
    let source := Source.ofSeries [] [] false
    let levels (e : Engine) := e.actions.map (·.buffered.map (·.map (·.level)))
    ∃ t, (ofRuleSet (RuleSet.ofDocuments [] (nested 1)) source).tick source .down
        (fun _ _ => false) ⟨700000 * nanosPerDay⟩ = .ok t ∧
      levels t.engine = [[[1, 0]]] ∧
      levels (t.engine.reload (RuleSet.ofDocuments [] (nested 0)) source) = [[[0]]] ∧
      (t.engine.reload (RuleSet.ofDocuments [] (nested 0)) source).KeepsShape := by
  intro source levels
  have hrun : (((ofRuleSet (RuleSet.ofDocuments [] (nested 1)) source).tick source .down
      (fun _ _ => false) ⟨700000 * nanosPerDay⟩).toOption.map fun t => (levels t.engine,
        levels (t.engine.reload (RuleSet.ofDocuments [] (nested 0)) source))) =
          some ([[[1, 0]]], [[[0]]]) := by
    decide +kernel
  cases hends : (ofRuleSet (RuleSet.ofDocuments [] (nested 1)) source).tick source .down
      (fun _ _ => false) ⟨700000 * nanosPerDay⟩ with
  | error fault =>
    rw [hends] at hrun
    cases hrun
  | ok t =>
    rw [hends] at hrun
    obtain ⟨hbefore, hafter⟩ := Prod.mk.inj (Option.some.inj hrun)
    exact ⟨t, rfl, hbefore, hafter,
      Reached.keepsShape (.reload (.tick (.start [] (nested 1) source) hends) [] (nested 0) source)⟩

end Engine
end SeriesAlarm
