import SeriesAlarm.Proofs.Action.Partition
import SeriesAlarm.Proofs.Text.Written

/-!
# How many groups a run reports

The result of a run counts the groups that were buffered before it, and the notification those that it
holds. The two agree if every group was handed to the channel, and not if some had expired or the text
could not be rendered.
-/

namespace SeriesAlarm

namespace Action

variable {a : Action} {attempts : Attempts} {t expiry : Instant} {testId : Option String}
  {r : ActionRun}

theorem chosen_none (a : Action) (expiry : Instant) : a.chosen expiry none = a.fresh expiry := by
  simp [chosen, fresh, ResultGroup.IsOf]

theorem length_expired_add_fresh (a : Action) (expiry : Instant) :
    (a.expired expiry).length + (a.fresh expiry).length = a.buffered.length := by
  rw [← List.length_append, (a.perm_expired_fresh expiry).length_eq]

theorem fresh_eq_of_expired (h : a.expired expiry = []) : a.fresh expiry = a.buffered :=
  List.filter_eq_self.mpr fun g hg => by
    simpa using List.filter_eq_nil_iff.mp h g hg

theorem Ends.offered_eq (h : a.Ends attempts t testId expiry r) :
    r.offered = if a.chosen expiry testId = [] then none
      else a.wording.render a.sender (a.chosen expiry testId) t := by
  cases h with
  | nothing hpicked => rw [if_pos (picked_eq a expiry testId ▸ hpicked)]
  | unrendered hpicked render =>
    rw [picked_eq] at hpicked render
    rw [if_neg hpicked, render]
  | refused n hpicked render =>
    rw [picked_eq] at hpicked render
    rw [if_neg hpicked, render]
  | delivered n hpicked render =>
    rw [picked_eq] at hpicked render
    rw [if_neg hpicked, render]

theorem Ends.groupsFact_offered {n : Notification} (h : a.Ends attempts t none expiry r)
    (hn : r.offered = some n) : n.fact? "groups" = some (Nat.repr (a.fresh expiry).length) := by
  rw [h.offered_eq, chosen_none] at hn
  split at hn
  · cases hn
  · exact Wording.groupsFact_render hn

end Action

namespace Dispatcher

variable {d : Dispatcher} {attempts : Attempts} {t : Instant} {a : Action} {step : Step}
  {steps : List Step} {result : DispatchResult}

/-- The result counts the groups of the notification that the channel was handed, and none if it was
handed nothing. -/
def Step.Counts (step : Step) (result : DispatchResult) : Prop :=
  match step.offered with
  | some n => n.fact? "groups" = some (Nat.repr result.groups)
  | none => result.groups = 0

theorem Turns.counts (h : Turns attempts t a step) (hresult : step.result = some result) :
    ∃ expiry, a.expiry? t = some expiry ∧ result.groups = a.buffered.length ∧
      (∀ n, step.offered = some n →
        n.fact? "groups" = some (Nat.repr (a.fresh expiry).length)) ∧
      (step.Counts result ↔ a.buffered = [] ∨ a.expired expiry = [] ∧
        (a.wording.render a.sender a.buffered t).isSome = true) := by
  cases h with
  | inactive => cases hresult
  | early => cases hresult
  | ran active due done next run advance =>
    cases hresult
    obtain ⟨expiry, hexpiry, hends⟩ := Action.run_ends run
    have hoffered := hends.offered_eq
    rw [Action.chosen_none] at hoffered
    have hcount := a.length_expired_add_fresh expiry
    refine ⟨expiry, hexpiry, rfl, fun _ hn => hends.groupsFact_offered hn, ?_⟩
    by_cases hempty : a.fresh expiry = []
    · rw [if_pos hempty] at hoffered
      simp only [Step.Counts, hoffered, List.length_eq_zero_iff]
      refine ⟨.inl, fun h => h.elim id fun hfresh => ?_⟩
      rw [← Action.fresh_eq_of_expired hfresh.1, hempty]
    rw [if_neg hempty] at hoffered
    have hsome : a.buffered ≠ [] := fun hnil => hempty (by rw [Action.fresh, hnil]; rfl)
    cases hrender : a.wording.render a.sender (a.fresh expiry) t with
    | none =>
      simp only [Step.Counts, hoffered, hrender, List.length_eq_zero_iff]
      refine iff_of_false hsome (not_or.mpr ⟨hsome, fun hfresh => ?_⟩)
      rw [← Action.fresh_eq_of_expired hfresh.1, hrender] at hfresh
      exact absurd hfresh.2 (by decide)
    | some n =>
      have hn := hoffered.trans hrender
      simp only [Step.Counts, hn, hends.groupsFact_offered hn, Option.some.injEq,
        Text.repr_injective.eq_iff, hsome, false_or]
      constructor
      · intro hlength
        have hfresh : a.expired expiry = [] := List.length_eq_zero_iff.mp (by omega)
        refine ⟨hfresh, ?_⟩
        rw [← Action.fresh_eq_of_expired hfresh, hrender]
        rfl
      · intro hfresh
        rw [Action.fresh_eq_of_expired hfresh.1]

/-- The count that a run reports of an action is that of its buffer, while the notification counts the
groups that have not expired. So the two agree exactly if the buffer was empty, or no group had expired
and the text of all could be rendered. -/
theorem results_count_iff (h : d.runDue attempts t = .ok steps) :
    List.Forall₂ (fun a step => ∀ result, step.result = some result →
      ∃ expiry, a.expiry? t = some expiry ∧ result.groups = a.buffered.length ∧
        (∀ n, step.offered = some n →
          n.fact? "groups" = some (Nat.repr (a.fresh expiry).length)) ∧
        (step.Counts result ↔ a.buffered = [] ∨ a.expired expiry = [] ∧
          (a.wording.render a.sender a.buffered t).isSome = true)) d steps :=
  (mapM_eq_ok.mp h).imp fun _ _ hstep _ hresult => (runOne_turns hstep).counts hresult

/-- A run of the action alone, in which it counts its groups and the channel is handed a notification
with this entry. -/
def CountsOnce (a : Action) (now : Instant) (groups : Nat) (entry : String) : Prop :=
  ∃ step result n, runDue [a] (fun _ _ => true) now = .ok [step] ∧ step.result = some result ∧
    result.groups = groups ∧ step.offered = some n ∧ n.fact? "groups" = some entry

theorem countsOnce_of_toOption {now : Instant} {groups : Nat} {entry : String}
    (h : (runDue [a] (fun _ _ => true) now).toOption.map (fun steps => steps.map fun step =>
      (step.result.map (·.groups), step.offered.map (·.fact? "groups"))) =
        some [(some groups, some (some entry))]) :
    CountsOnce a now groups entry := by
  cases hrun : runDue [a] (fun _ _ => true) now with
  | error fault => simp [hrun, Except.toOption] at h
  | ok steps =>
    simp only [hrun, Except.toOption, Option.map_some, Option.some.injEq] at h
    obtain ⟨step, rfl, hstep⟩ := List.map_eq_singleton_iff.mp h
    simp only [Prod.mk.injEq, Option.map_eq_some_iff] at hstep
    obtain ⟨⟨result, hresult, hgroups⟩, n, hoffered, hentry⟩ := hstep
    exact ⟨step, result, n, hrun, hresult, hgroups, hoffered, hentry⟩

/-- Where groups are kept for a month, none of them has expired, and the run counts what it sends. -/
theorem results_count_iff_month :
    let month := { Action.tenDaysOfTwoTests with retention := { base := .month, multiplier := 1 } }
    let now := Instant.ofDate ⟨2006, 5, 20⟩ 25200
    ∃ step result, runDue [month] (fun _ _ => true) now = .ok [step] ∧
      step.result = some result ∧ step.Counts result := by
  intro month now
  have honce : CountsOnce month now 4 "4" := countsOnce_of_toOption (by decide +kernel)
  obtain ⟨step, result, n, hrun, hresult, -⟩ := honce
  obtain ⟨expiry, hexpiry, -, -, hcounts⟩ :=
    (List.forall₂_cons.mp (results_count_iff hrun)).1 result hresult
  have hsince : month.expiry? now = some (.ofDate ⟨2006, 4, 20⟩ 25200) := by decide +kernel
  cases hsince.symm.trans hexpiry
  have hfresh : (month.expired (.ofDate ⟨2006, 4, 20⟩ 25200)).length = 0 := by decide +kernel
  exact ⟨step, result, hrun, hresult, hcounts.mpr
    (.inr ⟨List.length_eq_zero_iff.mp hfresh, by decide +kernel⟩)⟩

/-- Where groups are kept for ten days, the run counts the one that has expired and does not send it. -/
theorem not_counts_tenDays :
    ∃ step result n,
      runDue [Action.tenDaysOfTwoTests] (fun _ _ => true) (.ofDate ⟨2006, 5, 20⟩ 25200) = .ok [step] ∧
      step.result = some result ∧ result.groups = 4 ∧ step.offered = some n ∧
      n.fact? "groups" = some "3" ∧ ¬ step.Counts result := by
  have honce : CountsOnce Action.tenDaysOfTwoTests (.ofDate ⟨2006, 5, 20⟩ 25200) 4 "3" :=
    countsOnce_of_toOption (by decide +kernel)
  obtain ⟨step, result, n, hrun, hresult, hgroups, hoffered, hentry⟩ := honce
  refine ⟨step, result, n, hrun, hresult, hgroups, hoffered, hentry, ?_⟩
  simp only [Step.Counts, hoffered, hentry, hgroups]
  decide

end Dispatcher
end SeriesAlarm
