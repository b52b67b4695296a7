import Mathlib.Data.List.Basic
import SeriesAlarm.Proofs.Outcome
import SeriesAlarm.Action.Dispatcher

/-!
# A run of an action

How one run of an action ends, and what a run of all that are due does to each of them.
-/

namespace SeriesAlarm
namespace Action

theorem map_fst_filter_zipIdx (p : ResultGroup → Bool) (groups : List ResultGroup) :
    (groups.zipIdx.filter fun x => p x.1).map Prod.fst = groups.filter p := by
  calc (groups.zipIdx.filter fun x => p x.1).map Prod.fst
      = (groups.zipIdx.map Prod.fst).filter p := (List.filter_map (p := p)).symm
    _ = groups.filter p := by rw [List.zipIdx_map_fst]

theorem isEmpty_selectedAt (testId : Option String) (groups : List ResultGroup) :
    (selectedAt testId groups).isEmpty = (groups.filter (isSelected testId)).isEmpty := by
  rw [← map_fst_filter_zipIdx, selectedAt, List.isEmpty_map, List.isEmpty_map]

theorem groupsAt_selectedAt (testId : Option String) (groups : List ResultGroup) :
    groupsAt (selectedAt testId groups) groups = groups.filter (isSelected testId) := by
  have hthere : ∀ x ∈ groups.zipIdx.filter fun x => isSelected testId x.1,
      ((groups[·]?) ∘ Prod.snd) x = some x.1 := fun x hx =>
    List.mem_zipIdx_iff_getElem?.mp (List.mem_filter.mp hx).1
  rw [groupsAt, selectedAt, List.filterMap_map,
    List.filterMap_eq_map_iff_forall_eq_some.mpr hthere, map_fst_filter_zipIdx]

theorem groupsBeside_selectedAt (testId : Option String) (groups : List ResultGroup) :
    groupsBeside (selectedAt testId groups) groups =
      groups.filter fun g => !isSelected testId g := by
  have hkeep : ∀ x ∈ groups.zipIdx,
      (!(selectedAt testId groups).contains x.2) = !isSelected testId x.1 := by
    intro x hx
    have hthere : groups[x.2]? = some x.1 := List.mem_zipIdx_iff_getElem?.mp hx
    rw [Bool.eq_iff_iff, Bool.not_eq_true', Bool.not_eq_true', ← Bool.not_eq_true,
      ← Bool.not_eq_true, List.contains_iff_mem, mem_selectedAt]
    simp [hthere]
  rw [groupsBeside, List.filter_congr hkeep, map_fst_filter_zipIdx fun g => !isSelected testId g]

/-- A run by the groups themselves: positions are only how it finds them again. -/
theorem run_eq (a : Action) (attempts : Attempts) (t : Instant) (testId : Option String) :
    a.run attempts t testId = do
      let a ← orFault .outOfCalendar (a.expire? t)
      let selected := a.buffered.filter (isSelected testId)
      if selected.isEmpty then return { action := a, ok := true }
      return a.release attempts t selected (a.buffered.filter fun g => !isSelected testId g) := by
  simp only [run, isEmpty_selectedAt, groupsAt_selectedAt, groupsBeside_selectedAt]

def dropBefore (a : Action) (expiry : Instant) : Action :=
  { a with buffered := a.buffered.filter (isFresh expiry) }

/-- The groups that a run with this expiry delivers: the fresh ones of one test, or all of them. -/
def picked (a : Action) (testId : Option String) (expiry : Instant) : List ResultGroup :=
  (a.dropBefore expiry).buffered.filter (isSelected testId)

/-- How a run of an action ends: with nothing to deliver, with a text that cannot be rendered, with
a refused delivery, or with a delivery. -/
inductive Ends (a : Action) (attempts : Attempts) (t : Instant) (testId : Option String)
    (expiry : Instant) : ActionRun → Prop
  | nothing (hpicked : a.picked testId expiry = []) :
      Ends a attempts t testId expiry { action := a.dropBefore expiry, ok := true }
  | unrendered (hpicked : a.picked testId expiry ≠ [])
      (render : a.wording.render a.sender (a.picked testId expiry) t = none) :
      Ends a attempts t testId expiry { action := a.dropBefore expiry, ok := false }
  | refused (n : Notification) (hpicked : a.picked testId expiry ≠ [])
      (render : a.wording.render a.sender (a.picked testId expiry) t = some n)
      (attempt : attempts (a.dropBefore expiry) n = false) :
      Ends a attempts t testId expiry { action := a.dropBefore expiry, ok := false, offered := some n }
  | delivered (n : Notification) (hpicked : a.picked testId expiry ≠ [])
      (render : a.wording.render a.sender (a.picked testId expiry) t = some n)
      (attempt : attempts (a.dropBefore expiry) n = true) :
      Ends a attempts t testId expiry {
        action := { a with
          buffered := (a.dropBefore expiry).buffered.filter fun g => !isSelected testId g }
        ok := true
        offered := some n
        sent := some n }

theorem run_ends {a : Action} {attempts : Attempts} {t : Instant} {testId : Option String}
    {r : ActionRun} (h : a.run attempts t testId = .ok r) :
    ∃ expiry, a.expiry? t = some expiry ∧ a.Ends attempts t testId expiry r := by
  rw [run_eq] at h
  obtain ⟨b, hb, h⟩ := bind_eq_ok.mp h
  obtain ⟨expiry, hexpiry, hb⟩ := Option.map_eq_some_iff.mp (orFault_eq_ok.mp hb)
  change a.dropBefore expiry = b at hb
  subst hb
  refine ⟨expiry, hexpiry, ?_⟩
  dsimp only at h
  split at h
  · next hempty =>
    cases h
    exact .nothing (List.isEmpty_iff.mp hempty)
  · next hempty =>
    have hsome : a.picked testId expiry ≠ [] := fun hnil => hempty (List.isEmpty_iff.mpr hnil)
    cases h
    unfold release
    split
    · next hrender => exact .unrendered hsome hrender
    · next n hrender =>
      split
      · next hattempt => exact .delivered n hsome hrender hattempt
      · next hattempt => exact .refused n hsome hrender (Bool.eq_false_iff.mpr hattempt)

/-- Nothing but the calendar stops a run. -/
theorem exists_run {a : Action} {t expiry : Instant} (h : a.expiry? t = some expiry)
    (attempts : Attempts) (testId : Option String) : ∃ r, a.run attempts t testId = .ok r := by
  have hexpire : a.expire? t = some (a.dropBefore expiry) := by
    rw [expire?, h]
    rfl
  rw [run_eq, hexpire]
  change ∃ r, (if (a.picked testId expiry).isEmpty then _ else _) = Except.ok r
  split <;> exact ⟨_, rfl⟩

/-- A run leaves everything but the buffer as it is. -/
theorem run_keeps {a : Action} {attempts : Attempts} {t : Instant} {testId : Option String}
    {r : ActionRun} (h : a.run attempts t testId = .ok r) :
    r.action = { a with buffered := r.action.buffered } := by
  obtain ⟨expiry, -, hends⟩ := run_ends h
  cases hends <;> rfl

theorem buffered_run_subset {a : Action} {attempts : Attempts} {t : Instant}
    {testId : Option String} {r : ActionRun} (h : a.run attempts t testId = .ok r) :
    r.action.buffered ⊆ a.buffered := by
  obtain ⟨expiry, -, hends⟩ := run_ends h
  have hfresh : (a.dropBefore expiry).buffered ⊆ a.buffered := fun _ hg => (List.mem_filter.mp hg).1
  cases hends with
  | nothing => exact hfresh
  | unrendered => exact hfresh
  | refused => exact hfresh
  | delivered => exact fun _ hg => hfresh (List.mem_filter.mp hg).1

theorem run_congr {a : Action} {attempts attempts' : Attempts}
    (same : ∀ b n, b.id = a.id → attempts' b n = attempts b n) (t : Instant)
    (testId : Option String) : a.run attempts' t testId = a.run attempts t testId := by
  rw [run_eq, run_eq, expire?]
  cases a.expiry? t with
  | none => rfl
  | some expiry =>
    have hsame (n : Notification) :
        attempts' (a.dropBefore expiry) n = attempts (a.dropBefore expiry) n := same _ n rfl
    have hrelease (chosen others : List ResultGroup) :
        (a.dropBefore expiry).release attempts' t chosen others =
          (a.dropBefore expiry).release attempts t chosen others := by
      simp only [release, hsame]
    change (if (a.picked testId expiry).isEmpty then _
        else Except.ok ((a.dropBefore expiry).release attempts' t _ _)) =
      if (a.picked testId expiry).isEmpty then _
        else Except.ok ((a.dropBefore expiry).release attempts t _ _)
    rw [hrelease]

def CanRun (a : Action) (t : Instant) : Prop :=
  a.active = true → ∃ due, a.isDue? t = some due ∧
    (due = true → (a.expiry? t).isSome ∧ (a.schedule.advance? t false).isSome)

end Action

namespace Dispatcher

/-- What a run of all actions that are due does to one of them: nothing, or a run of it. -/
inductive Turns (attempts : Attempts) (t : Instant) (a : Action) : Step → Prop
  | inactive (active : a.active = false) : Turns attempts t a { action := a }
  | early (active : a.active = true) (due : a.isDue? t = some false) :
      Turns attempts t a { action := a }
  | ran (active : a.active = true) (due : a.isDue? t = some true) (done : ActionRun) (next : Action)
      (run : a.run attempts t none = .ok done) (advance : done.action.advance? t = some next) :
      Turns attempts t a {
        action := next
        result := some {
          actionId := a.id
          channel := a.channel.name
          groups := a.buffered.length
          success := done.ok }
        offered := done.offered
        sent := done.sent }

theorem runOne_turns {attempts : Attempts} {t : Instant} {a : Action} {step : Step}
    (h : runOne attempts t a = .ok step) : Turns attempts t a step := by
  unfold runOne at h
  split at h
  · next hactive =>
    cases h
    exact .inactive (by simpa using hactive)
  · next hactive =>
    have hactive : a.active = true := by simpa using hactive
    obtain ⟨due, hdue, h⟩ := bind_eq_ok.mp h
    have hdue := orFault_eq_ok.mp hdue
    split at h
    · next hearly =>
      cases h
      exact .early hactive (by simpa [show due = false by simpa using hearly] using hdue)
    · next hlate =>
      obtain ⟨done, hdone, h⟩ := bind_eq_ok.mp h
      obtain ⟨next, hnext, h⟩ := bind_eq_ok.mp h
      cases h
      have hdue : a.isDue? t = some true := by
        simpa [show due = true by simpa using hlate] using hdue
      exact .ran hactive hdue done next hdone (orFault_eq_ok.mp hnext)

theorem Turns.id_eq {attempts : Attempts} {t : Instant} {a : Action} {step : Step}
    (h : Turns attempts t a step) : step.action.id = a.id := by
  cases h with
  | inactive => rfl
  | early => rfl
  | ran active due done next run advance =>
    obtain ⟨schedule, -, rfl⟩ := Option.map_eq_some_iff.mp advance
    dsimp only
    rw [Action.run_keeps run]

theorem runOne_eq_ok_iff {attempts : Attempts} {t : Instant} {a : Action} {step : Step} :
    runOne attempts t a = .ok step ↔ Turns attempts t a step := by
  refine ⟨runOne_turns, ?_⟩
  rintro (hactive | ⟨hactive, hdue⟩ | ⟨hactive, hdue, done, next, hdone, hnext⟩)
  · simp only [runOne, hactive]
    rfl
  · simp only [runOne, hactive, hdue]
    rfl
  · simp only [runOne, hactive, Bool.not_true, Bool.false_eq_true, if_false]
    refine bind_eq_ok.mpr ⟨true, orFault_eq_ok.mpr hdue, bind_eq_ok.mpr ⟨done, hdone, ?_⟩⟩
    exact bind_eq_ok.mpr ⟨next, orFault_eq_ok.mpr hnext, rfl⟩

theorem runOne_congr {a : Action} {attempts attempts' : Attempts}
    (same : ∀ b n, b.id = a.id → attempts' b n = attempts b n) (t : Instant) :
    runOne attempts' t a = runOne attempts t a := by
  unfold runOne
  rw [Action.run_congr same]

/-- Whether an action can take its turn does not depend on its buffer, nor on how deliveries end. -/
theorem exists_runOne_iff {attempts : Attempts} {t : Instant} {a : Action} :
    (∃ step, runOne attempts t a = .ok step) ↔ a.CanRun t := by
  simp only [runOne_eq_ok_iff]
  constructor
  · rintro ⟨step, inactive | ⟨-, due⟩ | ⟨-, due, done, next, run, advance⟩⟩ hactive
    · exact absurd (hactive.symm.trans inactive) (by decide)
    · exact ⟨false, due, fun hdue => absurd hdue (by decide)⟩
    · obtain ⟨expiry, hexpiry, -⟩ := Action.run_ends run
      obtain ⟨schedule, hschedule, -⟩ := Option.map_eq_some_iff.mp advance
      rw [Action.run_keeps run] at hschedule
      exact ⟨true, due, fun _ => ⟨by rw [hexpiry]; rfl, by rw [hschedule]; rfl⟩⟩
  · intro h
    cases hactive : a.active with
    | false => exact ⟨_, .inactive hactive⟩
    | true =>
      obtain ⟨due, hdue, hroom⟩ := h hactive
      cases due with
      | false => exact ⟨_, .early hactive hdue⟩
      | true =>
        obtain ⟨hexpiry, hadvance⟩ := hroom rfl
        obtain ⟨expiry, hexpiry⟩ := Option.isSome_iff_exists.mp hexpiry
        obtain ⟨schedule, hschedule⟩ := Option.isSome_iff_exists.mp hadvance
        obtain ⟨done, hdone⟩ := Action.exists_run hexpiry attempts none
        have hnext : done.action.advance? t = some { done.action with schedule } := by
          rw [Action.advance?, Action.run_keeps hdone, hschedule]
          rfl
        exact ⟨_, .ran hactive hdue done _ hdone hnext⟩

theorem runDue_cons {attempts : Attempts} {t : Instant} {a : Action} {d : Dispatcher}
    {steps : List Step} (h : runDue (a :: d) attempts t = .ok steps) :
    ∃ step rest, Turns attempts t a step ∧ runDue d attempts t = .ok rest ∧
      steps = step :: rest := by
  unfold runDue at h
  rw [List.mapM_cons] at h
  obtain ⟨step, hstep, h⟩ := bind_eq_ok.mp h
  obtain ⟨rest, hrest, h⟩ := bind_eq_ok.mp h
  cases h
  exact ⟨step, rest, runOne_turns hstep, hrest, rfl⟩

end Dispatcher
end SeriesAlarm
