import SeriesAlarm.Proofs.Action.Run

/-!
# What a run does with the buffer

A run divides the buffer into the groups that have expired, those that it picks for delivery and those
that stay. The expired ones are gone however it ends, the picked ones if they were delivered, and no
group is lost or kept beside that.
-/

namespace SeriesAlarm

namespace ResultGroup

def IsSince (expiry : Instant) (g : ResultGroup) : Prop := ∃ r ∈ g.head?, expiry ≤ r.timestamp

instance (expiry : Instant) : DecidablePred (IsSince expiry) :=
  fun g => inferInstanceAs (Decidable (∃ r ∈ g.head?, _))

def IsOf (testId : Option String) (g : ResultGroup) : Prop :=
  ∀ id ∈ testId, ∃ r ∈ g.head?, r.testId = id

instance (testId : Option String) : DecidablePred (IsOf testId) :=
  fun g => inferInstanceAs (Decidable (∀ id ∈ testId, ∃ r ∈ g.head?, _))

end ResultGroup

namespace Action

open ResultGroup

variable {a : Action} {attempts : Attempts} {t expiry : Instant} {testId : Option String}
  {r : ActionRun}

theorem isFresh_eq (expiry : Instant) (g : ResultGroup) :
    isFresh expiry g = decide (g.IsSince expiry) := by
  cases g <;> simp [isFresh, timestamp?, IsSince]

theorem isSelected_eq (testId : Option String) (g : ResultGroup) :
    isSelected testId g = decide (g.IsOf testId) := by
  cases testId <;> cases g <;> simp [isSelected, ResultGroup.testId?, IsOf, beq_eq_decide]

def expired (a : Action) (expiry : Instant) : List ResultGroup :=
  a.buffered.filter fun g => ¬ g.IsSince expiry

def fresh (a : Action) (expiry : Instant) : List ResultGroup := a.buffered.filter (·.IsSince expiry)

def chosen (a : Action) (expiry : Instant) (testId : Option String) : List ResultGroup :=
  a.buffered.filter fun g => g.IsSince expiry ∧ g.IsOf testId

def others (a : Action) (expiry : Instant) (testId : Option String) : List ResultGroup :=
  a.buffered.filter fun g => g.IsSince expiry ∧ ¬ g.IsOf testId

theorem buffered_dropBefore (a : Action) (expiry : Instant) :
    (a.dropBefore expiry).buffered = a.fresh expiry :=
  List.filter_congr fun g _ => isFresh_eq expiry g

theorem picked_eq (a : Action) (expiry : Instant) (testId : Option String) :
    a.picked testId expiry = a.chosen expiry testId := by
  rw [picked, buffered_dropBefore, fresh, List.filter_filter, chosen]
  refine List.filter_congr fun g _ => ?_
  rw [isSelected_eq, Bool.decide_and, Bool.and_comm]

theorem filter_fresh (a : Action) (expiry : Instant) (testId : Option String) :
    ((a.fresh expiry).filter fun g => !isSelected testId g) = a.others expiry testId := by
  rw [fresh, List.filter_filter, others]
  refine List.filter_congr fun g _ => ?_
  rw [isSelected_eq, Bool.decide_and, Bool.and_comm, decide_not]

theorem filter_fresh_isSelected (a : Action) (expiry : Instant) (testId : Option String) :
    (a.fresh expiry).filter (isSelected testId) = a.chosen expiry testId := by
  rw [← buffered_dropBefore, ← picked_eq, picked]

/-- Each group has expired or is fresh, and a fresh one is chosen or one of the others. -/
theorem perm_expired_fresh (a : Action) (expiry : Instant) :
    a.buffered.Perm (a.expired expiry ++ a.fresh expiry) := by
  have hdivided := List.filter_append_perm (fun g => decide (IsSince expiry g)) a.buffered
  simp only [← decide_not] at hdivided
  exact hdivided.symm.trans List.perm_append_comm

theorem perm_chosen_others (a : Action) (expiry : Instant) (testId : Option String) :
    (a.fresh expiry).Perm (a.chosen expiry testId ++ a.others expiry testId) := by
  rw [← filter_fresh_isSelected, ← filter_fresh]
  exact (List.filter_append_perm (isSelected testId) (a.fresh expiry)).symm

/-- What a run does with the groups from before the expiry, with those that it chooses and with the
others, by how it ends. -/
structure Partitions (a : Action) (attempts : Attempts) (t : Instant) (testId : Option String)
    (expiry : Instant) (r : ActionRun) : Prop where
  untouched : r.action = { a with buffered := r.action.buffered }
  gone : ∀ g ∈ r.action.buffered, g.IsSince expiry
  idle : a.chosen expiry testId = [] →
    r.ok = true ∧ r.offered = none ∧ r.sent = none ∧ r.action.buffered = a.fresh expiry
  delivered : ∀ n, a.chosen expiry testId ≠ [] →
    a.wording.render a.sender (a.chosen expiry testId) t = some n →
    attempts { a with buffered := a.fresh expiry } n = true →
    r.ok = true ∧ r.offered = some n ∧ r.sent = some n ∧ r.action.buffered = a.others expiry testId
  failed : a.chosen expiry testId ≠ [] →
    (∀ n, a.wording.render a.sender (a.chosen expiry testId) t = some n →
      attempts { a with buffered := a.fresh expiry } n = false) →
    r.ok = false ∧ r.sent = none ∧ r.action.buffered = a.fresh expiry
  divided : a.buffered.Perm (a.expired expiry ++
    (if r.sent.isSome then a.chosen expiry testId else []) ++ r.action.buffered)

theorem dropBefore_eq (a : Action) (expiry : Instant) :
    a.dropBefore expiry = { a with buffered := a.fresh expiry } := by
  rw [← buffered_dropBefore]
  rfl

theorem isSince_of_mem_fresh {g : ResultGroup} (h : g ∈ a.fresh expiry) : g.IsSince expiry := by
  simpa [fresh] using (List.mem_filter.mp h).2

theorem Ends.partitions (h : a.Ends attempts t testId expiry r) :
    a.Partitions attempts t testId expiry r := by
  have hkept : a.buffered.Perm (a.expired expiry ++ [] ++ a.fresh expiry) := by
    rw [List.append_nil]
    exact a.perm_expired_fresh expiry
  cases h with
  | nothing hpicked =>
    rw [picked_eq] at hpicked
    rw [dropBefore_eq]
    exact {
      untouched := rfl
      gone := fun g hg => isSince_of_mem_fresh hg
      idle := fun _ => ⟨rfl, rfl, rfl, rfl⟩
      delivered := fun _ hchosen => absurd hpicked hchosen
      failed := fun hchosen => absurd hpicked hchosen
      divided := hkept }
  | unrendered hpicked render =>
    rw [picked_eq] at hpicked render
    rw [dropBefore_eq]
    exact {
      untouched := rfl
      gone := fun g hg => isSince_of_mem_fresh hg
      idle := fun hchosen => absurd hchosen hpicked
      delivered := fun n _ hrender => absurd (render.symm.trans hrender) (by simp)
      failed := fun _ _ => ⟨rfl, rfl, rfl⟩
      divided := hkept }
  | refused n hpicked render attempt =>
    rw [picked_eq] at hpicked render
    rw [dropBefore_eq] at attempt ⊢
    exact {
      untouched := rfl
      gone := fun g hg => isSince_of_mem_fresh hg
      idle := fun hchosen => absurd hchosen hpicked
      delivered := fun n' _ hrender haccept => by
        cases render.symm.trans hrender
        exact absurd (haccept.symm.trans attempt) (by decide)
      failed := fun _ _ => ⟨rfl, rfl, rfl⟩
      divided := hkept }
  | delivered n hpicked render attempt =>
    rw [picked_eq] at hpicked render
    rw [dropBefore_eq] at attempt ⊢
    rw [filter_fresh]
    exact {
      untouched := rfl
      gone := fun g hg => isSince_of_mem_fresh
        ((a.perm_chosen_others expiry testId).symm.subset (List.mem_append_right _ hg))
      idle := fun hchosen => absurd hchosen hpicked
      delivered := fun n' _ hrender _ => by
        cases render.symm.trans hrender
        exact ⟨rfl, rfl, rfl, rfl⟩
      failed := fun _ hrefuse => absurd (attempt.symm.trans (hrefuse n render)) (by decide)
      divided := by
        rw [List.append_assoc]
        exact (a.perm_expired_fresh expiry).trans
          ((a.perm_chosen_others expiry testId).append_left _) }

/-- A run ends unless the retention leads out of the calendar, and then divides the buffer. -/
theorem run_partitions (a : Action) (attempts : Attempts) (t : Instant) (testId : Option String) :
    (a.expiry? t = none → a.run attempts t testId = .error .outOfCalendar) ∧
      ∀ expiry, a.expiry? t = some expiry →
        ∃ r, a.run attempts t testId = .ok r ∧ a.Partitions attempts t testId expiry r := by
  constructor
  · intro h
    rw [run_eq, expire?, h]
    rfl
  · intro expiry h
    obtain ⟨r, hr⟩ := exists_run h attempts testId
    obtain ⟨expiry', h', hends⟩ := run_ends hr
    cases h.symm.trans h'
    exact ⟨r, hr, hends.partitions⟩

def inMay (testId : String) (day : Nat) : ResultGroup :=
  [{ level := 0
     leftValue := 1
     rightValue := 0
     message := "River high"
     timestamp := .ofDate ⟨2006, 5, day⟩ 0
     testId }]

/-- The groups of two tests in turn, the first of them from before the ten days that are kept. -/
def tenDaysOfTwoTests : Action where
  id := "ops"
  name := "Ops log"
  schedule := { base := { format := "HH:mm", hour := some 6, minute := some 0 }, interval := .oneDay }
  retention := { base := .day, multiplier := 10 }
  wording := { subject := "Rivers", body := "See the log." }
  channel := .log
  buffered := [inMay "south" 1, inMay "north" 17, inMay "south" 18, inMay "north" 19]

theorem run_partitions_twoTests :
    let now := Instant.ofDate ⟨2006, 5, 20⟩ 0
    let accept : Attempts := fun _ _ => true
    ∃ expiry r, tenDaysOfTwoTests.expiry? now = some expiry ∧
      tenDaysOfTwoTests.run accept now (some "south") = .ok r ∧
      tenDaysOfTwoTests.Partitions accept now (some "south") expiry r ∧
      r.sent.isSome = true ∧ r.action.buffered.map (·.testId?) = [some "north", some "north"] := by
  intro now accept
  have hexpiry : tenDaysOfTwoTests.expiry? now = some (.ofDate ⟨2006, 5, 10⟩ 0) := by decide +kernel
  obtain ⟨r, hr, hpartitions⟩ :=
    (run_partitions tenDaysOfTwoTests accept now (some "south")).2 _ hexpiry
  have hshown : (tenDaysOfTwoTests.run accept now (some "south")).toOption.map
      (fun r => (r.sent.isSome, r.action.buffered.map (·.testId?))) =
        some (true, [some "north", some "north"]) := by decide +kernel
  rw [hr] at hshown
  simp only [Except.toOption, Option.map_some, Option.some.injEq, Prod.mk.injEq] at hshown
  exact ⟨_, r, hexpiry, hr, hpartitions, hshown.1, hshown.2⟩

end Action
end SeriesAlarm
