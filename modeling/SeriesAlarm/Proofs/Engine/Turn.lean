import SeriesAlarm.Proofs.Engine.Tick
import SeriesAlarm.Proofs.Rule.Uninterrupted

/-!
# Turns

While the cancel flag stays down, a tick takes one turn for each test, and what becomes of a test in
its turn depends on nothing but the test. The progress of a tick is the sum of its turns: what they
leave of the tests, what they append to the buffers and what they count.
-/

namespace SeriesAlarm

/-- What became of a test in a tick. -/
inductive Test.Outcome
  | outOfSeason
  | notDue
  | ran (pass : Pass)

/-- The turn of one test: the test after it, and what became of it. -/
structure Test.Turn where
  test : Test
  outcome : Outcome

namespace TickReport

def join (r r' : TickReport) : TickReport where
  testsRun := r.testsRun + r'.testsRun
  outOfSeason := r.outOfSeason + r'.outOfSeason
  positive := r.positive + r'.positive
  groupsForwarded := r.groupsForwarded + r'.groupsForwarded
  failures := r.failures ++ r'.failures
  deliveries := r.deliveries ++ r'.deliveries
  cancelled := r.cancelled || r'.cancelled

@[simp] theorem join_empty (r : TickReport) : r.join {} = r := by
  simp [join]

@[simp] theorem empty_join (r : TickReport) : TickReport.join {} r = r := by
  simp [join]

theorem join_assoc (r r' r'' : TickReport) : (r.join r').join r'' = r.join (r'.join r'') := by
  simp [join, Nat.add_assoc, Bool.or_assoc]

def total (rs : List TickReport) : TickReport := rs.foldr join {}

@[simp] theorem total_nil : total [] = {} := rfl

@[simp] theorem total_cons (r : TickReport) (rs : List TickReport) :
    total (r :: rs) = r.join (total rs) := rfl

theorem total_append (rs rs' : List TickReport) :
    total (rs ++ rs') = (total rs).join (total rs') := by
  induction rs with
  | nil => simp
  | cons r rs ih => rw [List.cons_append, total_cons, ih, total_cons, join_assoc]

theorem cancelled_total {rs : List TickReport} (h : ∀ r ∈ rs, r.cancelled = false) :
    (total rs).cancelled = false := by
  induction rs with
  | nil => rfl
  | cons r rs ih =>
    have hr := h r List.mem_cons_self
    have hrs := ih fun r' hr' => h r' (List.mem_cons_of_mem r hr')
    simp [join, hr, hrs]

end TickReport

namespace Action

/-- What a group leaves in the buffer: the results up to the cutoff as one group, unless there is
none. -/
def taken (a : Action) (g : ResultGroup) : List ResultGroup :=
  if (g.upTo a.cutoff).isEmpty then [] else [g.upTo a.cutoff]

theorem taken_of_mem_taken {a : Action} {g g' : ResultGroup} (h : g' ∈ a.taken g) :
    a.taken g' = [g'] := by
  unfold taken at h
  split at h
  · cases h
  · next hsome =>
    rw [List.mem_singleton.mp h]
    have hagain : (g.upTo a.cutoff).upTo a.cutoff = g.upTo a.cutoff := by
      simp [ResultGroup.upTo, List.filter_filter]
    rw [taken, hagain, if_neg hsome]

def receive (a : Action) (groups : List ResultGroup) : Action :=
  { a with buffered := a.buffered ++ groups }

@[simp] theorem receive_nil (a : Action) : a.receive [] = a := by
  simp [receive]

@[simp] theorem receive_receive (a : Action) (groups more : List ResultGroup) :
    (a.receive groups).receive more = a.receive (groups ++ more) := by
  simp [receive]

theorem canRun_receive (a : Action) (groups : List ResultGroup) (t : Instant) :
    (a.receive groups).CanRun t ↔ a.CanRun t := Iff.rfl

theorem addResults_eq (a : Action) (g : ResultGroup) : a.addResults g = a.receive (a.taken g) := by
  change (if (g.upTo a.cutoff).isEmpty then a else a.receive [g.upTo a.cutoff]) = _
  unfold taken
  split
  · rw [receive_nil]
  · rfl

theorem foldl_addResults_eq (a : Action) (groups : List ResultGroup) :
    groups.foldl Action.addResults a = a.receive (groups.flatMap a.taken) := by
  induction groups generalizing a with
  | nil => rw [List.foldl_nil, List.flatMap_nil, receive_nil]
  | cons g groups ih =>
    rw [List.foldl_cons, ih, addResults_eq, receive_receive, List.flatMap_cons]
    rfl

end Action

namespace Dispatcher

/-- The groups that the action takes when groups are handed to the actions with the given ids, each
group to all of them in turn. -/
def share (ids : List String) (groups : List ResultGroup) (a : Action) : List ResultGroup :=
  groups.flatMap fun g => (ids.filter (· = a.id)).flatMap fun _ => a.taken g

theorem taken_of_mem_share {ids : List String} {groups : List ResultGroup} {a : Action}
    {g : ResultGroup} (h : g ∈ share ids groups a) : a.taken g = [g] := by
  obtain ⟨whole, -, h⟩ := List.mem_flatMap.mp h
  obtain ⟨id, -, h⟩ := List.mem_flatMap.mp h
  exact Action.taken_of_mem_taken h

theorem foldl_forward (d : Dispatcher) (ids : List String) (g : ResultGroup) :
    ids.foldl (fun d id => Dispatcher.forward d id g) d =
      d.map fun a => a.receive ((ids.filter (· = a.id)).flatMap fun _ => a.taken g) := by
  induction ids generalizing d with
  | nil => simp
  | cons id ids ih =>
    rw [List.foldl_cons, ih, forward, modify, List.map_map]
    refine List.map_congr_left fun a _ => ?_
    by_cases hid : id = a.id
    · simp [hid, Action.addResults_eq, Action.receive, Action.taken]
    · simp [hid, Ne.symm hid]

/-- Handing on changes every action by itself. -/
theorem forwardAll_eq_map (d : Dispatcher) (ids : List String) (groups : List ResultGroup) :
    d.forwardAll ids groups = d.map fun a => a.receive (share ids groups a) := by
  induction groups generalizing d with
  | nil => simp [forwardAll, share]
  | cons g groups ih =>
    change forwardAll (ids.foldl (fun d id => Dispatcher.forward d id g) d) ids groups = _
    rw [ih, foldl_forward, List.map_map]
    refine List.map_congr_left fun a _ => ?_
    simp [share, Action.receive, Action.taken]

end Dispatcher

namespace Test.Turn

def handed (turn : Turn) : List ResultGroup :=
  match turn.outcome with
  | .ran pass => pass.handed
  | _ => []

def share (turn : Turn) (a : Action) : List ResultGroup :=
  Dispatcher.share turn.test.actions turn.handed a

def reads (turn : Turn) : Nat :=
  match turn.outcome with
  | .ran pass => 1 + pass.reads
  | _ => 1

def report (turn : Turn) : TickReport :=
  match turn.outcome with
  | .outOfSeason => { outOfSeason := 1 }
  | .notDue => {}
  | .ran pass => Engine.Progress.note { testsRun := 1 } turn.test.id pass.result

theorem share_of_handed_nil {turn : Turn} (h : turn.handed = []) (a : Action) :
    turn.share a = [] := by
  rw [share, h]
  rfl

theorem cancelled_report (turn : Turn) : turn.report.cancelled = false := by
  unfold report Engine.Progress.note
  split
  · rfl
  · rfl
  · split
    · split <;> rfl
    · rfl

end Test.Turn

namespace Test

/-- The test runs a pass in a tick. -/
structure RunsAt (s : Test) (now : Instant) : Prop where
  season : s.inSeason now = true
  due : s.isDue? now = some true

theorem not_runsAt_of_inSeason {s : Test} {now : Instant} (h : s.inSeason now = false) :
    ¬ s.RunsAt now := by
  rintro ⟨season, -⟩
  rw [h] at season
  cases season

theorem not_runsAt_of_isDue? {s : Test} {now : Instant} (h : s.isDue? now = some false) :
    ¬ s.RunsAt now := by
  rintro ⟨-, due⟩
  rw [h] at due
  cases due

/-- What a tick does with a test while the flag is down. -/
def turn (source : Source) (now : Instant) (s : Test) : Except Fault Turn := do
  if !s.inSeason now then return { test := s, outcome := .outOfSeason }
  if !(← orFault .outOfCalendar (s.isDue? now)) then return { test := s, outcome := .notDue }
  let pass ← s.pass source .down now
  let next ← orFault .outOfCalendar (pass.test.advance? now)
  return { test := next, outcome := .ran pass }

theorem turn_of_runs {source : Source} {now : Instant} {s : Test} (h : s.RunsAt now) :
    s.turn source now = s.pass source .down now >>= fun pass =>
      (orFault .outOfCalendar (pass.test.advance? now)).map fun next =>
        { test := next, outcome := .ran pass } := by
  have hdue : orFault .outOfCalendar (s.isDue? now) = .ok true := orFault_eq_ok.mpr h.due
  unfold turn
  rw [h.season, hdue]
  change s.pass source .down now >>= _ = _
  refine congrArg _ (funext fun pass => ?_)
  cases pass.test.advance? now <;> rfl

theorem turn_of_not_runs {source : Source} {now : Instant} {s : Test} (h : ¬ s.RunsAt now) :
    s.turn source now = .ok {
      test := s, outcome := if s.inSeason now then .notDue else .outOfSeason } := by
  obtain ⟨due, hdue⟩ := Option.isSome_iff_exists.mp (s.schedule.isSome_isDue? now)
  have hdue' : orFault .outOfCalendar (s.isDue? now) = .ok due := orFault_eq_ok.mpr hdue
  unfold turn
  rw [hdue']
  cases hseason : s.inSeason now with
  | false => rfl
  | true =>
    cases due with
    | false => rfl
    | true => exact absurd ⟨hseason, hdue⟩ h

/-- What the turn of a test comes to. -/
inductive Takes (source : Source) (now : Instant) (s : Test) : Turn → Prop
  | outOfSeason (season : s.inSeason now = false) :
      Takes source now s { test := s, outcome := .outOfSeason }
  | notDue (season : s.inSeason now = true) (due : s.isDue? now = some false) :
      Takes source now s { test := s, outcome := .notDue }
  | ran (runs : s.RunsAt now) (pass : Pass) (hpass : s.pass source .down now = .ok pass)
      (next : Test) (advance : pass.test.advance? now = some next) :
      Takes source now s { test := next, outcome := .ran pass }

theorem turn_eq_ok_iff {source : Source} {now : Instant} {s : Test} {turn : Turn} :
    s.turn source now = .ok turn ↔ s.Takes source now turn := by
  constructor
  · intro h
    unfold Test.turn at h
    split at h
    · next hseason =>
      cases h
      exact .outOfSeason (by simpa using hseason)
    next hseason =>
    have hseason : s.inSeason now = true := by simpa using hseason
    obtain ⟨due, hdue, h⟩ := bind_eq_ok.mp h
    have hdue := orFault_eq_ok.mp hdue
    split at h
    · next hearly =>
      cases h
      rw [show due = false by simpa using hearly] at hdue
      exact .notDue hseason hdue
    next hlate =>
    rw [show due = true by simpa using hlate] at hdue
    obtain ⟨pass, hpass, h⟩ := bind_eq_ok.mp h
    obtain ⟨next, hnext, h⟩ := bind_eq_ok.mp h
    cases h
    exact .ran ⟨hseason, hdue⟩ pass hpass next (orFault_eq_ok.mp hnext)
  · rintro (hseason | ⟨hseason, hdue⟩ | ⟨⟨hseason, hdue⟩, pass, hpass, next, hnext⟩)
    · simp only [Test.turn, hseason]
      rfl
    · simp only [Test.turn, hseason, hdue]
      rfl
    · simp only [Test.turn, hseason, Bool.not_true, Bool.false_eq_true, if_false]
      refine bind_eq_ok.mpr ⟨true, orFault_eq_ok.mpr hdue, bind_eq_ok.mpr ⟨pass, hpass, ?_⟩⟩
      exact bind_eq_ok.mpr ⟨next, orFault_eq_ok.mpr hnext, rfl⟩

theorem sameRule_turn {source : Source} {now : Instant} {s : Test} {turn : Turn}
    (h : s.turn source now = .ok turn) :
    turn.test = { s with
      root := turn.test.root, groups := turn.test.groups, positive := turn.test.positive
      schedule := turn.test.schedule } := by
  cases turn_eq_ok_iff.mp h with
  | outOfSeason => rfl
  | notDue => rfl
  | ran runs pass hpass next advance =>
    have hrule := pass_sameRule hpass
    obtain ⟨schedule, -, rfl⟩ := Option.map_eq_some_iff.mp advance
    dsimp only
    unfold SameRule at hrule
    rw [hrule]

theorem actions_turn {source : Source} {now : Instant} {s : Test} {turn : Turn}
    (h : s.turn source now = .ok turn) : turn.test.actions = s.actions := by
  rw [sameRule_turn h]

end Test

namespace Engine

namespace Progress

def add (p : Progress) (turn : Test.Turn) : Progress where
  done := p.done ++ [turn.test]
  actions := p.actions.map fun a => a.receive (turn.share a)
  report := p.report.join turn.report
  reads := p.reads + turn.reads

theorem note_join (r : TickReport) (id : String) (result : Except PassError PassReport) :
    note { r with testsRun := r.testsRun + 1 } id result =
      r.join (note { testsRun := 1 } id result) := by
  unfold note
  cases result with
  | error e => simp [TickReport.join]
  | ok report =>
    dsimp only
    split <;> simp [TickReport.join]

theorem add_of_handed_nil (p : Progress) {turn : Test.Turn} (h : turn.handed = []) :
    p.add turn = { p.keep turn.test with
      report := p.report.join turn.report, reads := p.reads + turn.reads } := by
  simp [add, keep, turn.share_of_handed_nil h]

theorem close_down {source : Source} {now : Instant} {s : Test} {pass : Pass}
    (h : s.pass source .down now = .ok pass) (p : Progress) :
    p.close now s pass =
      (orFault .outOfCalendar (pass.test.advance? now)).map fun next =>
        p.add { test := next, outcome := .ran pass } := by
  have hresult := Test.pass_down_ne_cancelled h
  have hrule := Test.pass_sameRule h
  have hid : pass.test.id = s.id := by rw [hrule]
  have hactions : pass.test.actions = s.actions := by rw [hrule]
  unfold close
  dsimp only
  split
  · next hcancelled => exact absurd hcancelled hresult
  · cases hnext : pass.test.advance? now with
    | none => rfl
    | some next =>
      obtain ⟨schedule, -, rfl⟩ := Option.map_eq_some_iff.mp hnext
      simp [orFault, Except.map, add, Test.Turn.share, Test.Turn.handed, Test.Turn.report,
        Test.Turn.reads, Dispatcher.forwardAll_eq_map, hid, hactions, note_join p.report,
        Nat.add_assoc, pure, Except.pure, bind, Except.bind]

theorem passOver_down {p : Progress} (going : p.report.cancelled = false) (now : Instant)
    (s : Test) : p.passOver .down now s =
      p.add { test := s, outcome := if s.inSeason now then .notDue else .outOfSeason } := by
  have hdown : CancelReadings.down p.reads = false := rfl
  unfold passOver
  rw [going, hdown]
  cases s.inSeason now with
  | false =>
    rw [add_of_handed_nil p rfl]
    simp [Test.Turn.report, Test.Turn.reads, TickReport.join, keep]
  | true =>
    rw [add_of_handed_nil p rfl]
    simp [Test.Turn.report, Test.Turn.reads, keep]

/-- While the flag is down, taking up a test is adding its turn. -/
theorem take_down {source : Source} {now : Instant} {p : Progress} {s : Test}
    (going : p.report.cancelled = false) :
    p.take source .down now s = (s.turn source now).map p.add := by
  by_cases hruns : s.RunsAt now
  · rw [take_of_runs ⟨going, rfl, hruns.season, hruns.due⟩, Test.turn_of_runs hruns]
    rw [CancelReadings.down_after]
    cases hpass : s.pass source .down now with
    | error fault => rfl
    | ok pass =>
      change p.close now s pass = (Except.map _ _).map p.add
      rw [close_down hpass]
      cases pass.test.advance? now <;> rfl
  · rw [take_of_not_runs fun h => hruns ⟨h.season, h.due⟩, Test.turn_of_not_runs hruns]
    exact congrArg Except.ok (passOver_down going now s)

def ofTurns (d : Dispatcher) (turns : List Test.Turn) : Progress where
  done := turns.map (·.test)
  actions := d.map fun a => a.receive (turns.flatMap (·.share a))
  report := .total (turns.map (·.report))
  reads := (turns.map (·.reads)).sum

theorem cancelled_ofTurns (d : Dispatcher) (turns : List Test.Turn) :
    (ofTurns d turns).report.cancelled = false := by
  refine TickReport.cancelled_total fun r hr => ?_
  obtain ⟨turn, -, rfl⟩ := List.mem_map.mp hr
  exact turn.cancelled_report

theorem foldl_add (d : Dispatcher) (turns more : List Test.Turn) :
    more.foldl add (ofTurns d turns) = ofTurns d (turns ++ more) := by
  induction more generalizing turns with
  | nil => simp
  | cons turn more ih =>
    have hadd : (ofTurns d turns).add turn = ofTurns d (turns ++ [turn]) := by
      simp only [add, ofTurns, List.map_append, List.map_cons, List.map_nil, List.map_map,
        List.flatMap_append, List.flatMap_cons, List.flatMap_nil, List.append_nil,
        TickReport.total_append, TickReport.total_cons, TickReport.total_nil,
        TickReport.join_empty, List.sum_append, List.sum_cons, List.sum_nil, Nat.add_zero]
      congr 1
      refine List.map_congr_left fun a _ => ?_
      exact a.receive_receive _ _
    rw [List.foldl_cons, hadd, ih, List.append_assoc, List.singleton_append]

theorem foldlM_take_down {source : Source} {now : Instant} {p : Progress} {tests : List Test}
    (going : p.report.cancelled = false) :
    tests.foldlM (take source .down now) p =
      (tests.mapM (Test.turn source now)).map fun turns => turns.foldl add p := by
  induction tests generalizing p with
  | nil => rfl
  | cons s rest ih =>
    rw [List.foldlM_cons, List.mapM_cons, take_down going]
    cases hturn : s.turn source now with
    | error fault => rfl
    | ok turn =>
      have hgoing : (p.add turn).report.cancelled = false := by
        simp [add, TickReport.join, going, turn.cancelled_report]
      change rest.foldlM (take source .down now) (p.add turn) = _
      rw [ih hgoing]
      cases rest.mapM (Test.turn source now) <;> rfl

end Progress

abbrev Turned (source : Source) (now : Instant) : List Test → List Test.Turn → Prop :=
  List.Forall₂ fun s turn => s.turn source now = .ok turn

/-- The runs of actions, each with what the turns append to its buffer. -/
abbrev Ran (attempts : Attempts) (now : Instant) (turns : List Test.Turn) :
    List Action → List Dispatcher.Step → Prop :=
  List.Forall₂ fun a step =>
    Dispatcher.runOne attempts now (a.receive (turns.flatMap (·.share a))) = .ok step

theorem exists_ran_iff {attempts : Attempts} {now : Instant} {turns : List Test.Turn}
    {actions : List Action} :
    (∃ steps, Ran attempts now turns actions steps) ↔ ∀ a ∈ actions, a.CanRun now := by
  rw [exists_forall₂_iff]
  refine forall₂_congr fun a _ => ?_
  rw [Dispatcher.exists_runOne_iff, Action.canRun_receive]

def gather (e : Engine) (source : Source) (now : Instant) : Except Fault Progress :=
  e.tests.foldlM (Progress.take source .down now) { actions := e.actions }

theorem gather_eq (e : Engine) (source : Source) (now : Instant) :
    e.gather source now =
      (e.tests.mapM (Test.turn source now)).map (Progress.ofTurns e.actions) := by
  have hstart : ({ actions := e.actions } : Progress) = Progress.ofTurns e.actions [] := by
    simp [Progress.ofTurns]
  rw [gather, Progress.foldlM_take_down rfl]
  simp only [hstart, Progress.foldl_add, List.nil_append]

theorem gather_eq_ok_iff {e : Engine} {source : Source} {now : Instant} {p : Progress} :
    e.gather source now = .ok p ↔
      ∃ turns, Turned source now e.tests turns ∧ p = .ofTurns e.actions turns := by
  rw [gather_eq, map_eq_ok]
  simp only [mapM_eq_ok, eq_comm (a := p)]

def finished (turns : List Test.Turn) (steps : List Dispatcher.Step) : Tick where
  engine := { tests := turns.map (·.test), actions := Dispatcher.after steps }
  report := { TickReport.total (turns.map (·.report)) with deliveries := Dispatcher.results steps }
  sent := Dispatcher.deliveries steps

/-- While the flag is down, a tick comes to an end if each test takes its turn and each action that
is due can run with what the turns append to its buffer. -/
theorem tick_down_eq_ok_iff {e : Engine} {source : Source} {attempts : Attempts} {now : Instant}
    {t : Tick} :
    e.tick source .down attempts now = .ok t ↔
      ∃ turns steps, Turned source now e.tests turns ∧ Ran attempts now turns e.actions steps ∧
        t = finished turns steps := by
  have hruns (turns : List Test.Turn) (steps : List Dispatcher.Step) :
      (Progress.ofTurns e.actions turns).actions.runDue attempts now = .ok steps ↔
        Ran attempts now turns e.actions steps := by
    rw [Dispatcher.runDue, mapM_eq_ok]
    exact List.forall₂_map_left_iff
  constructor
  · intro h
    obtain ⟨p, hp, h⟩ := bind_eq_ok.mp h
    obtain ⟨turns, hturns, rfl⟩ := gather_eq_ok_iff.mp hp
    rw [Progress.cancelled_ofTurns] at h
    obtain ⟨steps, hsteps, h⟩ := bind_eq_ok.mp h
    cases h
    exact ⟨turns, steps, hturns, (hruns turns steps).mp hsteps, rfl⟩
  · rintro ⟨turns, steps, hturns, hsteps, rfl⟩
    refine bind_eq_ok.mpr ⟨_, gather_eq_ok_iff.mpr ⟨turns, hturns, rfl⟩, ?_⟩
    rw [Progress.cancelled_ofTurns]
    exact bind_eq_ok.mpr ⟨steps, (hruns turns steps).mpr hsteps, rfl⟩

end Engine
end SeriesAlarm
