import SeriesAlarm.Proofs.Engine.Tick
import SeriesAlarm.Proofs.Rule.Built

/-!
# The journal of an engine

What becomes of buffered groups is written down entry by entry: a group is handed to an action, an
action runs, or all actions are replaced. The main statements say that a tick and a reload change
the actions of an engine exactly as their entries do, one after another.
-/

namespace SeriesAlarm

/-- A group was handed to the action with an id, which has a cutoff; an action ran at an instant and
delivered a notification or none; a new rule set came with its actions. -/
inductive Entry
  | handed (id : String) (cutoff : Option Nat) (group : ResultGroup)
  | ran (action : Action) (now : Instant) (sent : Option Notification)
  | replaced (actions : Dispatcher)

abbrev Journal := List Entry

theorem Action.cutoff_addResults (a : Action) (g : ResultGroup) :
    (a.addResults g).cutoff = a.cutoff := by
  simp only [Action.addResults]
  split <;> rfl

namespace Dispatcher

def cutoff (d : Dispatcher) (id : String) : Option Nat := (d.find? id).bind (·.cutoff)

/-- How one entry changes the actions. -/
inductive Changes : Dispatcher → Entry → Dispatcher → Prop
  | handed {d : Dispatcher} {id : String} {g : ResultGroup} (known : id ∈ d.ids)
      (explains : ∃ test t, g.Explains test t) :
      Changes d (.handed id (d.cutoff id) g) (d.forward id g)
  | ran {before after : List Action} {a next : Action} {now expiry : Instant}
      {sent : Option Notification} (hexpiry : a.expiry? now = some expiry)
      (hid : next.id = a.id)
      (left : next.buffered = if sent.isSome then [] else (a.dropBefore expiry).buffered)
      (render : ∀ n, sent = some n →
        a.wording.render a.sender (a.dropBefore expiry).buffered now = some n) :
      Changes (before ++ a :: after) (.ran a now sent) (before ++ next :: after)
  | replaced {e : Engine} {fresh : Dispatcher} (sorted : fresh.Sorted)
      (empty : ∀ a ∈ fresh, a.buffered = []) :
      Changes e.actions (.replaced fresh) (fresh.map e.keepAction)

/-- How a run of entries changes the actions. -/
inductive Follows : Dispatcher → Journal → Dispatcher → Prop
  | nil (d : Dispatcher) : Follows d [] d
  | cons {d d' d'' : Dispatcher} {x : Entry} {j : Journal} (head : Changes d x d')
      (tail : Follows d' j d'') : Follows d (x :: j) d''

theorem Follows.append {d d' d'' : Dispatcher} {j j' : Journal} (h : Follows d j d')
    (h' : Follows d' j' d'') : Follows d (j ++ j') d'' := by
  induction h with
  | nil d => exact h'
  | cons head tail ih => exact .cons head (ih h')

section Forward

theorem cutoff_forward (d : Dispatcher) (id i : String) (g : ResultGroup) :
    (d.forward id g).cutoff i = d.cutoff i := by
  have hid : ((fun a : Action => a.id == i) ∘ fun a => if a.id = id then a.addResults g else a) =
      fun a => a.id == i := by
    funext a
    simp only [Function.comp_apply]
    split <;> simp
  simp only [cutoff, find?, forward, modify, List.find?_map, hid, Option.bind_map]
  congr 1
  funext a
  simp only [Function.comp_apply]
  split
  · exact a.cutoff_addResults g
  · rfl

/-- The entries of groups that are handed, each in turn, to the actions with the given ids. -/
def handings (cutoff : String → Option Nat) (ids : List String) (groups : List ResultGroup) :
    Journal :=
  groups.flatMap fun g => ids.map fun id => .handed id (cutoff id) g

variable {cutoff : String → Option Nat} {ids : List String}

theorem forwardEach_follows {d : Dispatcher} {g : ResultGroup} (hcutoff : ∀ i, d.cutoff i = cutoff i)
    (hknown : ∀ i ∈ ids, i ∈ d.ids) (hg : ∃ test t, g.Explains test t) :
    Follows d (ids.map fun id => .handed id (cutoff id) g)
        (ids.foldl (fun d id => d.forward id g) d) ∧
      (ids.foldl (fun d id => d.forward id g) d).ids = d.ids ∧
      ∀ i, Dispatcher.cutoff (ids.foldl (fun d id => d.forward id g) d) i = cutoff i := by
  induction ids generalizing d with
  | nil => exact ⟨.nil d, rfl, hcutoff⟩
  | cons id ids ih =>
    have hids := ids_forward d id g
    obtain ⟨hfollows, hids', hcutoff'⟩ := ih
      (fun i => (cutoff_forward d id i g).trans (hcutoff i))
      (fun i hi => hids ▸ hknown i (List.mem_cons_of_mem id hi))
    have hhead : Changes d (.handed id (cutoff id) g) (d.forward id g) := by
      rw [← hcutoff id]
      exact .handed (hknown id List.mem_cons_self) hg
    exact ⟨.cons hhead hfollows, hids'.trans hids, hcutoff'⟩

theorem forwardAll_follows {d : Dispatcher} {groups : List ResultGroup}
    (hcutoff : ∀ i, d.cutoff i = cutoff i) (hknown : ∀ i ∈ ids, i ∈ d.ids)
    (hgroups : ∀ g ∈ groups, ∃ test t, g.Explains test t) :
    Follows d (handings cutoff ids groups) (d.forwardAll ids groups) ∧
      (d.forwardAll ids groups).ids = d.ids := by
  induction groups generalizing d with
  | nil => exact ⟨.nil d, rfl⟩
  | cons g groups ih =>
    obtain ⟨hfollows, hids, hcutoff'⟩ :=
      forwardEach_follows hcutoff hknown (hgroups g List.mem_cons_self)
    obtain ⟨hrest, hids'⟩ := ih hcutoff' (fun i hi => hids.symm ▸ hknown i hi)
      (fun g' hg' => hgroups g' (List.mem_cons_of_mem g hg'))
    exact ⟨hfollows.append hrest, hids'.trans hids⟩

end Forward

def runEntries (now : Instant) : Dispatcher → List Step → Journal
  | a :: d, step :: steps =>
    (if step.result.isSome then [.ran a now step.sent] else []) ++ runEntries now d steps
  | _, _ => []

theorem Turns.changes {attempts : Attempts} {now : Instant} {a : Action} {step : Step}
    (h : Turns attempts now a step) (before after : List Action) :
    Follows (before ++ a :: after)
        (if step.result.isSome then [.ran a now step.sent] else [])
        (before ++ step.action :: after) ∧
      step.action.id = a.id := by
  cases h with
  | inactive => exact ⟨.nil _, rfl⟩
  | early => exact ⟨.nil _, rfl⟩
  | ran active due done next run advance =>
    obtain ⟨schedule, -, rfl⟩ := Option.map_eq_some_iff.mp advance
    obtain ⟨expiry, hexpiry, hends⟩ := Action.run_ends run
    have hpicked : a.picked none expiry = (a.dropBefore expiry).buffered := by
      simp [Action.picked, Action.isSelected]
    have hid : done.action.id = a.id := by cases hends <;> rfl
    have hleft : done.action.buffered =
        if done.sent.isSome then [] else (a.dropBefore expiry).buffered := by
      cases hends with
      | delivered n => simp [Action.isSelected]
      | _ => rfl
    have hrender : ∀ n, done.sent = some n →
        a.wording.render a.sender (a.dropBefore expiry).buffered now = some n := by
      intro n hn
      cases hends with
      | delivered n' _ render =>
        cases hn
        rw [← hpicked]
        exact render
      | _ => cases hn
    have hchange : Changes (before ++ a :: after) (.ran a now done.sent)
        (before ++ { done.action with schedule } :: after) := .ran hexpiry hid hleft hrender
    exact ⟨.cons hchange (.nil _), hid⟩

theorem runDue_follows {attempts : Attempts} {now : Instant} {d : Dispatcher} {steps : List Step}
    (h : d.runDue attempts now = .ok steps) (before : List Action) :
    Follows (before ++ d) (runEntries now d steps) (before ++ Dispatcher.after steps) ∧
      (Dispatcher.after steps).ids = d.ids := by
  induction d generalizing before steps with
  | nil =>
    cases h
    exact ⟨.nil _, rfl⟩
  | cons a d ih =>
    obtain ⟨step, rest, hstep, hrest, rfl⟩ := runDue_cons h
    obtain ⟨hhead, hid⟩ := hstep.changes before d
    obtain ⟨htail, hids⟩ := ih hrest (before ++ [step.action])
    rw [List.append_assoc, List.append_assoc] at htail
    refine ⟨hhead.append htail, ?_⟩
    exact congrArg₂ List.cons hid hids

end Dispatcher

theorem Test.explains_of_handed {s : Test} {source : Source} {flag : CancelReadings}
    {anchor : Instant} {p : Pass} (h : s.pass source flag anchor = .ok p)
    (hs : s.root.isNode = true) : ∀ g ∈ p.handed, ∃ t, g.Explains s.id t := by
  intro g hg
  unfold Pass.handed at hg
  split at hg
  · obtain ⟨t, -, hg⟩ := (Test.pass_explains h hs).2.2 g hg
    exact ⟨t, hg⟩
  · cases hg

namespace Engine

/-- The actions are sorted, and every test is evaluated from an operator down and names actions that
are there. -/
structure Sound (e : Engine) : Prop where
  sorted : e.actions.Sorted
  tests : ∀ s ∈ e.tests, s.FitsIn e.actions.ids

namespace Progress

instance (flag : CancelReadings) (now : Instant) (p : Progress) (s : Test) :
    Decidable (p.Runs flag now s) :=
  decidable_of_iff
    (p.report.cancelled = false ∧ flag p.reads = false ∧ s.inSeason now = true ∧
      s.isDue? now = some true)
    ⟨fun ⟨going, down, season, due⟩ => ⟨going, down, season, due⟩,
      fun ⟨going, down, season, due⟩ => ⟨going, down, season, due⟩⟩

def entriesOf (source : Source) (flag : CancelReadings) (now : Instant) (p : Progress) (s : Test) :
    Journal :=
  if p.Runs flag now s then
    match s.pass source (flag.after (p.reads + 1)) now with
    | .ok pass => Dispatcher.handings p.actions.cutoff s.actions pass.handed
    | .error _ => []
  else []

def entries (source : Source) (flag : CancelReadings) (now : Instant) :
    Progress → List Test → Journal
  | _, [] => []
  | p, s :: rest =>
    p.entriesOf source flag now s ++
      match p.take source flag now s with
      | .ok next => entries source flag now next rest
      | .error _ => []

theorem take_follows {source : Source} {flag : CancelReadings} {now : Instant} {p p' : Progress}
    {s : Test} (h : p.take source flag now s = .ok p') (hs : s.FitsIn p.actions.ids) :
    Dispatcher.Follows p.actions (p.entriesOf source flag now s) p'.actions ∧
      p'.actions.ids = p.actions.ids ∧ ∃ s', p'.done = p.done ++ [s'] ∧ s'.FitsIn p.actions.ids := by
  have hidle (hnot : ¬ p.Runs flag now s) :
      Dispatcher.Follows p.actions (p.entriesOf source flag now s) p.actions := by
    rw [entriesOf, if_neg hnot]
    exact .nil _
  have hfits (pass : Pass) (hpass : s.pass source (flag.after (p.reads + 1)) now = .ok pass) :
      pass.test.FitsIn p.actions.ids := by
    obtain ⟨hrule, hroot, -⟩ := Test.pass_explains hpass hs.root
    refine ⟨hroot, ?_⟩
    rw [hrule]
    exact hs.actions
  cases take_takes h with
  | ended cancelled =>
    exact ⟨hidle fun hr => by simp [hr.going] at cancelled, rfl, s, rfl, hs⟩
  | raised _ up => exact ⟨hidle fun hr => by simp [hr.down] at up, rfl, s, rfl, hs⟩
  | outOfSeason _ _ season => exact ⟨hidle fun hr => by simp [hr.season] at season, rfl, s, rfl, hs⟩
  | early _ _ _ due => exact ⟨hidle fun hr => by simp [hr.due] at due, rfl, s, rfl, hs⟩
  | interrupted runs pass hpass result =>
    refine ⟨?_, rfl, pass.test, rfl, hfits pass hpass⟩
    have hnone : pass.handed = [] := by simp [Pass.handed, result, Except.toOption]
    simp only [entriesOf, if_pos runs, hpass, hnone]
    exact .nil _
  | ran runs pass hpass result next advance =>
    have hexplains : ∀ g ∈ pass.handed, ∃ test t, g.Explains test t := fun g hg =>
      ⟨s.id, Test.explains_of_handed hpass hs.root g hg⟩
    obtain ⟨hfollows, hids⟩ := Dispatcher.forwardAll_follows (d := p.actions) (fun _ => rfl)
      hs.actions hexplains
    obtain ⟨schedule, -, rfl⟩ := Option.map_eq_some_iff.mp advance
    refine ⟨?_, hids, _, rfl, (hfits pass hpass).root, (hfits pass hpass).actions⟩
    simp only [entriesOf, if_pos runs, hpass]
    exact hfollows

theorem takeAll_follows {source : Source} {flag : CancelReadings} {now : Instant} {p p' : Progress}
    {tests : List Test} (h : tests.foldlM (take source flag now) p = .ok p')
    (htests : ∀ s ∈ tests, s.FitsIn p.actions.ids) (hdone : ∀ s ∈ p.done, s.FitsIn p.actions.ids) :
    Dispatcher.Follows p.actions (entries source flag now p tests) p'.actions ∧
      p'.actions.ids = p.actions.ids ∧ ∀ s ∈ p'.done, s.FitsIn p.actions.ids := by
  induction tests generalizing p with
  | nil =>
    cases h
    exact ⟨.nil _, rfl, hdone⟩
  | cons s rest ih =>
    rw [List.foldlM_cons] at h
    obtain ⟨next, hnext, hrest⟩ := bind_eq_ok.mp h
    obtain ⟨hhead, hids, s', hs', hfits⟩ := take_follows hnext (htests s List.mem_cons_self)
    obtain ⟨htail, hids', hdone'⟩ := ih hrest
      (fun s hs => hids.symm ▸ htests s (List.mem_cons_of_mem _ hs))
      (fun r hr => by
        rw [hids]
        rw [hs'] at hr
        rcases List.mem_append.mp hr with hr | hr
        · exact hdone r hr
        · rw [List.mem_singleton.mp hr]
          exact hfits)
    refine ⟨?_, hids'.trans hids, fun r hr => hids ▸ hdone' r hr⟩
    simp only [entries, hnext]
    exact hhead.append htail

end Progress

/-- The entries of a tick: those of its tests, then those of the actions that run. -/
def journal (e : Engine) (source : Source) (flag : CancelReadings) (attempts : Attempts)
    (now : Instant) : Journal :=
  Progress.entries source flag now { actions := e.actions } e.tests ++
    match e.tests.foldlM (Progress.take source flag now) { actions := e.actions } with
    | .error _ => []
    | .ok p =>
      if p.report.cancelled then []
      else
        match p.actions.runDue attempts now with
        | .error _ => []
        | .ok steps => Dispatcher.runEntries now p.actions steps

theorem Sound.of_ids {e : Engine} {d : Dispatcher} {tests : List Test} (he : e.Sound)
    (hids : d.ids = e.actions.ids) (htests : ∀ s ∈ tests, s.FitsIn e.actions.ids) :
    Engine.Sound { tests, actions := d } := by
  refine ⟨?_, fun s hs => hids.symm ▸ htests s hs⟩
  change d.ids.Pairwise (· < ·)
  rw [hids]
  exact he.sorted

/-- A tick changes the actions as its entries do. -/
theorem tick_follows {e : Engine} {source : Source} {flag : CancelReadings} {attempts : Attempts}
    {now : Instant} {t : Tick} (h : e.tick source flag attempts now = .ok t) (he : e.Sound) :
    Dispatcher.Follows e.actions (e.journal source flag attempts now) t.engine.actions ∧
      t.engine.Sound := by
  obtain ⟨p, hp, h⟩ := tick_cases h
  obtain ⟨htests, hids, hdone⟩ := Progress.takeAll_follows hp he.tests (fun s hs => by cases hs)
  rcases h with ⟨hcancelled, rfl⟩ | ⟨hgoing, steps, hsteps, rfl⟩
  · refine ⟨?_, he.of_ids hids hdone⟩
    simp only [journal, hp, hcancelled, if_true, List.append_nil]
    exact htests
  · obtain ⟨hruns, hids'⟩ := Dispatcher.runDue_follows hsteps []
    refine ⟨?_, he.of_ids (hids'.trans hids) hdone⟩
    simp only [journal, hp, hgoing, hsteps, Bool.false_eq_true, if_false]
    exact htests.append hruns

theorem fitsIn_expandAll {tests : List Test} {identifiers : Except SourceError (List String)}
    {ids : List String} (htests : ∀ s ∈ tests, s.FitsIn ids) :
    ∀ s ∈ Wildcard.expandAll tests identifiers, s.FitsIn ids := by
  intro s hs
  rcases Wildcard.mem_expandAll hs with hs | ⟨s₀, hs₀, capture, rfl⟩
  · exact htests s hs
  · have hfits := htests s₀ hs₀
    exact ⟨(Tree.isNode_mapLeaves _ s₀.root).trans hfits.root, hfits.actions⟩

theorem sound_ofRuleSet {set : RuleSet} (hset : set.Built) (source : Source) :
    (ofRuleSet set source).Sound :=
  ⟨hset.sorted, fitsIn_expandAll hset.tests⟩

theorem id_keepAction (e : Engine) (a : Action) : (e.keepAction a).id = a.id := by
  have hfold (groups : List ResultGroup) : ∀ b : Action,
      (groups.foldl Action.addResults b).id = b.id := by
    induction groups with
    | nil => exact fun b => rfl
    | cons g groups ih => exact fun b => (ih _).trans (b.addResults_id g)
  unfold keepAction
  split
  · exact hfold _ _
  · rfl

/-- A reload replaces the actions, and is one entry. -/
theorem reload_changes {e : Engine} {set : RuleSet} (hset : set.Built) (source : Source) :
    Dispatcher.Changes e.actions (.replaced set.actions) (e.reload set source).actions ∧
      (e.reload set source).Sound := by
  refine ⟨.replaced hset.sorted hset.empty, ?_⟩
  have hids : Dispatcher.ids (set.actions.map e.keepAction) = set.actions.ids :=
    Dispatcher.ids_map e.id_keepAction
  have hsound := sound_ofRuleSet hset source
  refine hsound.of_ids hids fun s hs => ?_
  obtain ⟨s₀, hs₀, rfl⟩ := List.mem_map.mp hs
  have hfits := hsound.tests s₀ hs₀
  unfold keepTest
  split
  · exact ⟨hfits.root, hfits.actions⟩
  · exact hfits

end Engine
end SeriesAlarm
