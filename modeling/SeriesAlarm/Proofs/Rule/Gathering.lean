import SeriesAlarm.Proofs.Rule.CopyIds

/-!
# What becomes of documents

Every enabled document with an id of its own comes to one thing: a test, an action or an error. A rule
set is what its documents come to, taken together. Actions do not look at each other, and tests look at
the actions only when all of them are there, so the order of the documents leaves no trace.
-/

namespace SeriesAlarm

theorem Dispatcher.perm_set {d : Dispatcher} {a : Action} (h : a.id ∉ d.ids) :
    (d.set a).Perm (a :: d) := by
  induction d with
  | nil => exact .refl _
  | cons b bs ih =>
    have hne : a.id ≠ b.id := fun heq => h (heq ▸ List.mem_cons_self)
    have hrest : a.id ∉ Dispatcher.ids bs := fun hmem => h (List.mem_cons_of_mem b.id hmem)
    simp only [Dispatcher.set, if_neg hne]
    split
    · exact .refl _
    · exact ((ih hrest).cons b).trans (.swap a b bs)

theorem ActionDocument.id_build {env : Environment} {d : ActionDocument} {a : Action}
    (h : d.build env = .ok a) : a.id = d.metadata.id := by
  obtain ⟨schedule, retention, channel, -, -, -, -, rfl⟩ := build_cases h
  rfl

namespace RuleSet

/-- The ids under which something stands in a rule set, each as often as something does. -/
def places (set : RuleSet) : List String :=
  set.tests.map (·.id) ++ (set.actions.ids ++ set.errors.map (·.1))

@[simp] theorem places_empty : places {} = [] := rfl

def ofAction (env : Environment) (d : ActionDocument) : RuleSet :=
  match d.build env with
  | .ok a => { actions := [a] }
  | .error e => { errors := [(d.metadata.id, e)] }

def ofTest (known : Dispatcher) (d : TestDocument) : RuleSet :=
  match d.build known with
  | .ok s => { tests := [s] }
  | .error e => { errors := [(d.metadata.id, e)] }

theorem places_ofAction (env : Environment) (d : ActionDocument) :
    (ofAction env d).places = [d.metadata.id] := by
  unfold ofAction
  split
  · next a ha => simp [places, Dispatcher.ids, ActionDocument.id_build ha]
  · simp [places, Dispatcher.ids]

theorem places_ofTest (known : Dispatcher) (d : TestDocument) :
    (ofTest known d).places = [d.metadata.id] := by
  unfold ofTest
  split
  · next s hs => simp [places, Dispatcher.ids, TestDocument.id_build hs]
  · simp [places, Dispatcher.ids]

@[simp] theorem mem_tests_ofTest {known : Dispatcher} {d : TestDocument} {s : Test} :
    s ∈ (ofTest known d).tests ↔ d.build known = .ok s := by
  unfold ofTest
  split <;> simp [*, eq_comm]

@[simp] theorem actions_ofTest (known : Dispatcher) (d : TestDocument) :
    (ofTest known d).actions = [] := by
  unfold ofTest
  split <;> rfl

@[simp] theorem mem_errors_ofTest {known : Dispatcher} {d : TestDocument} {id : String}
    {e : BuildError} :
    (id, e) ∈ (ofTest known d).errors ↔ d.metadata.id = id ∧ d.build known = .error e := by
  unfold ofTest
  split <;> simp [*, eq_comm]

@[simp] theorem tests_ofAction (env : Environment) (d : ActionDocument) :
    (ofAction env d).tests = [] := by
  unfold ofAction
  split <;> rfl

@[simp] theorem mem_actions_ofAction {env : Environment} {d : ActionDocument} {a : Action} :
    a ∈ (ofAction env d).actions ↔ d.build env = .ok a := by
  unfold ofAction
  split <;> simp [*, eq_comm]

@[simp] theorem mem_errors_ofAction {env : Environment} {d : ActionDocument} {id : String}
    {e : BuildError} :
    (id, e) ∈ (ofAction env d).errors ↔ d.metadata.id = id ∧ d.build env = .error e := by
  unfold ofAction
  split <;> simp [*, eq_comm]

/-- The second set has what the first one has, and the parts besides. -/
structure Gains (set set' : RuleSet) (parts : List RuleSet) : Prop where
  tests : set'.tests = set.tests ++ parts.flatMap (·.tests)
  actions : set'.actions.Perm (parts.flatMap (·.actions) ++ set.actions)
  errors : set'.errors.Perm (parts.flatMap (·.errors) ++ set.errors)

theorem Gains.refl (set : RuleSet) : Gains set set [] :=
  ⟨(List.append_nil _).symm, .refl _, .refl _⟩

theorem Gains.trans {set set' set'' : RuleSet} {parts parts' : List RuleSet}
    (h : Gains set set' parts) (h' : Gains set' set'' parts') :
    Gains set set'' (parts ++ parts') where
  tests := by simp [h'.tests, h.tests]
  actions := by
    refine h'.actions.trans ((h.actions.append_left _).trans ?_)
    simpa using List.perm_append_comm_assoc _ _ _
  errors := by
    refine h'.errors.trans ((h.errors.append_left _).trans ?_)
    simpa using List.perm_append_comm_assoc _ _ _

theorem count_flatMap_places (id : String) (parts : List RuleSet) :
    (parts.flatMap places).count id = ((parts.flatMap (·.tests)).map (·.id)).count id +
      (((parts.flatMap (·.actions)).map (·.id)).count id +
        ((parts.flatMap (·.errors)).map (·.1)).count id) := by
  induction parts with
  | nil => rfl
  | cons part parts ih =>
    simp only [List.flatMap_cons, List.map_append, List.count_append, ih, places, Dispatcher.ids]
    omega

theorem Gains.places {set set' : RuleSet} {parts : List RuleSet} (h : Gains set set' parts) :
    set'.places.Perm (parts.flatMap places ++ set.places) := by
  refine List.perm_iff_count.mpr fun id => ?_
  have hactions := (h.actions.map (·.id)).count_eq id
  have herrors := (h.errors.map (·.1)).count_eq id
  simp only [List.map_append, List.count_append] at hactions herrors
  simp only [List.count_append, count_flatMap_places, RuleSet.places, Dispatcher.ids, h.tests,
    List.map_append, hactions, herrors]
  omega

theorem addError_of_notMem {set : RuleSet} {id : String} (h : id ∉ set.places) (e : BuildError) :
    set.addError id e = { set with errors := (id, e) :: set.errors } := by
  have hother : set.errors.filter (fun x => x.1 ≠ id) = set.errors := by
    refine List.filter_eq_self.mpr fun x hx => decide_eq_true fun heq => h ?_
    exact List.mem_append_right _ (List.mem_append_right _ (heq ▸ List.mem_map_of_mem hx))
  rw [addError, hother]

theorem gains_addAction {set : RuleSet} {d : ActionDocument} (h : d.metadata.id ∉ set.places)
    (env : Environment) : Gains set (set.addAction env d) [ofAction env d] := by
  cases hbuild : d.build env with
  | ok a =>
    have hfree : a.id ∉ set.actions.ids := fun hmem => by
      rw [ActionDocument.id_build hbuild] at hmem
      exact h (List.mem_append_right _ (List.mem_append_left _ hmem))
    simp only [addAction, ofAction, hbuild]
    exact ⟨(List.append_nil _).symm, Dispatcher.perm_set hfree, .refl _⟩
  | error e =>
    simp only [addAction, ofAction, hbuild, addError_of_notMem h]
    exact ⟨(List.append_nil _).symm, .refl _, .refl _⟩

theorem gains_addTest {set : RuleSet} {d : TestDocument} (h : d.metadata.id ∉ set.places) :
    Gains set (set.addTest d) [ofTest set.actions d] := by
  cases hbuild : d.build set.actions with
  | ok s =>
    simp only [addTest, ofTest, hbuild]
    exact ⟨rfl, .refl _, .refl _⟩
  | error e =>
    simp only [addTest, ofTest, hbuild, addError_of_notMem h]
    exact ⟨(List.append_nil _).symm, .refl _, .refl _⟩

section Run

variable {D : Type} {put : RuleSet → D → RuleSet} {id : D → String} {part : D → RuleSet}

theorem gains_foldl (Fits : RuleSet → Prop) (own : ∀ d, (part d).places = [id d])
    (step : ∀ set d, Fits set → id d ∉ set.places → Gains set (put set d) [part d] ∧ Fits (put set d))
    {ds : List D} {set : RuleSet} (fits : Fits set) (fresh : (ds.map id ++ set.places).Nodup) :
    Gains set (ds.foldl put set) (ds.map part) := by
  induction ds generalizing set with
  | nil => exact .refl set
  | cons d ds ih =>
    obtain ⟨hd, hrest⟩ := List.nodup_cons.mp fresh
    have hfree : id d ∉ set.places := fun hmem => hd (List.mem_append_right _ hmem)
    obtain ⟨hgains, hfits⟩ := step set d fits hfree
    refine hgains.trans (ih hfits ?_)
    have hplaces : (ds.map id ++ (put set d).places).Perm (id d :: (ds.map id ++ set.places)) := by
      refine (hgains.places.append_left _).trans ?_
      simp [own, List.perm_middle]
    exact hplaces.nodup_iff.mpr fresh

end Run

theorem actions_addTest (set : RuleSet) (d : TestDocument) : (set.addTest d).actions = set.actions := by
  unfold addTest
  split <;> rfl

theorem actions_foldl_addTest (set : RuleSet) (ds : List TestDocument) :
    (ds.foldl addTest set).actions = set.actions :=
  List.foldlRecOn (motive := fun set' => set'.actions = set.actions) ds addTest rfl
    fun set' h d _ => (actions_addTest set' d).trans h

variable {env : Environment} {ds ds' : List Document}

theorem mem_enabledTests {d : TestDocument} :
    d ∈ enabledTests ds ↔ .test d ∈ ds ∧ d.metadata.enabled = true := by
  unfold enabledTests
  rw [List.mem_filterMap]
  constructor
  · rintro ⟨_ | _, hd, h⟩ <;> simp at h
    exact ⟨h.2 ▸ hd, h.2 ▸ h.1⟩
  · rintro ⟨hd, henabled⟩
    exact ⟨_, hd, if_pos henabled⟩

theorem mem_enabledActions {d : ActionDocument} :
    d ∈ enabledActions ds ↔ .action d ∈ ds ∧ d.metadata.enabled = true := by
  unfold enabledActions
  rw [List.mem_filterMap]
  constructor
  · rintro ⟨_ | _, hd, h⟩ <;> simp at h
    exact ⟨h.2 ▸ hd, h.2 ▸ h.1⟩
  · rintro ⟨hd, henabled⟩
    exact ⟨_, hd, if_pos henabled⟩

theorem perm_ids_enabled (ds : List Document) :
    ((enabledTests ds).map (·.metadata.id) ++ (enabledActions ds).map (·.metadata.id)).Perm
      ((ds.filter (·.metadata.enabled)).map (·.id)) := by
  induction ds with
  | nil => exact .refl []
  | cons d ds ih =>
    unfold enabledTests enabledActions at ih ⊢
    cases d with
    | test t =>
      by_cases henabled : t.metadata.enabled = true
      · simpa [henabled, Document.metadata, Document.id] using ih
      · simpa [henabled, Document.metadata] using ih
    | action a =>
      by_cases henabled : a.metadata.enabled = true
      · simpa [henabled, Document.metadata, Document.id] using List.perm_middle.trans (ih.cons _)
      · simpa [henabled, Document.metadata] using ih

def testsInOrder (ds : List Document) : List TestDocument :=
  (enabledTests ds).mergeSort fun s t => decide (s.metadata.id ≤ t.metadata.id)

def parts (env : Environment) (ds : List Document) (known : Dispatcher) : List RuleSet :=
  (enabledActions ds).map (ofAction env) ++ (testsInOrder ds).map (ofTest known)

theorem nodup_ids_enabled (distinct : (ds.map (·.id)).Nodup) :
    ((testsInOrder ds).map (·.metadata.id) ++ (enabledActions ds).map (·.metadata.id)).Nodup := by
  have hids : ((enabledTests ds).map (·.metadata.id) ++
      (enabledActions ds).map (·.metadata.id)).Nodup :=
    (perm_ids_enabled ds).nodup_iff.mpr (distinct.sublist (List.filter_sublist.map _))
  exact ((List.mergeSort_perm _ _).map _ |>.append_right _).nodup_iff.mpr hids

/-- The set is made of what each of its documents comes to. -/
theorem gains_ofDocuments (env : Environment) (distinct : (ds.map (·.id)).Nodup) :
    Gains {} (ofDocuments env ds) (parts env ds (ofDocuments env ds).actions) := by
  have hids := nodup_ids_enabled distinct
  have hactions : Gains {} ((enabledActions ds).foldl (addAction env) {})
      ((enabledActions ds).map (ofAction env)) := by
    refine gains_foldl (fun _ => True) (places_ofAction env)
      (fun set d _ h => ⟨gains_addAction h env, trivial⟩) trivial ?_
    simpa [places, Dispatcher.ids] using (List.nodup_append.mp hids).2.1
  have hplaces : ((enabledActions ds).foldl (addAction env) {}).places.Perm
      ((enabledActions ds).map (·.metadata.id)) := by
    refine hactions.places.trans ?_
    simp [List.flatMap_map, places_ofAction, ← List.map_eq_flatMap]
  have hknown : (ofDocuments env ds).actions =
      ((enabledActions ds).foldl (addAction env) {}).actions := actions_foldl_addTest _ _
  rw [hknown]
  -- While the tests are put in, the actions stay what they are: all tests look at the same ones.
  refine hactions.trans (gains_foldl (fun set => set.actions = _) (places_ofTest _)
    (fun set d hset h => ⟨hset ▸ gains_addTest h, (actions_addTest set d).trans hset⟩) rfl ?_)
  exact (hplaces.append_left _).nodup_iff.mpr hids

theorem mem_testsInOrder {d : TestDocument} :
    d ∈ testsInOrder ds ↔ .test d ∈ ds ∧ d.metadata.enabled = true := by
  rw [testsInOrder, List.mem_mergeSort, mem_enabledTests]

theorem mem_tests_iff (distinct : (ds.map (·.id)).Nodup) {s : Test} :
    s ∈ (ofDocuments env ds).tests ↔ ∃ d, .test d ∈ ds ∧ d.metadata.enabled = true ∧
      d.build (ofDocuments env ds).actions = .ok s := by
  rw [(gains_ofDocuments env distinct).tests]
  simp [parts, List.flatMap_map, mem_testsInOrder, and_assoc]

theorem mem_actions_iff (distinct : (ds.map (·.id)).Nodup) {a : Action} :
    a ∈ (ofDocuments env ds).actions ↔
      ∃ d, .action d ∈ ds ∧ d.metadata.enabled = true ∧ d.build env = .ok a := by
  rw [(gains_ofDocuments env distinct).actions.mem_iff]
  simp [parts, List.flatMap_map, mem_enabledActions, and_assoc]

theorem mem_errors_iff (distinct : (ds.map (·.id)).Nodup) {id : String} {e : BuildError} :
    (id, e) ∈ (ofDocuments env ds).errors ↔
      (∃ d, .test d ∈ ds ∧ d.metadata.enabled = true ∧ d.metadata.id = id ∧
        d.build (ofDocuments env ds).actions = .error e) ∨
      ∃ d, .action d ∈ ds ∧ d.metadata.enabled = true ∧ d.metadata.id = id ∧
        d.build env = .error e := by
  rw [(gains_ofDocuments env distinct).errors.mem_iff, or_comm]
  simp [parts, List.flatMap_map, mem_testsInOrder, mem_enabledActions, and_assoc]

/-- Every enabled document has one place, and nothing else has any. -/
theorem perm_places (distinct : (ds.map (·.id)).Nodup) :
    (ofDocuments env ds).places.Perm ((ds.filter (·.metadata.enabled)).map (·.id)) := by
  refine (gains_ofDocuments env distinct).places.trans (.trans ?_ (perm_ids_enabled ds))
  simp only [parts, places_empty, List.append_nil, List.flatMap_append, List.flatMap_map, places_ofAction,
    places_ofTest, ← List.map_eq_flatMap]
  exact List.perm_append_comm.trans (((List.mergeSort_perm _ _).map _).append_right _)

theorem pairwise_testsInOrder (ds : List Document) :
    (testsInOrder ds).Pairwise fun s t => s.metadata.id ≤ t.metadata.id := by
  refine (List.pairwise_mergeSort ?_ ?_ _).imp of_decide_eq_true
  · intro r s t hrs hst
    exact decide_eq_true (le_trans (of_decide_eq_true hrs) (of_decide_eq_true hst))
  · intro s t
    simpa using le_total s.metadata.id t.metadata.id

theorem testsInOrder_of_perm (distinct : (ds.map (·.id)).Nodup) (h : ds'.Perm ds) :
    testsInOrder ds' = testsInOrder ds := by
  have hids := (List.nodup_append.mp (nodup_ids_enabled distinct)).1
  have hperm : (testsInOrder ds').Perm (testsInOrder ds) :=
    (List.mergeSort_perm _ _).trans ((h.filterMap _).trans (List.mergeSort_perm _ _).symm)
  refine hperm.eq_of_pairwise (fun s t hs ht hst hts => ?_) (pairwise_testsInOrder ds')
    (pairwise_testsInOrder ds)
  exact List.inj_on_of_nodup_map hids (hperm.mem_iff.mp hs) ht (le_antisymm hst hts)

theorem sorted_tests (distinct : (ds.map (·.id)).Nodup) :
    ((ofDocuments env ds).tests.map (·.id)).Pairwise (· < ·) := by
  have hsub := ids_foldl_addTest_sublist ((enabledActions ds).foldl (addAction env) {})
    (testsInOrder ds)
  rw [tests_foldl_addAction] at hsub
  refine List.Pairwise.sublist hsub ?_
  have hids := (List.nodup_append.mp (nodup_ids_enabled distinct)).1
  exact ((List.pairwise_map.mpr (pairwise_testsInOrder ds)).and hids).imp fun h => lt_of_le_of_ne h.1 h.2

theorem tests_parts (ds : List Document) (known : Dispatcher) :
    (parts env ds known).flatMap (·.tests) =
      (testsInOrder ds).flatMap fun d => (ofTest known d).tests := by
  simp [parts, List.flatMap_map, List.flatMap_eq_nil_iff]

theorem actions_parts (ds : List Document) (known : Dispatcher) :
    (parts env ds known).flatMap (·.actions) =
      (enabledActions ds).flatMap fun d => (ofAction env d).actions := by
  simp [parts, List.flatMap_map, List.flatMap_eq_nil_iff]

theorem actions_of_perm (distinct : (ds.map (·.id)).Nodup) (h : ds'.Perm ds) :
    (ofDocuments env ds').actions = (ofDocuments env ds).actions := by
  have hgains := (gains_ofDocuments env distinct).actions
  have hgains' := (gains_ofDocuments env ((h.map _).nodup_iff.mpr distinct)).actions
  rw [actions_parts] at hgains hgains'
  have hperm : (ofDocuments env ds').actions.Perm (ofDocuments env ds).actions :=
    hgains'.trans ((((h.filterMap _).flatMap_right _).append_right _).trans hgains.symm)
  have hsorted := List.pairwise_map.mp (built_ofDocuments env ds).sorted
  have hsorted' := List.pairwise_map.mp (built_ofDocuments env ds').sorted
  exact hperm.eq_of_pairwise (fun a b _ _ hab hba => absurd hba (lt_asymm hab)) hsorted' hsorted

/-- The order of the documents shows in the order of the errors only, and that of a table has none. -/
theorem ofDocuments_of_perm (distinct : (ds.map (·.id)).Nodup) (h : ds'.Perm ds) :
    (ofDocuments env ds').tests = (ofDocuments env ds).tests ∧
      (ofDocuments env ds').actions = (ofDocuments env ds).actions ∧
      (ofDocuments env ds').errors.Perm (ofDocuments env ds).errors := by
  have hgains := gains_ofDocuments env distinct
  have hgains' := gains_ofDocuments env ((h.map _).nodup_iff.mpr distinct)
  have hactions : (ofDocuments env ds').actions = (ofDocuments env ds).actions :=
    actions_of_perm distinct h
  refine ⟨?_, hactions, ?_⟩
  · rw [hgains'.tests, hgains.tests, hactions, tests_parts, tests_parts,
      testsInOrder_of_perm distinct h]
  · have hparts : (parts env ds' (ofDocuments env ds).actions).Perm
        (parts env ds (ofDocuments env ds).actions) := by
      rw [parts, parts, testsInOrder_of_perm distinct h]
      exact ((h.filterMap _).map _).append_right _
    refine hgains'.errors.trans (.trans ?_ hgains.errors.symm)
    rw [hactions]
    exact (hparts.flatMap_right _).append_right _

theorem handles_of_build {known : Dispatcher} {d : TestDocument} {s : Test} (hknown : known.Sorted)
    (h : d.build known = .ok s) : ∃ handles,
      List.Forall₂ (fun id a => known.find? id = some a) d.actions handles ∧
        s.actions = handles.map (·.id) := by
  obtain ⟨root, schedule, window, season, -, -, -, -, -, hcheck, rfl⟩ := TestDocument.build_cases h
  have hfound : ∀ id ∈ d.actions, ∃ a, known.find? id = some a := by
    intro id hid
    obtain ⟨a, ha, rfl⟩ := List.mem_map.mp (TestDocument.mem_ids_of_checkActions hcheck id hid)
    exact ⟨a, hknown.find?_eq_some_iff.mpr ⟨ha, rfl⟩⟩
  obtain ⟨handles, hhandles⟩ := exists_forall₂_iff.mpr hfound
  refine ⟨handles, hhandles, ?_⟩
  change d.actions = handles.map (·.id)
  rw [← List.forall₂_eq_eq_eq, List.forall₂_map_right_iff]
  exact hhandles.imp fun _ _ hfind => (hknown.find?_eq_some_iff.mp hfind).2.symm

/-- What is to be found in a rule set of documents with ids of their own: each enabled document in
exactly one place, the others nowhere. Tests come by their ids, and each is linked to the actions of the
set that its document names, in that order. -/
structure Gathers (env : Environment) (ds : List Document) (set : RuleSet) : Prop where
  once : ∀ d ∈ ds, d.metadata.enabled = true → set.places.count d.id = 1
  never : ∀ d ∈ ds, d.metadata.enabled = false → d.id ∉ set.places
  only : ∀ id ∈ set.places, ∃ d ∈ ds, d.metadata.enabled = true ∧ d.id = id
  tests : ∀ s, s ∈ set.tests ↔ ∃ d, .test d ∈ ds ∧ d.metadata.enabled = true ∧
    d.build set.actions = .ok s
  actions : ∀ a, a ∈ set.actions ↔ ∃ d, .action d ∈ ds ∧ d.metadata.enabled = true ∧
    d.build env = .ok a
  errors : ∀ id e, (id, e) ∈ set.errors ↔
    (∃ d, .test d ∈ ds ∧ d.metadata.enabled = true ∧ d.metadata.id = id ∧
      d.build set.actions = .error e) ∨
    ∃ d, .action d ∈ ds ∧ d.metadata.enabled = true ∧ d.metadata.id = id ∧ d.build env = .error e
  sorted : (set.tests.map (·.id)).Pairwise (· < ·)
  linked : ∀ s ∈ set.tests, ∃ d handles, .test d ∈ ds ∧ d.metadata.id = s.id ∧
    List.Forall₂ (fun id a => set.actions.find? id = some a) d.actions handles ∧
      s.actions = handles.map (·.id)
  refused : ∀ d, .test d ∈ ds → d.metadata.enabled = true →
    (∃ id ∈ d.actions, set.actions.find? id = none) → d.metadata.id ∈ set.errors.map (·.1)

theorem once_ofDocuments (distinct : (ds.map (·.id)).Nodup) {d : Document} (hd : d ∈ ds)
    (henabled : d.metadata.enabled = true) : (ofDocuments env ds).places.count d.id = 1 := by
  rw [(perm_places distinct).count_eq]
  refine List.count_eq_one_of_mem (distinct.sublist (List.filter_sublist.map _)) ?_
  exact List.mem_map_of_mem (List.mem_filter.mpr ⟨hd, henabled⟩)

theorem exists_of_mem_places (distinct : (ds.map (·.id)).Nodup) {id : String}
    (h : id ∈ (ofDocuments env ds).places) : ∃ d ∈ ds, d.metadata.enabled = true ∧ d.id = id := by
  obtain ⟨d, hd, rfl⟩ := List.mem_map.mp ((perm_places distinct).mem_iff.mp h)
  exact ⟨d, (List.mem_filter.mp hd).1, (List.mem_filter.mp hd).2, rfl⟩

theorem notMem_places (distinct : (ds.map (·.id)).Nodup) {d : Document} (hd : d ∈ ds)
    (hdisabled : d.metadata.enabled = false) : d.id ∉ (ofDocuments env ds).places := by
  intro h
  obtain ⟨d', hd', henabled, hid⟩ := exists_of_mem_places distinct h
  rw [List.inj_on_of_nodup_map distinct hd' hd hid, hdisabled] at henabled
  cases henabled

theorem mem_errors_of_unknown (distinct : (ds.map (·.id)).Nodup) {d : TestDocument}
    (hd : .test d ∈ ds) (henabled : d.metadata.enabled = true)
    (unknown : ∃ id ∈ d.actions, (ofDocuments env ds).actions.find? id = none) :
    d.metadata.id ∈ (ofDocuments env ds).errors.map (·.1) := by
  obtain ⟨id, hid, hnone⟩ := unknown
  cases hbuild : d.build (ofDocuments env ds).actions with
  | ok s =>
    obtain ⟨handles, hhandles, -⟩ := handles_of_build (built_ofDocuments env ds).sorted hbuild
    obtain ⟨a, ha⟩ := exists_forall₂_iff.mp ⟨handles, hhandles⟩ id hid
    rw [hnone] at ha
    cases ha
  | error e =>
    exact List.mem_map.mpr ⟨_, (mem_errors_iff distinct).mpr (.inl ⟨d, hd, henabled, rfl, hbuild⟩), rfl⟩

/-- Documents with ids of their own are gathered completely, and it makes no difference to tests,
actions and errors in which order the documents are given. -/
theorem gathers_ofDocuments (env : Environment) {ds : List Document}
    (distinct : (ds.map (·.id)).Nodup) :
    (ofDocuments env ds).Gathers env ds ∧ ∀ ds', ds'.Perm ds →
      (ofDocuments env ds').tests = (ofDocuments env ds).tests ∧
        (ofDocuments env ds').actions = (ofDocuments env ds).actions ∧
        (ofDocuments env ds').errors.Perm (ofDocuments env ds).errors := by
  refine ⟨?_, fun ds' h => ofDocuments_of_perm distinct h⟩
  exact {
    once := fun d hd => once_ofDocuments distinct hd
    never := fun d hd => notMem_places distinct hd
    only := fun id => exists_of_mem_places distinct
    tests := fun s => mem_tests_iff distinct
    actions := fun a => mem_actions_iff distinct
    errors := fun id e => mem_errors_iff distinct
    sorted := sorted_tests distinct
    linked := fun s hs => by
      obtain ⟨d, hd, -, hbuild⟩ := (mem_tests_iff distinct).mp hs
      obtain ⟨handles, hhandles⟩ := handles_of_build (built_ofDocuments env ds).sorted hbuild
      exact ⟨d, handles, hd, (TestDocument.id_build hbuild).symm, hhandles⟩
    refused := fun d hd => mem_errors_of_unknown distinct hd }

/-- Two tests of a level, given before the actions that they name: one of those is disabled, and a
third action has a retention that does not read as an interval. -/
def levels : List Document :=
  let test (id : String) (actions : List String) : Document := .test {
    apiVersion := "v1"
    metadata := { id, name := id }
    schedule := { baseTime := "06:00", interval := "1d" }
    window := "6h"
    formula := .operation .greaterThan (.function .getValue ["A"] none none) (.constant 50 none) none
    actions }
  let action (id retention : String) (enabled : Bool) : Document := .action {
    apiVersion := "v1"
    metadata := { id, name := id, enabled }
    schedule := { baseTime := "00:00", interval := "1h" }
    retention
    delivery := .log }
  [test "river" ["ops", "ops"], test "lake" ["ops", "pager"], action "pager" "7d" false,
    action "ops" "7d" true, action "mail" "7 fortnights" true]

theorem gathers_ofDocuments_levels : (levels.map (·.id)).Nodup ∧
    (ofDocuments [] levels).Gathers [] levels ∧ ∀ ds', ds'.Perm levels →
      (ofDocuments [] ds').tests = (ofDocuments [] levels).tests ∧
        (ofDocuments [] ds').actions = (ofDocuments [] levels).actions ∧
        (ofDocuments [] ds').errors.Perm (ofDocuments [] levels).errors := by
  have distinct : (levels.map (·.id)).Nodup := by decide
  exact ⟨distinct, gathers_ofDocuments [] distinct⟩

end RuleSet
end SeriesAlarm
