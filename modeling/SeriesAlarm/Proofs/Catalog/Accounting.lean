import Mathlib.Data.List.Lex
import Mathlib.Data.List.TakeDrop
import Mathlib.Data.List.TakeWhile
import SeriesAlarm.Proofs.Catalog.Loading
import SeriesAlarm.Proofs.Text.Replace

/-!
# What a load accounts for

A load visits the files of a folder in the order of their paths and gives each of them one result.
What the result says is known from the folder alone: files are passed over for their names, fail
where no document can be read or an earlier file gives the same id, and are loaded otherwise. The
catalog then holds what was loaded and nothing else.
-/

namespace SeriesAlarm

section Names

variable {name ext : String}

theorem FileNode.span_ne_of_notMem {c : Char} {cs : List Char} (h : c ∉ cs) :
    cs.span (· != c) = (cs, []) := by
  have hne : ∀ d ∈ cs, (d != c) = true := fun d hd => by simpa using ne_of_mem_of_not_mem hd h
  rw [List.span_eq_takeWhile_dropWhile, List.takeWhile_eq_self_iff.mpr hne,
    List.dropWhile_eq_nil_iff.mpr hne]

theorem FileNode.span_ne_append {c : Char} {a b : List Char} (h : c ∉ a) :
    (a ++ c :: b).span (· != c) = (a, c :: b) := by
  have hne : ∀ d ∈ a, (d != c) = true := fun d hd => by simpa using ne_of_mem_of_not_mem hd h
  rw [List.span_eq_takeWhile_dropWhile, List.takeWhile_append_of_pos hne,
    List.dropWhile_append_of_pos hne]
  simp

theorem FileNode.splitExtension_eq_iff {stem : String} :
    splitExtension name = (stem, some ext) ↔
      '.' ∉ ext.toList ∧ stem ≠ "" ∧ name = stem ++ "." ++ ext := by
  have htext : name = stem ++ "." ++ ext ↔
      name.toList.reverse = ext.toList.reverse ++ '.' :: stem.toList.reverse := by
    rw [← String.toList_inj, ← List.reverse_inj]
    simp
  by_cases hpoint : '.' ∈ name.toList.reverse
  · obtain ⟨a, b, hsplit, ha⟩ := List.eq_append_cons_of_mem hpoint
    simp only [splitExtension, htext, hsplit, span_ne_append ha]
    constructor
    · intro hext
      split at hext
      · cases hext
      · next hb =>
        cases hext
        refine ⟨by simpa using ha, ?_, by simp⟩
        rw [← String.toList_inj.ne]
        simpa using hb
    · rintro ⟨hext, hstem, heq⟩
      have hsame : Text.splitAt? '.' (a ++ '.' :: b) =
          some (ext.toList.reverse, stem.toList.reverse) :=
        Text.splitAt?_eq_some_iff.mpr ⟨heq, by simpa using hext⟩
      rw [Text.splitAt?_eq_some_iff.mpr ⟨rfl, ha⟩] at hsame
      cases hsame
      simp [hstem]
  · simp only [splitExtension, htext, span_ne_of_notMem hpoint]
    constructor
    · intro hext
      cases hext
    · rintro ⟨-, -, heq⟩
      rw [heq] at hpoint
      exact absurd (List.mem_append_right _ List.mem_cons_self) hpoint

theorem FileNode.splitExtension_eq_some_iff :
    (splitExtension name).2 = some ext ↔
      '.' ∉ ext.toList ∧ ∃ stem, stem ≠ "" ∧ name = stem ++ "." ++ ext := by
  constructor
  · intro h
    obtain ⟨hext, hstem, hname⟩ := splitExtension_eq_iff.mp (Prod.ext rfl h)
    exact ⟨hext, _, hstem, hname⟩
  · rintro ⟨hext, stem, hstem, hname⟩
    rw [splitExtension_eq_iff.mpr ⟨hext, hstem, hname⟩]

theorem isYamlName_iff :
    isYamlName name ↔ ∃ stem, stem ≠ "" ∧ (name = stem ++ ".yml" ∨ name = stem ++ ".yaml") := by
  have hpoint (stem ext : String) : stem ++ "." ++ ext = stem ++ ("." ++ ext) :=
    String.append_assoc ..
  simp only [isYamlName, Bool.or_eq_true, beq_iff_eq, FileNode.splitExtension_eq_some_iff, hpoint]
  constructor
  · rintro (⟨-, stem, hstem, hname⟩ | ⟨-, stem, hstem, hname⟩)
    · exact ⟨stem, hstem, .inl hname⟩
    · exact ⟨stem, hstem, .inr hname⟩
  · rintro ⟨stem, hstem, hname | hname⟩
    · exact .inl ⟨by decide, stem, hstem, hname⟩
    · exact .inr ⟨by decide, stem, hstem, hname⟩

end Names

namespace FileNode

variable {skip : String → Bool} {n : FileNode}

/-- The files of a folder come in the lexicographic order of their paths. -/
theorem pairwise_filesFrom (h : n.Proper) (base : FilePath) :
    (n.filesFrom skip base).Pairwise fun f g => f.1 < g.1 := by
  induction h generalizing base with
  | file c => exact List.pairwise_singleton _ _
  | @folder es names entries ih =>
    rw [filesFrom]
    have hentry {m : String × List (FilePath × Option String)}
        (hm : m ∈ filesOfEntries skip base es) :
        m.2.Pairwise (fun f g => f.1 < g.1) ∧
          ∀ f ∈ m.2, ∃ rest, f.1 = base ++ m.1 :: rest := by
      rw [filesOfEntries_eq_map] at hm
      obtain ⟨e, he, rfl⟩ := List.mem_map.mp hm
      dsimp only
      split
      · exact ⟨.nil, fun f hf => by cases hf⟩
      · refine ⟨ih e he _, fun f hf => ?_⟩
        obtain ⟨rest, hrest, -⟩ := (mem_filesFrom (entries e he)).mp hf
        exact ⟨rest, by rw [hrest, List.append_assoc]; rfl⟩
    have hperm := List.mergeSort_perm (filesOfEntries skip base es) fun a b => decide (a.1 ≤ b.1)
    have hnames : ((filesOfEntries skip base es).map (·.1)).Nodup := by
      rw [filesOfEntries_eq_map, List.map_map]
      exact names
    have htrans (a b c : String × List (FilePath × Option String))
        (hab : decide (a.1 ≤ b.1) = true) (hbc : decide (b.1 ≤ c.1) = true) :
        decide (a.1 ≤ c.1) = true := by
      simp only [decide_eq_true_eq] at hab hbc ⊢
      exact le_trans hab hbc
    have hsorted := List.pairwise_mergeSort htrans
      (fun a b => by simpa using le_total a.1 b.1) (filesOfEntries skip base es)
    have hdistinct := List.pairwise_map.mp ((hperm.map (·.1)).nodup_iff.mpr hnames)
    -- The files below one entry are in order by induction, those below two by the names of these.
    refine List.pairwise_flatMap.mpr ⟨fun m hm => (hentry (hperm.mem_iff.mp hm)).1, ?_⟩
    refine (hsorted.and hdistinct).imp_of_mem fun {a b} ha hb hab f hf g hg => ?_
    obtain ⟨rest, hrest⟩ := (hentry (hperm.mem_iff.mp ha)).2 f hf
    obtain ⟨rest', hrest'⟩ := (hentry (hperm.mem_iff.mp hb)).2 g hg
    have hlt : a.1 < b.1 := lt_of_le_of_ne (by simpa using hab.1) hab.2
    rw [hrest, hrest']
    exact List.append_left_lt (List.cons_lt_cons_iff.mpr (.inl hlt))

theorem pairwise_visibleFiles (h : n.Proper) : n.visibleFiles.Pairwise fun f g => f.1 < g.1 := by
  unfold visibleFiles
  split
  · exact pairwise_filesFrom h []
  · exact .nil

end FileNode

namespace Findings

variable {file : FilePath × Option String} {files : List (FilePath × Option String)}

def found? (file : FilePath × Option String) : Option (FilePath × Document) :=
  match skipReason? file.1, readDocument file.2 with
  | none, .ok d => some (file.1, d)
  | _, _ => none

def refused? (file : FilePath × Option String) : Option LoadResult :=
  match skipReason? file.1, readDocument file.2 with
  | some reason, _ => some ⟨file.1, .skipped reason⟩
  | none, .error e => some ⟨file.1, .failed e⟩
  | none, .ok _ => none

theorem ofFiles_eq (files : List (FilePath × Option String)) :
    ofFiles files = ⟨files.filterMap found?, files.filterMap refused?⟩ := by
  unfold ofFiles
  induction files using List.reverseRec with
  | nil => rfl
  | append_singleton files file ih =>
    rw [List.foldl_append, ih, List.foldl_cons, List.foldl_nil, visit, List.filterMap_append,
      List.filterMap_append]
    cases hskip : skipReason? file.1 with
    | some reason => simp [found?, refused?, hskip]
    | none => cases hread : readDocument file.2 <;> simp [found?, refused?, hskip, hread]

theorem perm_ofFiles (files : List (FilePath × Option String)) :
    ((ofFiles files).results.map (·.path) ++ (ofFiles files).documents.map (·.1)).Perm
      (files.map (·.1)) := by
  rw [ofFiles_eq]
  induction files with
  | nil => exact .nil
  | cons file files ih =>
    have hfound : found? file = none ∧ (∃ r, refused? file = some r ∧ r.path = file.1) ∨
        refused? file = none ∧ ∃ d, found? file = some (file.1, d) := by
      unfold found? refused?
      cases skipReason? file.1 with
      | some reason => exact .inl ⟨rfl, _, rfl, rfl⟩
      | none =>
        cases readDocument file.2 with
        | error e => exact .inl ⟨rfl, _, rfl, rfl⟩
        | ok d => exact .inr ⟨rfl, d, rfl⟩
    rcases hfound with ⟨hnone, r, hrefused, hpath⟩ | ⟨hnone, d, hfound⟩
    · rw [List.filterMap_cons_none hnone, List.filterMap_cons_some hrefused, List.map_cons, hpath]
      exact ih.cons file.1
    · rw [List.filterMap_cons_none hnone, List.filterMap_cons_some hfound, List.map_cons]
      exact List.perm_middle.trans (ih.cons file.1)

theorem pairwise_documents (sorted : files.Pairwise fun f g => f.1 < g.1) :
    (ofFiles files).documents.Pairwise fun f g => f.1 < g.1 := by
  have hpath {file : FilePath × Option String} {f : FilePath × Document}
      (hf : found? file = some f) : f.1 = file.1 := by
    unfold found? at hf
    split at hf
    · cases hf
      rfl
    · cases hf
  rw [ofFiles_eq]
  refine List.pairwise_filterMap.mpr (sorted.imp fun {a b} hlt f hf g hg => ?_)
  rw [hpath hf, hpath hg]
  exact hlt

theorem mem_results_ofFiles {path : FilePath} {status : LoadStatus} :
    ⟨path, status⟩ ∈ (ofFiles files).results ↔
      ∃ content, (path, content) ∈ files ∧
        ((∃ reason, skipReason? path = some reason ∧ status = .skipped reason) ∨
          skipReason? path = none ∧ ∃ e, readDocument content = .error e ∧ status = .failed e) := by
  have hrefused (file : FilePath × Option String) : refused? file = some ⟨path, status⟩ ↔
      file.1 = path ∧ ((∃ reason, skipReason? path = some reason ∧ status = .skipped reason) ∨
        skipReason? path = none ∧
          ∃ e, readDocument file.2 = .error e ∧ status = .failed e) := by
    unfold refused?
    cases hskip : skipReason? file.1 with
    | some reason =>
      simp only [Option.some.injEq, LoadResult.mk.injEq]
      refine and_congr_right fun hpath => ?_
      simp [← hpath, hskip, eq_comm]
    | none =>
      cases hread : readDocument file.2 with
      | error e =>
        simp only [Option.some.injEq, LoadResult.mk.injEq]
        refine and_congr_right fun hpath => ?_
        simp [← hpath, hskip, eq_comm]
      | ok d =>
        refine iff_of_false (fun hnone => by cases hnone) ?_
        rintro ⟨hpath, h⟩
        simp [← hpath, hskip] at h
  rw [ofFiles_eq, List.mem_filterMap]
  simp only [hrefused]
  constructor
  · rintro ⟨⟨p, content⟩, hmem, rfl, h⟩
    exact ⟨content, hmem, h⟩
  · rintro ⟨content, hmem, h⟩
    exact ⟨(path, content), hmem, rfl, h⟩

end Findings

namespace Catalog

section Take

variable {s : Catalog × List LoadResult} {f : FilePath × Document}

theorem take_of_taken (h : (s.1.document? f.2.id).isSome) :
    take s f = (s.1, s.2 ++ [⟨f.1, .failed (.duplicate f.2.id)⟩]) := by
  rw [take, if_pos h]

theorem take_of_free (h : s.1.document? f.2.id = none) :
    take s f = ({ s.1 with
        documents := insertDocument f.2 s.1.documents
        sources := (f.1, f.2.id) :: s.1.sources }, s.2 ++ [⟨f.1, .loaded f.2.id⟩]) := by
  rw [take, h]
  rfl

end Take

def IsTaken (found : List (FilePath × Document)) (f : FilePath × Document) : Prop :=
  ∃ g ∈ found, g.1 < f.1 ∧ g.2.id = f.2.id

section IsTaken

variable {found : List (FilePath × Document)} {f g : FilePath × Document}

theorem isTaken_append_iff (later : ∀ g ∈ found, g.1 < f.1) (hg : g ∈ found) :
    IsTaken (found ++ [f]) g ↔ IsTaken found g := by
  simp only [IsTaken, List.mem_append, List.mem_singleton, or_and_right, exists_or,
    exists_eq_left]
  exact or_iff_left fun hlate => lt_asymm hlate.1 (later g hg)

theorem isTaken_append_self_iff (later : ∀ g ∈ found, g.1 < f.1) :
    IsTaken (found ++ [f]) f ↔ ∃ g ∈ found, g.2.id = f.2.id := by
  constructor
  · rintro ⟨g, hg, hlt, hid⟩
    rcases List.mem_append.mp hg with hg | hg
    · exact ⟨g, hg, hid⟩
    · rw [List.mem_singleton.mp hg] at hlt
      exact absurd hlt (lt_irrefl f.1)
  · rintro ⟨g, hg, hid⟩
    exact ⟨g, List.mem_append_left _ hg, later g hg, hid⟩

theorem Loaded.isSome_document?_iff {c : Catalog} (h : Loaded found c) {x : String} :
    (c.document? x).isSome ↔ ∃ g ∈ found, g.2.id = x := by
  constructor
  · intro hsome
    obtain ⟨d, hd⟩ := Option.isSome_iff_exists.mp hsome
    obtain ⟨path, hpath, -⟩ := h.owned d (List.mem_of_find?_eq_some hd)
    exact ⟨(path, d), hpath, Loaded.id_of_document? hd⟩
  · rintro ⟨g, hg, rfl⟩
    obtain ⟨d, hd, hid⟩ := h.covers g hg
    rw [← hid, h.document?_eq_some_iff.mpr hd]
    rfl

end IsTaken

def verdict (c : Catalog) (f : FilePath × Document) : LoadResult :=
  ⟨f.1, if c.source? f.1 = some f.2.id then .loaded f.2.id else .failed (.duplicate f.2.id)⟩

/-- The files found have been taken up in their order, each unless its id was taken. -/
structure TakenUp (refused : List LoadResult) (found : List (FilePath × Document))
    (s : Catalog × List LoadResult) : Prop where
  loaded : Loaded found s.1
  results : s.2 = refused ++ found.map s.1.verdict
  first : ∀ f ∈ found, s.1.source? f.1 = some f.2.id ↔ ¬ IsTaken found f

namespace TakenUp

variable {refused : List LoadResult} {found : List (FilePath × Document)}
  {s : Catalog × List LoadResult} {f : FilePath × Document}

theorem source?_eq_none (h : TakenUp refused found s) (later : ∀ g ∈ found, g.1 < f.1) :
    s.1.source? f.1 = none := by
  rw [Option.eq_none_iff_forall_ne_some]
  intro x hx
  obtain ⟨d, -, -, hd⟩ := h.loaded.named f.1 x hx
  exact lt_irrefl f.1 (later (f.1, d) hd)

theorem take_taken (h : TakenUp refused found s) (later : ∀ g ∈ found, g.1 < f.1)
    (taken : (s.1.document? f.2.id).isSome) :
    TakenUp refused (found ++ [f]) (s.1, s.2 ++ [⟨f.1, .failed (.duplicate f.2.id)⟩]) := by
  obtain ⟨old, hold⟩ := Option.isSome_iff_exists.mp taken
  have hunknown := h.source?_eq_none later
  refine ⟨h.loaded.skip hold, ?_, fun g hg => ?_⟩
  · simp [h.results, verdict, hunknown]
  · rcases List.mem_append.mp hg with hg | hg
    · rw [isTaken_append_iff later hg]
      exact h.first g hg
    · rw [List.mem_singleton.mp hg, isTaken_append_self_iff later,
        ← h.loaded.isSome_document?_iff, taken, hunknown]
      simp

theorem take_free (h : TakenUp refused found s) (later : ∀ g ∈ found, g.1 < f.1)
    (free : s.1.document? f.2.id = none) :
    TakenUp refused (found ++ [f]) ({ s.1 with
      documents := insertDocument f.2 s.1.documents
      sources := (f.1, f.2.id) :: s.1.sources }, s.2 ++ [⟨f.1, .loaded f.2.id⟩]) := by
  have hself : List.lookup f.1 ((f.1, f.2.id) :: s.1.sources) = some f.2.id := List.lookup_cons_self
  have hkept {g : FilePath × Document} (hg : g ∈ found) :
      List.lookup g.1 ((f.1, f.2.id) :: s.1.sources) = s.1.source? g.1 :=
    lookup_cons_of_ne g.1 (ne_of_lt (later g hg)) _ _
  have hnew : ∀ d ∈ s.1.documents, d.id ≠ f.2.id := fun d hd hid => by
    rw [← hid, h.loaded.document?_eq_some_iff.mpr hd] at free
    cases free
  refine ⟨h.loaded.insert (fun d hd => absurd (later (f.1, d) hd) (lt_irrefl f.1)) hnew, ?_,
    fun g hg => ?_⟩
  · have hverdicts : found.map (verdict { s.1 with
        documents := insertDocument f.2 s.1.documents
        sources := (f.1, f.2.id) :: s.1.sources }) = found.map s.1.verdict := by
      refine List.map_congr_left fun g hg => ?_
      rw [verdict, verdict, source?, hkept hg]
    rw [List.map_append, hverdicts, ← List.append_assoc, ← h.results]
    simp [verdict, source?, hself]
  · rw [source?]
    rcases List.mem_append.mp hg with hg | hg
    · rw [hkept hg, isTaken_append_iff later hg]
      exact h.first g hg
    · rw [List.mem_singleton.mp hg, isTaken_append_self_iff later,
        ← h.loaded.isSome_document?_iff, free, hself]
      simp

/-- A file is taken up that comes after all others. -/
theorem take (h : TakenUp refused found s) (later : ∀ g ∈ found, g.1 < f.1) :
    TakenUp refused (found ++ [f]) (Catalog.take s f) := by
  cases hdocument : s.1.document? f.2.id with
  | some old =>
    have taken : (s.1.document? f.2.id).isSome := Option.isSome_of_eq_some hdocument
    rw [take_of_taken taken]
    exact h.take_taken later taken
  | none =>
    rw [take_of_free hdocument]
    exact h.take_free later hdocument

theorem of_foldl (refused : List LoadResult) (sorted : found.Pairwise fun f g => f.1 < g.1)
    (generation : Nat) :
    TakenUp refused found (found.foldl Catalog.take ({ generation }, refused)) := by
  induction found using List.reverseRec with
  | nil => exact ⟨.of_foldl (fun p d e hd => by cases hd) _ _, by simp, fun f hf => by cases hf⟩
  | append_singleton found f ih =>
    obtain ⟨hfound, -, hlater⟩ := List.pairwise_append.mp sorted
    rw [List.foldl_append, List.foldl_cons, List.foldl_nil]
    exact (ih hfound).take fun g hg => hlater g hg f (List.mem_singleton_self f)

theorem loaded_iff (h : TakenUp refused found s) {path : FilePath} {x : String}
    (hrefused : ∀ r ∈ refused, r.isLoaded = false) :
    ⟨path, .loaded x⟩ ∈ s.2 ↔ s.1.source? path = some x := by
  rw [h.results, List.mem_append, List.mem_map]
  constructor
  · rintro (hmem | ⟨f, hf, heq⟩)
    · cases hrefused _ hmem
    · unfold verdict at heq
      split at heq
      · next hsource =>
        cases heq
        exact hsource
      · cases heq
  · intro hsource
    obtain ⟨d, -, rfl, hfound⟩ := h.loaded.named path x hsource
    refine .inr ⟨(path, d), hfound, ?_⟩
    rw [verdict, if_pos hsource]

end TakenUp

theorem takenUp_load (c : Catalog) {n : FileNode} (h : n.Proper) :
    TakenUp (Findings.ofFiles n.visibleFiles).results (Findings.ofFiles n.visibleFiles).documents
      (c.load (some n)) :=
  .of_foldl _ (Findings.pairwise_documents (FileNode.pairwise_visibleFiles h)) _

end Catalog

def IsYamlFile (path : FilePath) : Prop :=
  FileNode.isHidden (fileName path) = false ∧
    ∃ stem, stem ≠ "" ∧ (fileName path = stem ++ ".yml" ∨ fileName path = stem ++ ".yaml")

theorem skipReason?_eq_none_iff {path : FilePath} : skipReason? path = none ↔ IsYamlFile path := by
  rw [IsYamlFile, ← isYamlName_iff]
  unfold skipReason?
  cases FileNode.isHidden (fileName path) <;> cases isYamlName (fileName path) <;> simp

namespace FileNode

variable {n : FileNode} {path : FilePath}

theorem gives?_eq_some_iff_document {d : Document} :
    n.gives? path = some d ↔ IsYamlFile path ∧ n.document path = .ok d := by
  rw [← skipReason?_eq_none_iff, gives?]
  split
  · next hskip =>
    rw [and_iff_right hskip]
    cases n.document path <;> simp [Except.toOption]
  · next hskip => simp [hskip]

def IsTaken (n : FileNode) (path : FilePath) (id : String) : Prop :=
  ∃ q d, q < path ∧ IsOpen q ∧ IsYamlFile q ∧ n.document q = .ok d ∧ d.id = id

/-- What a load is to say of a file. -/
inductive HasStatus (n : FileNode) (path : FilePath) : LoadStatus → Prop
  | hidden (h : isHidden (fileName path)) : HasStatus n path (.skipped .hidden)
  | notYaml (visible : isHidden (fileName path) = false) (h : ¬ IsYamlFile path) :
    HasStatus n path (.skipped .notYaml)
  | illegible {e : LoadError} (yaml : IsYamlFile path) (h : n.document path = .error e) :
    HasStatus n path (.failed e)
  | duplicate {d : Document} (yaml : IsYamlFile path) (h : n.document path = .ok d)
    (taken : n.IsTaken path d.id) : HasStatus n path (.failed (.duplicate d.id))
  | loaded {d : Document} (yaml : IsYamlFile path) (h : n.document path = .ok d)
    (free : ¬ n.IsTaken path d.id) : HasStatus n path (.loaded d.id)

theorem hasStatus_of_skipReason? {reason : SkipReason} (h : skipReason? path = some reason) :
    n.HasStatus path (.skipped reason) := by
  have hyaml : ¬ IsYamlFile path := by
    rw [← skipReason?_eq_none_iff, h]
    simp
  cases hhidden : isHidden (fileName path) with
  | true =>
    rw [skipReason?, if_pos hhidden] at h
    cases h
    exact .hidden hhidden
  | false =>
    rw [skipReason?, hhidden] at h
    cases hname : isYamlName (fileName path) with
    | true => simp [hname] at h
    | false =>
      simp only [hname, Bool.false_eq_true, if_false, Option.some.injEq] at h
      subst h
      exact .notYaml hhidden hyaml

theorem HasStatus.unique {status status' : LoadStatus} (h : n.HasStatus path status)
    (h' : n.HasStatus path status') : status = status' := by
  have hvisible (yaml : IsYamlFile path) : isHidden (fileName path) ≠ true := by simp [yaml.1]
  rcases h with hhidden | ⟨hv, hyaml⟩ | ⟨yaml, hdoc⟩ | ⟨yaml, hdoc, ht⟩ | ⟨yaml, hdoc, hf⟩ <;>
    rcases h' with hhidden' | ⟨hv', hyaml'⟩ | ⟨yaml', hdoc'⟩ | ⟨yaml', hdoc', ht'⟩ |
      ⟨yaml', hdoc', hf'⟩ <;> simp_all

end FileNode

namespace Catalog

/-- Every file that is not in a hidden folder is accounted for once, and the catalog holds what was
loaded, whatever it held before. -/
structure Accounts (n : FileNode) (before after : Catalog) (results : List LoadResult) : Prop where
  once : (results.map (·.path)).Nodup
  complete : ∀ path, (n.file? path).isSome → FileNode.IsOpen path →
    ∃ status, ⟨path, status⟩ ∈ results
  status : ∀ path status, ⟨path, status⟩ ∈ results ↔
    (n.file? path).isSome ∧ FileNode.IsOpen path ∧ n.HasStatus path status
  documents : ∀ x d, after.document? x = some d ↔
    ∃ path, ⟨path, .loaded x⟩ ∈ results ∧ n.document path = .ok d
  sources : ∀ path x, after.source? path = some x ↔ ⟨path, .loaded x⟩ ∈ results
  injective : ∀ p q x, after.source? p = some x → after.source? q = some x → p = q
  anew : ∀ other : Catalog, (other.load (some n)).1.documents = after.documents ∧
    (other.load (some n)).1.sources = after.sources ∧ (other.load (some n)).2 = results
  generation : after.generation = before.generation + 1

section Load

variable (c : Catalog) {n : FileNode} {path : FilePath} {status : LoadStatus}

/-- The visible files, each with its result. -/
theorem perm_results_load (h : n.Proper) :
    ((c.load (some n)).2.map (·.path)).Perm (n.visibleFiles.map (·.1)) := by
  rw [(c.takenUp_load h).results, List.map_append, List.map_map]
  exact Findings.perm_ofFiles n.visibleFiles

theorem document_of_mem_visibleFiles (h : n.Proper) {content : Option String}
    (hmem : (path, content) ∈ n.visibleFiles) : n.document path = readDocument content := by
  obtain ⟨-, hfile, -⟩ := (FileNode.mem_visibleFiles h).mp hmem
  rw [FileNode.document, FileNode.text?_eq_join_file?, hfile]
  rfl

theorem isTaken_iff (h : n.Proper) {f : FilePath × Document} :
    IsTaken (Findings.ofFiles n.visibleFiles).documents f ↔ n.IsTaken f.1 f.2.id := by
  constructor
  · rintro ⟨g, hg, hlt, hid⟩
    obtain ⟨hgives, hopen⟩ := (Findings.mem_documents_visibleFiles h).mp hg
    obtain ⟨hyaml, hdoc⟩ := FileNode.gives?_eq_some_iff_document.mp hgives
    exact ⟨g.1, g.2, hlt, hopen, hyaml, hdoc, hid⟩
  · rintro ⟨q, d, hlt, hopen, hyaml, hdoc, hid⟩
    have hgives := FileNode.gives?_eq_some_iff_document.mpr ⟨hyaml, hdoc⟩
    exact ⟨(q, d), (Findings.mem_documents_visibleFiles h).mpr ⟨hgives, hopen⟩, hlt, hid⟩

theorem hasStatus_of_mem_load (h : n.Proper) (hmem : ⟨path, status⟩ ∈ (c.load (some n)).2) :
    n.HasStatus path status := by
  have htaken := c.takenUp_load h
  rw [htaken.results, List.mem_append, List.mem_map] at hmem
  rcases hmem with hmem | ⟨f, hf, heq⟩
  · obtain ⟨content, hfile, hsaid⟩ := Findings.mem_results_ofFiles.mp hmem
    rcases hsaid with ⟨reason, hskip, rfl⟩ | ⟨hskip, e, herror, rfl⟩
    · exact FileNode.hasStatus_of_skipReason? hskip
    · refine .illegible (skipReason?_eq_none_iff.mp hskip) ?_
      rw [document_of_mem_visibleFiles h hfile, herror]
  · obtain ⟨hgives, -⟩ := (Findings.mem_documents_visibleFiles h).mp hf
    obtain ⟨hyaml, hdoc⟩ := FileNode.gives?_eq_some_iff_document.mp hgives
    have hfirst := htaken.first f hf
    rw [isTaken_iff h] at hfirst
    unfold verdict at heq
    split at heq
    · next hsource =>
      cases heq
      exact .loaded hyaml hdoc (hfirst.mp hsource)
    · next hsource =>
      cases heq
      exact .duplicate hyaml hdoc (not_not.mp (mt hfirst.mpr hsource))

theorem mem_paths_load_iff (h : n.Proper) (folder : n.isFolder) :
    path ∈ (c.load (some n)).2.map (·.path) ↔
      (n.file? path).isSome ∧ FileNode.IsOpen path := by
  rw [(c.perm_results_load h).mem_iff, List.mem_map]
  constructor
  · rintro ⟨⟨p, content⟩, hmem, rfl⟩
    obtain ⟨-, hfile, hopen⟩ := (FileNode.mem_visibleFiles h).mp hmem
    exact ⟨by rw [hfile]; rfl, hopen⟩
  · rintro ⟨hfile, hopen⟩
    obtain ⟨content, hfile⟩ := Option.isSome_iff_exists.mp hfile
    refine ⟨(path, content), (FileNode.mem_visibleFiles h).mpr ⟨?_, hfile, hopen⟩, rfl⟩
    rintro rfl
    cases n with
    | file => cases folder
    | folder => cases hfile

theorem mem_load_iff (h : n.Proper) (folder : n.isFolder) :
    ⟨path, status⟩ ∈ (c.load (some n)).2 ↔
      (n.file? path).isSome ∧ FileNode.IsOpen path ∧ n.HasStatus path status := by
  rw [← and_assoc, ← c.mem_paths_load_iff h folder]
  constructor
  · intro hmem
    exact ⟨List.mem_map_of_mem hmem, c.hasStatus_of_mem_load h hmem⟩
  · rintro ⟨hpath, hstatus⟩
    obtain ⟨⟨p, status'⟩, hmem, rfl⟩ := List.mem_map.mp hpath
    rw [hstatus.unique (c.hasStatus_of_mem_load h hmem)]
    exact hmem

theorem source?_load_iff (h : n.Proper) {x : String} :
    (c.load (some n)).1.source? path = some x ↔ ⟨path, .loaded x⟩ ∈ (c.load (some n)).2 := by
  refine ((c.takenUp_load h).loaded_iff fun r hr => ?_).symm
  obtain ⟨path, status⟩ := r
  obtain ⟨content, -, ⟨reason, -, rfl⟩ | ⟨-, e, -, rfl⟩⟩ := Findings.mem_results_ofFiles.mp hr
  · rfl
  · rfl

/-- Loading a folder accounts for every file. -/
theorem load_accounts (h : n.Proper) (folder : n.isFolder) :
    Accounts n c (c.load (some n)).1 (c.load (some n)).2 := by
  have hloaded := loaded_load c h
  refine ⟨?_, fun path hfile hopen => ?_, fun path status => c.mem_load_iff h folder,
    fun x d => ?_, fun path x => c.source?_load_iff h, hloaded.once, fun other => ?_, ?_⟩
  · rw [(c.perm_results_load h).nodup_iff]
    exact List.pairwise_map.mpr ((FileNode.pairwise_visibleFiles h).imp ne_of_lt)
  · obtain ⟨⟨p, status⟩, hmem, rfl⟩ :=
      List.mem_map.mp ((c.mem_paths_load_iff h folder).mpr ⟨hfile, hopen⟩)
    exact ⟨status, hmem⟩
  · simp only [← c.source?_load_iff h]
    constructor
    · intro hd
      obtain ⟨path, hsource, hgives⟩ := hloaded.exists_source? h hd
      exact ⟨path, hsource, (FileNode.gives?_eq_some_iff_document.mp hgives).2⟩
    · rintro ⟨path, hsource, hdoc⟩
      obtain ⟨e, hgives, -, hd⟩ := hloaded.gives h hsource
      rw [(FileNode.gives?_eq_some_iff_document.mp hgives).2] at hdoc
      cases hdoc
      exact hd
  · rw [other.load_eq, c.load_eq]
    exact ⟨rfl, rfl, rfl⟩
  · rw [c.load_eq]

end Load

/-- The files of this folder meet every fate. -/
def mixedFolder : FileNode :=
  [FileChange.place ["north", "b.yml"] (some everyDayText),
    .place ["north", ".b.yaml"] (some everyDayText),
    .place [".git", "a.yaml"] (some everyDayText),
    .place ["south", "a.yaml"] (some everyDayText),
    .place ["south", "lost.yaml"] none,
    .place ["notes.txt"] (some everyDayText),
    .place ["action.yaml"] (some "kind: Action")].foldl FileChange.apply .empty

theorem load_accounts_mixed :
    let before : Catalog := { sources := [(["old.yaml"], "old")], generation := 3 }
    let loaded := before.load (some mixedFolder)
    mixedFolder.Proper ∧ mixedFolder.isFolder ∧ Accounts mixedFolder before loaded.1 loaded.2 ∧
      ∃ d, readDocument (some everyDayText) = .ok d ∧
        ⟨["south", "a.yaml"], .failed (.duplicate d.id)⟩ ∈ loaded.2 := by
  intro before loaded
  obtain ⟨d, hread⟩ := readDocument_everyDayText
  have hproper : mixedFolder.Proper := FileNode.Proper.empty.changes _
  have accounts : Accounts mixedFolder before loaded.1 loaded.2 :=
    load_accounts before hproper rfl
  have hyaml {path : FilePath} (h : skipReason? path = none) : IsYamlFile path :=
    skipReason?_eq_none_iff.mp h
  have htaken : mixedFolder.IsTaken ["south", "a.yaml"] d.id :=
    ⟨["north", "b.yml"], d, by decide, by decide, hyaml (by decide), hread, rfl⟩
  refine ⟨hproper, rfl, accounts, d, hread, (accounts.status _ _).mpr ⟨rfl, by decide, ?_⟩⟩
  exact .duplicate (hyaml (by decide)) hread htaken

end Catalog

end SeriesAlarm
