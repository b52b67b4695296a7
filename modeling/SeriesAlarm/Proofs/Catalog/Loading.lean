import Mathlib.Data.List.Induction
import SeriesAlarm.Proofs.Catalog.Documents
import SeriesAlarm.Proofs.Catalog.Folder

/-!
# What a scan loads

A scan finds the documents of the visible files. Of those with one id it takes up one, and it knows
the file of each that it took up.
-/

namespace SeriesAlarm

/-- The document that a path gives: that of a YAML file with a visible name. -/
def FileNode.gives? (n : FileNode) (path : FilePath) : Option Document :=
  if skipReason? path = none then (n.document path).toOption else none

namespace FileNode

theorem gives?_eq_some_iff {n : FileNode} {path : FilePath} {d : Document} :
    n.gives? path = some d ↔ skipReason? path = none ∧
      ∃ content, n.file? path = some content ∧ readDocument content = .ok d := by
  unfold gives?
  split
  next hskip =>
    simp only [hskip, true_and, document, text?_eq_join_file?]
    cases n.file? path with
    | none => simp [readDocument, Except.toOption]
    | some content =>
      cases hread : readDocument content <;> simp [hread, Except.toOption]
  next hskip => simp [hskip]

theorem gives?_congr {n m : FileNode} {path : FilePath} (h : n.file? path = m.file? path) :
    n.gives? path = m.gives? path := by
  simp only [gives?, document, text?_eq_join_file?, h]

theorem skipReason?_nil : skipReason? [] ≠ none := by decide

end FileNode

namespace Findings

theorem mem_documents_ofFiles {files : List (FilePath × Option String)} {path : FilePath}
    {d : Document} :
    (path, d) ∈ (ofFiles files).documents ↔
      ∃ content, (path, content) ∈ files ∧ skipReason? path = none ∧ readDocument content = .ok d := by
  unfold ofFiles
  induction files using List.reverseRec with
  | nil => simp
  | append_singleton files file ih =>
    obtain ⟨p, content⟩ := file
    rw [List.foldl_append, List.foldl_cons, List.foldl_nil]
    generalize List.foldl visit {} files = f at ih
    have hsplit : (∃ c, (path, c) ∈ files ++ [(p, content)] ∧ skipReason? path = none ∧
        readDocument c = .ok d) ↔ (path, d) ∈ f.documents ∨
          path = p ∧ skipReason? p = none ∧ readDocument content = .ok d := by
      rw [ih]
      constructor
      · rintro ⟨c, hmem, hskip, hread⟩
        rcases List.mem_append.mp hmem with hmem | hmem
        · exact .inl ⟨c, hmem, hskip, hread⟩
        · cases List.mem_singleton.mp hmem
          exact .inr ⟨rfl, hskip, hread⟩
      · rintro (⟨c, hmem, hskip, hread⟩ | ⟨rfl, hskip, hread⟩)
        · exact ⟨c, List.mem_append_left _ hmem, hskip, hread⟩
        · exact ⟨content, List.mem_append_right _ (List.mem_singleton_self _), hskip, hread⟩
    rw [hsplit]
    unfold visit
    split
    · next hskip => simp [hskip]
    · next hskip =>
      split
      · next e hread => simp [hskip, hread, Prod.ext_iff, eq_comm]
      · next hread => simp [hskip, hread]

theorem mem_documents_visibleFiles {n : FileNode} (h : n.Proper) {path : FilePath} {d : Document} :
    (path, d) ∈ (ofFiles n.visibleFiles).documents ↔
      n.gives? path = some d ∧ FileNode.IsOpen path := by
  rw [mem_documents_ofFiles, FileNode.gives?_eq_some_iff]
  constructor
  · rintro ⟨content, hmem, hskip, hread⟩
    obtain ⟨-, hfile, hopen⟩ := (FileNode.mem_visibleFiles h).mp hmem
    exact ⟨⟨hskip, content, hfile, hread⟩, hopen⟩
  · rintro ⟨⟨hskip, content, hfile, hread⟩, hopen⟩
    refine ⟨content, (FileNode.mem_visibleFiles h).mpr ⟨?_, hfile, hopen⟩, hskip, hread⟩
    rintro rfl
    exact FileNode.skipReason?_nil hskip

end Findings

namespace Catalog

/-- What a catalog is once the documents found are taken up. -/
structure Loaded (found : List (FilePath × Document)) (c : Catalog) : Prop where
  sorted : Sorted c.documents
  /-- Every document is that of a file which is known to give its id. -/
  owned : ∀ d ∈ c.documents, ∃ path, (path, d) ∈ found ∧ c.source? path = some d.id
  named : ∀ path x, c.source? path = some x → ∃ d ∈ c.documents, d.id = x ∧ (path, d) ∈ found
  covers : ∀ f ∈ found, ∃ d ∈ c.documents, d.id = f.2.id
  once : ∀ p q x, c.source? p = some x → c.source? q = some x → p = q

namespace Loaded

variable {found : List (FilePath × Document)} {c : Catalog}

theorem document?_eq_some_iff (h : Loaded found c) {d : Document} :
    c.document? d.id = some d ↔ d ∈ c.documents := h.sorted.find?_eq_some_iff

theorem id_of_document? {x : String} {d : Document} (h : c.document? x = some d) : d.id = x := by
  simpa using List.find?_some h

section Take

variable {path : FilePath} {new : Document}

theorem skip (h : Loaded found c) {old : Document} (hold : c.document? new.id = some old) :
    Loaded (found ++ [(path, new)]) c := by
  refine ⟨h.sorted, ?_, ?_, ?_, h.once⟩
  · intro d hd
    obtain ⟨p, hp, hsource⟩ := h.owned d hd
    exact ⟨p, List.mem_append_left _ hp, hsource⟩
  · intro p x hsource
    obtain ⟨d, hd, hx, hp⟩ := h.named p x hsource
    exact ⟨d, hd, hx, List.mem_append_left _ hp⟩
  · intro f hf
    rcases List.mem_append.mp hf with hf | hf
    · exact h.covers f hf
    · rw [List.mem_singleton.mp hf]
      exact ⟨old, List.mem_of_find?_eq_some hold, id_of_document? hold⟩

theorem source?_eq_none (h : Loaded found c) (functional : ∀ d, (path, d) ∈ found → d = new)
    (hfree : ∀ d ∈ c.documents, d.id ≠ new.id) : c.source? path = none := by
  by_contra hknown
  obtain ⟨x, hx⟩ := Option.ne_none_iff_exists'.mp hknown
  obtain ⟨d, hd, -, hp⟩ := h.named path x hx
  exact hfree d hd (congrArg Document.id (functional d hp))

theorem insert (h : Loaded found c) (functional : ∀ d, (path, d) ∈ found → d = new)
    (hfree : ∀ d ∈ c.documents, d.id ≠ new.id) :
    Loaded (found ++ [(path, new)])
      { c with
        documents := insertDocument new c.documents, sources := (path, new.id) :: c.sources } := by
  have hnew : (path, new) ∈ found ++ [(path, new)] :=
    List.mem_append_right _ (List.mem_singleton_self _)
  have hmem (d : Document) : d ∈ insertDocument new c.documents ↔ d = new ∨ d ∈ c.documents :=
    h.sorted.mem_insertDocument_iff hfree
  have hunknown := h.source?_eq_none functional hfree
  have hself : List.lookup path ((path, new.id) :: c.sources) = some new.id :=
    List.lookup_cons_self
  have hother (p : FilePath) (hp : p ≠ path) :
      List.lookup p ((path, new.id) :: c.sources) = c.source? p :=
    lookup_cons_of_ne p hp new.id c.sources
  have halone (p : FilePath) (hp : List.lookup p ((path, new.id) :: c.sources) = some new.id) :
      p = path := by
    by_contra hne
    obtain ⟨d, hd, hid, -⟩ := h.named p _ ((hother p hne).symm.trans hp)
    exact hfree d hd hid
  refine ⟨h.sorted.insert new, ?_, ?_, ?_, ?_⟩
  · intro d hd
    rcases (hmem d).mp hd with rfl | hd
    · exact ⟨path, hnew, hself⟩
    · obtain ⟨p, hp, hsource⟩ := h.owned d hd
      have hne : p ≠ path := by
        rintro rfl
        rw [hunknown] at hsource
        cases hsource
      exact ⟨p, List.mem_append_left _ hp, (hother p hne).trans hsource⟩
  · intro p x hsource
    by_cases hp : p = path
    · subst hp
      have hx : new.id = x := Option.some.inj (hself.symm.trans hsource)
      exact ⟨new, (hmem new).mpr (.inl rfl), hx, hnew⟩
    · obtain ⟨d, hd, hx, hfound⟩ := h.named p x ((hother p hp).symm.trans hsource)
      exact ⟨d, (hmem d).mpr (.inr hd), hx, List.mem_append_left _ hfound⟩
  · intro f hf
    rcases List.mem_append.mp hf with hf | hf
    · obtain ⟨d, hd, hid⟩ := h.covers f hf
      exact ⟨d, (hmem d).mpr (.inr hd), hid⟩
    · rw [List.mem_singleton.mp hf]
      exact ⟨new, (hmem new).mpr (.inl rfl), rfl⟩
  · intro p q x hsource hsource'
    by_cases hx : x = new.id
    · subst hx
      exact (halone p hsource).trans (halone q hsource').symm
    · have hne (r : FilePath) (hr : List.lookup r ((path, new.id) :: c.sources) = some x) :
          r ≠ path := by
        rintro rfl
        exact hx (Option.some.inj (hself.symm.trans hr)).symm
      have hp := (hother p (hne p hsource)).symm.trans hsource
      have hq := (hother q (hne q hsource')).symm.trans hsource'
      exact h.once p q x hp hq

end Take

/-- A document that is found is taken up unless its id is taken. -/
theorem take (h : Loaded found c) (f : FilePath × Document) (results : List LoadResult)
    (functional : ∀ d, (f.1, d) ∈ found → d = f.2) :
    Loaded (found ++ [f]) (Catalog.take (c, results) f).1 := by
  unfold Catalog.take
  split
  · next htaken =>
    obtain ⟨old, hold⟩ := Option.isSome_iff_exists.mp htaken
    exact h.skip hold
  · next hfree =>
    refine h.insert functional fun d hd heq => hfree ?_
    rw [← heq, h.document?_eq_some_iff.mpr hd]
    rfl

theorem of_foldl (functional : ∀ p d e, (p, d) ∈ found → (p, e) ∈ found → d = e)
    (generation : Nat) (results : List LoadResult) :
    Loaded found (found.foldl Catalog.take ({ generation }, results)).1 := by
  induction found using List.reverseRec with
  | nil =>
    refine ⟨List.Pairwise.nil, fun d hd => ?_, fun p x hx => ?_, fun f hf => ?_, fun p q x hx => ?_⟩
    · cases hd
    · cases hx
    · cases hf
    · cases hx
  | append_singleton found f ih =>
    rw [List.foldl_append, List.foldl_cons, List.foldl_nil]
    refine (ih fun p d e hd he => ?_).take f _ fun d hd => ?_
    · exact functional p d e (List.mem_append_left _ hd) (List.mem_append_left _ he)
    · exact functional f.1 d f.2 (List.mem_append_left _ hd)
        (List.mem_append_right _ (List.mem_singleton_self _))

section Folder

variable {n : FileNode}

theorem gives (h : Loaded (Findings.ofFiles n.visibleFiles).documents c) (hn : n.Proper)
    {path : FilePath} {x : String} (hsource : c.source? path = some x) :
    ∃ d, n.gives? path = some d ∧ d.id = x ∧ c.document? x = some d := by
  obtain ⟨d, hd, hid, hfound⟩ := h.named path x hsource
  refine ⟨d, ((Findings.mem_documents_visibleFiles hn).mp hfound).1, hid, ?_⟩
  rw [← hid]
  exact h.document?_eq_some_iff.mpr hd

theorem exists_source? (h : Loaded (Findings.ofFiles n.visibleFiles).documents c) (hn : n.Proper)
    {x : String} {d : Document} (hd : c.document? x = some d) :
    ∃ path, c.source? path = some x ∧ n.gives? path = some d := by
  have hid := id_of_document? hd
  obtain ⟨path, hfound, hsource⟩ := h.owned d (List.mem_of_find?_eq_some hd)
  rw [hid] at hsource
  exact ⟨path, hsource, ((Findings.mem_documents_visibleFiles hn).mp hfound).1⟩

theorem exists_owner (h : Loaded (Findings.ofFiles n.visibleFiles).documents c) (hn : n.Proper)
    {path : FilePath} {d : Document} (hgives : n.gives? path = some d)
    (hopen : FileNode.IsOpen path) : ∃ owner, c.source? owner = some d.id := by
  have hfound := (Findings.mem_documents_visibleFiles hn).mpr ⟨hgives, hopen⟩
  obtain ⟨e, he, hid⟩ := h.covers _ hfound
  obtain ⟨owner, -, hsource⟩ := h.owned e he
  exact ⟨owner, hsource.trans (congrArg some hid)⟩

end Folder

end Loaded

/-- What loading a folder comes to, whatever the catalog was before. -/
theorem loaded_load (c : Catalog) {n : FileNode} (h : n.Proper) :
    Loaded (Findings.ofFiles n.visibleFiles).documents (c.load (some n)).1 := by
  refine Loaded.of_foldl (fun p d e hd he => ?_) _ _
  have hd := ((Findings.mem_documents_visibleFiles h).mp hd).1
  have he := ((Findings.mem_documents_visibleFiles h).mp he).1
  exact Option.some.inj (hd.symm.trans he)

theorem take_generation (s : Catalog × List LoadResult) (f : FilePath × Document) (g : Nat) :
    take ({ s.1 with generation := g }, s.2) f =
      ({ (take s f).1 with generation := g }, (take s f).2) := by
  unfold take
  change (if (s.1.document? f.2.id).isSome then _ else _) = _
  split <;> rfl

theorem load_eq (c : Catalog) (folder : Option FileNode) :
    c.load folder =
      ({ (load {} folder).1 with generation := c.generation + 1 }, (load {} folder).2) := by
  have hfold (found : List (FilePath × Document)) (s : Catalog × List LoadResult) (g : Nat) :
      found.foldl take ({ s.1 with generation := g }, s.2) =
        ({ (found.foldl take s).1 with generation := g }, (found.foldl take s).2) := by
    induction found generalizing s with
    | nil => rfl
    | cons f found ih => rw [List.foldl_cons, take_generation, ih, List.foldl_cons]
  exact hfold _ ({ generation := 1 }, _) (c.generation + 1)

def everyDayText : String :=
  "apiVersion: 1\nkind: Action\nmetadata: [log, Log]\nschedule: [\"00\", HH, 1Day]\nretention: 2Day\n" ++
    "delivery: [log]\n"

theorem readDocument_everyDayText : ∃ d, readDocument (some everyDayText) = .ok d := by
  have hok : (readDocument (some everyDayText)).isOk = true := by decide +kernel
  cases hread : readDocument (some everyDayText) with
  | ok d => exact ⟨d, rfl⟩
  | error e => rw [hread] at hok; cases hok

end Catalog
end SeriesAlarm
