import SeriesAlarm.Proofs.Catalog.Accounting
import SeriesAlarm.Proofs.Catalog.Generation

/-!
# Which files are taken up

An event is judged by the name of its file alone, while a load never enters a hidden folder. The two
agree on every file that is not in a hidden folder, and on no document that is in one.
-/

namespace SeriesAlarm

variable {n : FileNode} {path : FilePath} {d : Document}

theorem FileNode.file?_isSome_of_document (h : n.document path = .ok d) :
    (n.file? path).isSome := by
  rw [document, text?_eq_join_file?] at h
  cases hfile : n.file? path with
  | none =>
    rw [hfile] at h
    cases h
  | some content => rfl

theorem FileNode.eq_of_document_around_single {outer name text : String}
    (h : (around outer (single name text)).document path = .ok d) : path = [outer, name] := by
  have hfile := file?_isSome_of_document h
  rw [file?_around_single] at hfile
  split at hfile
  · assumption
  · cases hfile

namespace Catalog

section TakingUp

variable (c : Catalog)

/-- An event makes the catalog take up a file for its own name. -/
theorem document?_handle_iff (hdoc : n.document path = .ok d) (fresh : c.document? d.id ≠ some d)
    {kind : FileEventKind} (write : kind.isWrite) :
    (c.handle n ⟨kind, [path]⟩).document? d.id = some d ↔ IsYamlFile path := by
  obtain ⟨content, hfile⟩ := Option.isSome_iff_exists.mp (FileNode.file?_isSome_of_document hdoc)
  have hthere : (n.find? path).isSome := by
    rw [FileNode.file?_eq_some_iff.mp hfile]
    rfl
  change (c.handlePath n kind path).document? d.id = some d ↔ _
  rw [← skipReason?_eq_none_iff]
  by_cases hskip : skipReason? path = none
  · rw [handlePath_of_there n c hskip write hthere, hdoc]
    refine iff_of_true ?_ hskip
    change (c.upsert path d).document? d.id = some d
    rw [document?_upsert, if_pos rfl]
  · rw [handlePath_of_skip n c hskip]
    exact iff_of_false fresh hskip

/-- A load takes up a file for all names of its path. -/
theorem mem_loaded_iff (h : n.Proper) (folder : n.isFolder) (hdoc : n.document path = .ok d)
    (free : ¬ n.IsTaken path d.id) :
    ⟨path, .loaded d.id⟩ ∈ (c.load (some n)).2 ↔ FileNode.IsOpen path ∧ IsYamlFile path := by
  rw [c.mem_load_iff h folder, and_iff_right (FileNode.file?_isSome_of_document hdoc)]
  refine and_congr_right fun _ => ⟨?_, fun yaml => .loaded yaml hdoc free⟩
  generalize hstatus : LoadStatus.loaded d.id = status
  rintro (_ | _ | _ | _ | ⟨yaml, -, -⟩)
  any_goals cases hstatus
  exact yaml

end TakingUp

/-- Taking up the event of a file adds its document if a load would, and only then, exactly if the
file is not in a hidden folder or would be passed over for its own name. -/
theorem added_iff_loaded_iff (c : Catalog) (h : n.Proper) (folder : n.isFolder)
    (hdoc : n.document path = .ok d) (fresh : c.document? d.id ≠ some d)
    (free : ¬ n.IsTaken path d.id) {kind : FileEventKind} (write : kind.isWrite) :
    ((c.handle n ⟨kind, [path]⟩).document? d.id = some d ↔
        ⟨path, .loaded d.id⟩ ∈ (c.load (some n)).2) ↔
      (IsYamlFile path → FileNode.IsOpen path) := by
  rw [c.document?_handle_iff hdoc fresh write, c.mem_loaded_iff h folder hdoc free]
  tauto

theorem added_iff_loaded_iff_north :
    let n := FileNode.around "north" (.single "a.yaml" everyDayText)
    n.Proper ∧ n.isFolder ∧ ∃ d, n.document ["north", "a.yaml"] = .ok d ∧
      document? {} d.id ≠ some d ∧ ¬ n.IsTaken ["north", "a.yaml"] d.id ∧
      (handle n {} ⟨.created, [["north", "a.yaml"]]⟩).document? d.id = some d ∧
      ⟨["north", "a.yaml"], .loaded d.id⟩ ∈ (load {} (some n)).2 := by
  intro n
  obtain ⟨d, hread⟩ := readDocument_everyDayText
  have hproper : n.Proper := (FileNode.proper_single _ _).around _
  have hdoc : n.document ["north", "a.yaml"] = .ok d := hread
  have hfresh : document? {} d.id ≠ some d := fun h => by cases h
  have hfree : ¬ n.IsTaken ["north", "a.yaml"] d.id := by
    rintro ⟨q, e, hlt, -, -, he, -⟩
    rw [FileNode.eq_of_document_around_single he] at hlt
    exact lt_irrefl _ hlt
  have hadded : (handle n {} ⟨.created, [["north", "a.yaml"]]⟩).document? d.id = some d :=
    (document?_handle_iff {} hdoc hfresh rfl).mpr (skipReason?_eq_none_iff.mp (by decide))
  have hwrite : FileEventKind.created.isWrite := rfl
  have hagree := added_iff_loaded_iff {} hproper rfl hdoc hfresh hfree hwrite
  exact ⟨hproper, rfl, d, hdoc, hfresh, hfree, hadded,
    (hagree.mpr fun _ => by decide).mp hadded⟩

/-- A file is written in a hidden folder: its document is added although no load finds it. -/
theorem added_not_loaded_drafts :
    let n := FileNode.around ".drafts" (.single "a.yaml" everyDayText)
    n.Proper ∧ n.isFolder ∧ ∃ d, n.document [".drafts", "a.yaml"] = .ok d ∧
      (∀ q e, n.document q = .ok e → q = [".drafts", "a.yaml"]) ∧
      (handle n {} ⟨.created, [[".drafts", "a.yaml"]]⟩).document? d.id = some d ∧
      (load {} (some n)).2 = [] := by
  intro n
  obtain ⟨d, hread⟩ := readDocument_everyDayText
  have hproper : n.Proper := (FileNode.proper_single _ _).around _
  have hdoc : n.document [".drafts", "a.yaml"] = .ok d := hread
  refine ⟨hproper, rfl, d, hdoc, fun q e => FileNode.eq_of_document_around_single, ?_, ?_⟩
  · exact (document?_handle_iff {} hdoc (fun h => by cases h) rfl).mpr
      (skipReason?_eq_none_iff.mp (by decide))
  · rw [List.eq_nil_iff_forall_not_mem]
    rintro ⟨path, status⟩ hmem
    obtain ⟨hfile, hopen, -⟩ := (mem_load_iff {} hproper rfl).mp hmem
    rw [FileNode.file?_around_single] at hfile
    split at hfile
    · next hpath =>
      rw [hpath] at hopen
      exact absurd hopen (by decide)
    · cases hfile

end Catalog
end SeriesAlarm
