import Mathlib.Data.List.Nodup
import SeriesAlarm.Catalog.Watch

/-!
# Folders as maps

In a folder no name stands twice, and changes keep it that way. The files that a scan visits are
then those that a path leads to, hidden folders aside.
-/

namespace SeriesAlarm
namespace FileNode

/-- No folder of the tree has a name twice. -/
inductive Proper : FileNode → Prop
  | file (content : Option String) : Proper (.file content)
  | folder {es : List (String × FileNode)} (names : (es.map (·.1)).Nodup)
      (entries : ∀ e ∈ es, Proper e.2) : Proper (.folder es)

section Lookup

variable {name : String} {node : FileNode} {es : List (String × FileNode)}

theorem mem_of_lookup (h : lookup name es = some node) : (name, node) ∈ es := by
  induction es with
  | nil => cases h
  | cons e es ih =>
    simp only [lookup] at h
    split at h
    · next heq =>
      cases h
      rw [← heq]
      exact List.mem_cons_self
    · exact List.mem_cons_of_mem e (ih h)

theorem lookup_of_mem (names : (es.map (·.1)).Nodup) (h : (name, node) ∈ es) :
    lookup name es = some node := by
  induction es with
  | nil => cases h
  | cons e es ih =>
    rw [List.map_cons, List.nodup_cons] at names
    simp only [lookup]
    rcases List.mem_cons.mp h with rfl | h
    · exact if_pos rfl
    · have hne : e.1 ≠ name := by
        intro heq
        apply names.1
        rw [heq]
        exact List.mem_map_of_mem h
      rw [if_neg hne]
      exact ih names.2 h

theorem mem_setEntry {e : String × FileNode} (h : e ∈ setEntry name node es) :
    e = (name, node) ∨ e ∈ es := by
  induction es with
  | nil => exact .inl (List.mem_singleton.mp h)
  | cons f es ih =>
    simp only [setEntry] at h
    split at h
    · rcases List.mem_cons.mp h with h | h
      · exact .inl h
      · exact .inr (List.mem_cons_of_mem f h)
    · rcases List.mem_cons.mp h with h | h
      · exact .inr (List.mem_cons.mpr (.inl h))
      · exact (ih h).imp_right (List.mem_cons_of_mem f)

theorem mem_names_setEntry {other : String} :
    other ∈ (setEntry name node es).map (·.1) ↔ other = name ∨ other ∈ es.map (·.1) := by
  induction es with
  | nil => simp [setEntry]
  | cons e es ih =>
    simp only [setEntry]
    split
    · next heq => simp [heq]
    · rw [List.map_cons, List.mem_cons, ih, List.map_cons, List.mem_cons, or_left_comm]

theorem nodup_setEntry (h : (es.map (·.1)).Nodup) : ((setEntry name node es).map (·.1)).Nodup := by
  induction es with
  | nil => exact List.nodup_singleton name
  | cons e es ih =>
    rw [List.map_cons, List.nodup_cons] at h
    simp only [setEntry]
    split
    · next heq =>
      rw [List.map_cons, List.nodup_cons, ← heq]
      exact h
    · next hne =>
      rw [List.map_cons, List.nodup_cons, mem_names_setEntry]
      exact ⟨fun hmem => hmem.elim hne h.1, ih h.2⟩

end Lookup

namespace Proper

theorem empty : FileNode.empty.Proper := .folder List.nodup_nil fun e he => by cases he

theorem of_lookup {es : List (String × FileNode)} (h : (FileNode.folder es).Proper) {name : String}
    {node : FileNode} (hl : lookup name es = some node) : node.Proper := by
  cases h with
  | folder names entries => exact entries _ (mem_of_lookup hl)

theorem find? {n m : FileNode} (h : n.Proper) {path : FilePath} (hm : n.find? path = some m) :
    m.Proper := by
  induction path generalizing n with
  | nil =>
    cases hm
    exact h
  | cons name rest ih =>
    cases n with
    | file => cases hm
    | folder es =>
      obtain ⟨node, hnode, hm⟩ := Option.bind_eq_some_iff.mp hm
      exact ih (h.of_lookup hnode) hm

theorem setEntry {es : List (String × FileNode)} (h : (FileNode.folder es).Proper) (name : String)
    {node : FileNode} (hnode : node.Proper) : (FileNode.folder (setEntry name node es)).Proper := by
  cases h with
  | folder names entries =>
    refine .folder (nodup_setEntry names) fun e he => ?_
    rcases mem_setEntry he with rfl | he
    · exact hnode
    · exact entries e he

theorem put {n node : FileNode} (h : n.Proper) (hnode : node.Proper) (path : FilePath) :
    (n.put node path).Proper := by
  induction path generalizing n with
  | nil => exact hnode
  | cons name rest ih =>
    cases n with
    | file => exact h
    | folder es =>
      refine h.setEntry name (ih ?_)
      cases hl : lookup name es with
      | none => exact .empty
      | some m => exact h.of_lookup hl

theorem remove {n : FileNode} (h : n.Proper) (path : FilePath) : (n.remove path).Proper := by
  fun_induction FileNode.remove n path with
  | case1 => exact h
  | case2 => exact h
  | case3 name es =>
    cases h with
    | folder names entries =>
      refine .folder ?_ fun e he => entries e (List.mem_filter.mp he).1
      exact names.sublist (List.filter_sublist.map Prod.fst)
  | case4 => exact h
  | case5 name rest _ es m hl ih => exact h.setEntry name (ih (h.of_lookup hl))
  | case6 => exact h

theorem change {n : FileNode} (h : n.Proper) (c : FileChange) : (c.apply n).Proper := by
  cases c with
  | place path content => exact h.put (.file content) path
  | write path content => exact h.put (.file content) path
  | delete path => exact h.remove path
  | rename old new =>
    simp only [FileChange.apply]
    split
    · next node hnode => exact (h.remove old).put (h.find? hnode) new
    · exact h
  | makeFolder path =>
    simp only [FileChange.apply]
    split
    · exact h
    · exact h.put .empty path

theorem changes {n : FileNode} (h : n.Proper) (cs : List FileChange) :
    (cs.foldl FileChange.apply n).Proper := by
  induction cs generalizing n with
  | nil => exact h
  | cons c cs ih => exact ih (h.change c)

end Proper

def file? (n : FileNode) (path : FilePath) : Option (Option String) :=
  match n.find? path with
  | some (.file content) => some content
  | _ => none

theorem file?_eq_some_iff {n : FileNode} {path : FilePath} {content : Option String} :
    n.file? path = some content ↔ n.find? path = some (.file content) := by
  unfold file?
  split
  · next h => simp [h]
  · next h =>
    constructor
    · intro hnone
      cases hnone
    · intro hfile
      exact absurd hfile (h content)

theorem text?_eq_join_file? (n : FileNode) (path : FilePath) :
    n.text? path = (n.file? path).join := by
  unfold text? file?
  cases n.find? path with
  | none => rfl
  | some m => cases m <;> rfl

def around (name : String) (node : FileNode) : FileNode := .folder [(name, node)]

def single (name text : String) : FileNode := .folder [(name, .file (some text))]

section Single

variable {name text : String} {node : FileNode} {path : FilePath}

theorem Proper.around (h : node.Proper) (name : String) : (around name node).Proper := by
  refine .folder (by simp) fun e he => ?_
  rw [List.mem_singleton.mp he]
  exact h

theorem proper_single (name text : String) : (single name text).Proper :=
  Proper.around (.file (some text)) name

theorem file?_around_cons {first : String} :
    (around name node).file? (first :: path) = if name = first then node.file? path else none := by
  unfold file? around
  by_cases hfirst : name = first <;> simp [find?, lookup, hfirst]

theorem file?_single :
    (single name text).file? path = if path = [name] then some (some text) else none := by
  cases path with
  | nil => rfl
  | cons first rest =>
    change (around name _).file? (first :: rest) = _
    rw [file?_around_cons]
    by_cases hfirst : name = first
    · subst hfirst
      cases rest <;> simp [file?, find?]
    · simp [hfirst, Ne.symm hfirst]

theorem file?_around_single {outer : String} :
    (around outer (single name text)).file? path =
      if path = [outer, name] then some (some text) else none := by
  cases path with
  | nil => rfl
  | cons first rest =>
    rw [file?_around_cons, file?_single]
    by_cases hfirst : outer = first
    · subst hfirst
      simp
    · simp [hfirst, Ne.symm hfirst]

end Single

theorem filesOfEntries_eq_map (skip : String → Bool) (base : FilePath)
    (es : List (String × FileNode)) :
    filesOfEntries skip base es = es.map fun e =>
      (e.1, if e.2.isFolder && skip e.1 then [] else e.2.filesFrom skip (base ++ [e.1])) := by
  induction es with
  | nil => rfl
  | cons e es ih =>
    rw [List.map_cons, ← ih]
    rfl

theorem mem_filesFrom_folder {skip : String → Bool} {base : FilePath}
    {es : List (String × FileNode)} {f : FilePath × Option String} :
    f ∈ (folder es).filesFrom skip base ↔
      ∃ e ∈ es, (e.2.isFolder && skip e.1) = false ∧ f ∈ e.2.filesFrom skip (base ++ [e.1]) := by
  simp only [filesFrom, List.mem_flatMap, List.mem_mergeSort, filesOfEntries_eq_map, List.mem_map]
  constructor
  · rintro ⟨_, ⟨e, he, rfl⟩, hf⟩
    split at hf
    · cases hf
    · next hseen => exact ⟨e, he, Bool.eq_false_iff.mpr hseen, hf⟩
  · rintro ⟨e, he, hseen, hf⟩
    refine ⟨_, ⟨e, he, rfl⟩, ?_⟩
    rwa [hseen]

/-- The files found are those that a path leads to, through no folder that is skipped. -/
theorem mem_filesFrom {skip : String → Bool} {n : FileNode} (h : n.Proper) {base path : FilePath}
    {content : Option String} :
    (path, content) ∈ n.filesFrom skip base ↔
      ∃ rest, path = base ++ rest ∧ n.find? rest = some (.file content) ∧
        ∀ name ∈ rest.dropLast, skip name = false := by
  induction h generalizing base path with
  | file c =>
    constructor
    · intro hmem
      cases List.mem_singleton.mp hmem
      exact ⟨[], (List.append_nil base).symm, rfl, fun name hname => by cases hname⟩
    · rintro ⟨rest, rfl, hfind, -⟩
      cases rest with
      | nil =>
        cases hfind
        rw [List.append_nil]
        exact List.mem_singleton_self _
      | cons => cases hfind
  | @folder es names entries ih =>
    rw [mem_filesFrom_folder]
    constructor
    · rintro ⟨e, he, hseen, hf⟩
      obtain ⟨rest, rfl, hfind, hrest⟩ := (ih e he).mp hf
      refine ⟨e.1 :: rest, by simp, ?_, ?_⟩
      · simp only [FileNode.find?, lookup_of_mem names he, Option.bind_some, hfind]
      · cases rest with
        | nil => exact fun name hname => by cases hname
        | cons second rest =>
          have hskip : skip e.1 = false := by
            cases hentry : e.2 with
            | file => simp [hentry, FileNode.find?] at hfind
            | folder => simpa [hentry, isFolder] using hseen
          intro name hname
          rw [List.dropLast_cons_cons] at hname
          rcases List.mem_cons.mp hname with rfl | hname
          · exact hskip
          · exact hrest name hname
    · rintro ⟨rest, rfl, hfind, hrest⟩
      cases rest with
      | nil => cases hfind
      | cons name rest =>
        obtain ⟨m, hm, hfind⟩ := Option.bind_eq_some_iff.mp hfind
        have he : (name, m) ∈ es := mem_of_lookup hm
        refine ⟨(name, m), he, ?_, (ih _ he).mpr ⟨rest, by simp, hfind, fun i hi => ?_⟩⟩
        · cases rest with
          | nil =>
            cases hfind
            rfl
          | cons =>
            rw [hrest name (by rw [List.dropLast_cons_cons]; exact List.mem_cons_self), Bool.and_false]
        · cases rest with
          | nil => cases hi
          | cons =>
            apply hrest
            rw [List.dropLast_cons_cons]
            exact List.mem_cons_of_mem name hi

/-- The folders on the way to a file are not hidden. -/
def IsOpen (path : FilePath) : Prop := ∀ name ∈ path.dropLast, isHidden name = false

instance (path : FilePath) : Decidable (IsOpen path) :=
  inferInstanceAs (Decidable (∀ name ∈ path.dropLast, isHidden name = false))

theorem mem_visibleFiles {n : FileNode} (h : n.Proper) {path : FilePath}
    {content : Option String} :
    (path, content) ∈ n.visibleFiles ↔ path ≠ [] ∧ n.file? path = some content ∧ IsOpen path := by
  rw [file?_eq_some_iff]
  unfold visibleFiles
  split
  · next hfolder =>
    rw [mem_filesFrom h]
    constructor
    · rintro ⟨rest, rfl, hfind, hopen⟩
      refine ⟨?_, hfind, hopen⟩
      rintro rfl
      cases hfind
      cases hfolder
    · rintro ⟨-, hfind, hopen⟩
      exact ⟨path, rfl, hfind, hopen⟩
  · next hfile =>
    constructor
    · intro hmem
      cases hmem
    · rintro ⟨hne, hfind, -⟩
      cases n with
      | file =>
        cases path with
        | nil => exact absurd rfl hne
        | cons => cases hfind
      | folder => exact absurd rfl hfile

end FileNode
end SeriesAlarm
