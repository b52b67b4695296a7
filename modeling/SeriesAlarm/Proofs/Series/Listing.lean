import SeriesAlarm.Proofs.Catalog.Accounting
import SeriesAlarm.Proofs.Series.Sources
import SeriesAlarm.Proofs.Text.Names
import SeriesAlarm.Proofs.Text.Written

/-!
# What a folder of series lists and what it finds

An identifier is listed if its file is in the folder, and it is found if it is accepted as a file name
and the file is there. The two agree but for backslashes, which file names may have and identifiers
may not. A name that is accepted leads to an entry of the folder itself, whatever the folder is.
-/

namespace SeriesAlarm

open Text

namespace FileNode

variable {name : String} {es : List (String × FileNode)}

/-- A name that an entry of a folder may have. -/
structure IsEntryName (name : String) : Prop where
  ne_empty : name ≠ ""
  ne_self : name ≠ "."
  ne_parent : name ≠ ".."
  noSlash : '/' ∉ name.toList
  noNul : '\x00' ∉ name.toList

/-- The folder has files only. -/
structure IsFlat (es : List (String × FileNode)) : Prop where
  names : ∀ e ∈ es, IsEntryName e.1
  distinct : (es.map (·.1)).Nodup
  files : ∀ e ∈ es, ∃ content, e.2 = .file content

def HasFile (dir : FileNode) (name : String) : Prop := ∃ content, dir.find? [name] = some (.file content)

theorem find?_single : (folder es).find? [name] = lookup name es := by
  cases h : lookup name es <;> simp [find?, h]

theorem IsFlat.hasFile_iff (flat : IsFlat es) :
    (folder es).HasFile name ↔ ∃ e ∈ es, e.1 = name := by
  constructor
  · rintro ⟨content, hfind⟩
    rw [find?_single] at hfind
    exact ⟨_, mem_of_lookup hfind, rfl⟩
  · rintro ⟨e, he, rfl⟩
    obtain ⟨content, hcontent⟩ := flat.files e he
    exact ⟨content, by rw [find?_single, lookup_of_mem flat.distinct he, hcontent]⟩

/-- The names on a path, without those that stay where they are. -/
def partsOf (path : List Char) : List (List Char) :=
  (splitOnChar '/' path).filter fun part => part ≠ [] ∧ part ≠ ['.']

/-- The path of a name in a folder; a name that begins with a slash is a path of its own. -/
def join (dir name : List Char) : List Char :=
  if name.head? = some '/' then name
  else if dir = [] ∨ dir.getLast? = some '/' then dir ++ name
  else dir ++ '/' :: name

theorem partsOf_append (a b : List Char) : partsOf (a ++ '/' :: b) = partsOf a ++ partsOf b := by
  simp only [partsOf, splitOnChar_eq_splitOn, List.splitOn_append_cons_self, List.filter_append]

/-- The name leads from a folder to an entry of the folder itself. -/
def LeadsToChild (name : String) : Prop :=
  name ≠ ".." ∧ ∀ dir, partsOf (join dir name.toList) = partsOf dir ++ [name.toList]

theorem leadsToChild_of_noSlash (hslash : '/' ∉ name.toList) (hempty : name ≠ "") (hself : name ≠ ".")
    (hparent : name ≠ "..") : LeadsToChild name := by
  have hone : partsOf name.toList = [name.toList] := by
    have hsplit : splitOnChar '/' name.toList = [name.toList] := by
      rw [splitOnChar_eq_splitOn]
      exact List.splitOn_eq_singleton hslash
    rw [partsOf, hsplit]
    refine List.filter_cons_of_pos (decide_eq_true ⟨?_, ?_⟩)
    · exact fun h => hempty (String.toList_inj.mp h)
    · exact fun h => hself (String.toList_inj.mp h)
  refine ⟨hparent, fun dir => ?_⟩
  rw [join, if_neg fun h => hslash (List.mem_of_head? h)]
  split
  · next hdir =>
    rcases hdir with rfl | hdir
    · exact hone
    · obtain ⟨d, rfl⟩ := List.getLast?_eq_some_iff.mp hdir
      have hopen : partsOf (d ++ ['/']) = partsOf d := (partsOf_append d []).trans (List.append_nil _)
      rw [List.append_assoc, hopen, ← hone]
      exact partsOf_append d name.toList
  · rw [partsOf_append, hone]

end FileNode

namespace Source

variable {id name : String} {es : List (String × FileNode)}

theorem fileName?_eq_ok_iff : fileName? id = .ok name ↔
    (id ≠ "" ∧ '/' ∉ id.toList ∧ '\\' ∉ id.toList ∧ ¬ FileNode.isHidden id) ∧ name = id ++ ".json" := by
  have hrefused : (id = "" ∨ id.toList.any (fun c => c == '/' || c == '\\') ∨ FileNode.isHidden id) ↔
      ¬ (id ≠ "" ∧ '/' ∉ id.toList ∧ '\\' ∉ id.toList ∧ ¬ FileNode.isHidden id) := by
    simp only [List.any_eq_true, Bool.or_eq_true, beq_iff_eq]
    grind
  unfold fileName?
  split
  · next h => exact iff_of_false nofun fun hok => hrefused.mp h hok.1
  · next h =>
    have haccepted := not_not.mp (mt hrefused.mpr h)
    simp [haccepted, eq_comm]

/-- The identifiers that are listed are those with a file, hidden ones left out. -/
theorem mem_listedIdentifiers_iff : id ∈ listedIdentifiers (.folder es) ↔
    (id ≠ "" ∧ ¬ FileNode.isHidden id) ∧ ∃ e ∈ es, e.1 = id ++ ".json" := by
  have hjson (stem : String) : stem ++ "." ++ "json" = stem ++ ".json" := String.append_assoc ..
  rw [listedIdentifiers, mem_sortedNames, List.mem_filterMap]
  constructor
  · rintro ⟨e, he, hlisted⟩
    split at hlisted
    · next stem hsplit =>
      obtain ⟨-, hstem, hname⟩ := FileNode.splitExtension_eq_iff.mp hsplit
      split at hlisted
      · cases hlisted
      · next hhidden =>
        cases hlisted
        exact ⟨⟨hstem, hhidden⟩, e, he, hname.trans (hjson _)⟩
    · cases hlisted
  · rintro ⟨⟨hempty, hhidden⟩, e, he, hname⟩
    have hsplit : FileNode.splitExtension e.1 = (id, some "json") :=
      FileNode.splitExtension_eq_iff.mpr ⟨by decide, hempty, hname.trans (hjson id).symm⟩
    refine ⟨e, he, ?_⟩
    rw [hsplit]
    exact if_neg hhidden

def Lists (dir : FileNode) (id : String) : Prop :=
  ∃ ids, (ofFolder (some dir)).identifiers = .ok ids ∧ id ∈ ids

def Finds (dir : FileNode) (id : String) : Prop := ∃ name, fileName? id = .ok name ∧ dir.HasFile name

def IsSeriesName (name : String) : Prop :=
  ∃ id, id ≠ "" ∧ ¬ FileNode.isHidden id ∧ name = id ++ ".json"

theorem lists_iff : Lists (.folder es) id ↔
    (id ≠ "" ∧ ¬ FileNode.isHidden id) ∧ ∃ e ∈ es, e.1 = id ++ ".json" := by
  rw [← mem_listedIdentifiers_iff]
  exact ⟨fun ⟨_, hids, hid⟩ => by cases hids; exact hid, fun h => ⟨_, rfl, h⟩⟩

/-- What is found is what is listed without a backslash. -/
theorem finds_iff (flat : FileNode.IsFlat es) :
    Finds (.folder es) id ↔ Lists (.folder es) id ∧ '\\' ∉ id.toList := by
  simp only [Finds, fileName?_eq_ok_iff, lists_iff]
  constructor
  · rintro ⟨_, ⟨⟨hempty, -, hback, hhidden⟩, rfl⟩, hfile⟩
    exact ⟨⟨⟨hempty, hhidden⟩, flat.hasFile_iff.mp hfile⟩, hback⟩
  · rintro ⟨⟨⟨hempty, hhidden⟩, e, he, hname⟩, hback⟩
    have hslash : '/' ∉ id.toList := fun h => (flat.names e he).noSlash (by simp [hname, h])
    exact ⟨_, ⟨⟨hempty, hslash, hback, hhidden⟩, rfl⟩, flat.hasFile_iff.mpr ⟨e, he, hname⟩⟩

theorem leadsToChild_of_fileName? (h : fileName? id = .ok name) : FileNode.LeadsToChild name := by
  obtain ⟨⟨-, hslash, -⟩, rfl⟩ := fileName?_eq_ok_iff.mp h
  have hlong : 5 ≤ (id ++ ".json").length := by
    rw [String.length_append]
    exact Nat.le_add_left 5 _
  refine FileNode.leadsToChild_of_noSlash (by simpa using hslash) ?_ ?_ ?_ <;>
  · intro heq
    rw [heq] at hlong
    exact absurd hlong (by decide)

/-- In a folder of files, listing and finding agree exactly if no series file has a backslash in its
name. Without a backslash in the identifier they always agree, and no identifier leads out of the
folder. -/
theorem lists_iff_finds_iff (flat : FileNode.IsFlat es) :
    ((∀ id, Lists (.folder es) id ↔ Finds (.folder es) id) ↔
      ∀ e ∈ es, IsSeriesName e.1 → '\\' ∉ e.1.toList) ∧
    (∀ id, '\\' ∉ id.toList → (Lists (.folder es) id ↔ Finds (.folder es) id)) ∧
    ∀ id name, fileName? id = .ok name → FileNode.LeadsToChild name := by
  refine ⟨?_, fun id hback => ?_, fun id name => leadsToChild_of_fileName?⟩
  · constructor
    · rintro hagree e he ⟨id, hempty, hhidden, hname⟩ hback
      have hlists : Lists (.folder es) id := lists_iff.mpr ⟨⟨hempty, hhidden⟩, e, he, hname⟩
      refine ((finds_iff flat).mp ((hagree id).mp hlists)).2 ?_
      simpa [hname] using hback
    · intro hplain id
      rw [finds_iff flat]
      refine (and_iff_left_of_imp fun hlists => ?_).symm
      obtain ⟨⟨hempty, hhidden⟩, e, he, hname⟩ := lists_iff.mp hlists
      have hback := hplain e he ⟨id, hempty, hhidden, hname⟩
      simpa [hname] using hback
  · rw [finds_iff flat, and_iff_left hback]

/-- A folder with a hidden file, one that is no series, and one with a backslash in its name. -/
def mixedEntries : List (String × FileNode) :=
  [("north.stage.json", .file (some stageText)), (".draft.json", .file (some stageText)),
    ("notes.txt", .file none), ("south\\stage.json", .file (some stageText))]

theorem isFlat_mixed : FileNode.IsFlat mixedEntries where
  names e he := by
    have hall : ∀ e ∈ mixedEntries, e.1 ≠ "" ∧ e.1 ≠ "." ∧ e.1 ≠ ".." ∧ '/' ∉ e.1.toList ∧
        '\x00' ∉ e.1.toList := by decide
    obtain ⟨hempty, hself, hparent, hslash, hnul⟩ := hall e he
    exact ⟨hempty, hself, hparent, hslash, hnul⟩
  distinct := by decide
  files e he := by
    simp only [mixedEntries, List.mem_cons, List.not_mem_nil, or_false] at he
    rcases he with rfl | rfl | rfl | rfl <;> exact ⟨_, rfl⟩

theorem lists_iff_finds_iff_mixed :
    FileNode.IsFlat mixedEntries ∧
    ((∀ id, Lists (.folder mixedEntries) id ↔ Finds (.folder mixedEntries) id) ↔
      ∀ e ∈ mixedEntries, IsSeriesName e.1 → '\\' ∉ e.1.toList) ∧
    (∀ id, '\\' ∉ id.toList →
      (Lists (.folder mixedEntries) id ↔ Finds (.folder mixedEntries) id)) ∧
    ∀ id name, fileName? id = .ok name → FileNode.LeadsToChild name :=
  ⟨isFlat_mixed, lists_iff_finds_iff isFlat_mixed⟩

theorem lists_not_finds_southStage : FileNode.IsFlat mixedEntries ∧
    Lists (.folder mixedEntries) "south\\stage" ∧ ¬ Finds (.folder mixedEntries) "south\\stage" := by
  refine ⟨isFlat_mixed, lists_iff.mpr ⟨by decide, _, List.mem_of_getLast? rfl, by decide⟩, ?_⟩
  rintro ⟨name, hname, -⟩
  exact (fileName?_eq_ok_iff.mp hname).1.2.2.1 (by decide)

end Source
end SeriesAlarm
