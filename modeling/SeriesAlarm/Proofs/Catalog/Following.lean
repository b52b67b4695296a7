import SeriesAlarm.Proofs.Catalog.Loading

/-!
# Following a folder and loading it anew

After a folder has changed, one event for each changed file is taken up in some order. What a catalog
holds then is what a new scan would load, exactly if every id that went over from one file to another
was given up before it was taken over.
-/

namespace SeriesAlarm

/-- The folder can be loaded without a failure, and hides no file in a folder. -/
structure FileNode.Settled (n : FileNode) : Prop where
  legible : ∀ path content, n.file? path = some content → skipReason? path = none →
    ∃ d, readDocument content = .ok d
  distinct : ∀ p q d e, n.gives? p = some d → n.gives? q = some e → d.id = e.id → p = q
  visible : ∀ path content, n.file? path = some content → FileNode.IsOpen path

/-- An event of this kind may stand for the file that is or was at the path. -/
def FileEventKind.Fits (n : FileNode) (path : FilePath) : FileEventKind → Prop
  | .created | .modified | .renamed => (n.file? path).isSome ∨ n.find? path = none
  | .removed => n.file? path = none
  | .other => False

/-- The events stand for the changes from one folder to another, one for each file. -/
structure FileEvent.Report (old new : FileNode) (events : List FileEvent) : Prop where
  once : (events.flatMap (·.paths)).Nodup
  complete : ∀ path, old.file? path ≠ new.file? path → path ∈ events.flatMap (·.paths)
  fits : ∀ e ∈ events, ∀ path ∈ e.paths, e.kind.Fits new path

namespace Catalog

section Once

variable {α : Type} {a b : α} {before after : List α}

theorem notMem_of_once (once : (before ++ a :: after).Nodup) : a ∉ before ∧ a ∉ after := by
  have hnot := (List.nodup_cons.mp (List.nodup_middle.mp once)).1
  exact ⟨fun h => hnot (List.mem_append_left _ h), fun h => hnot (List.mem_append_right _ h)⟩

theorem not_sublist_of_once (once : (before ++ b :: after).Nodup) (h : a ∈ after) :
    ¬ [a, b].Sublist (before ++ b :: after) := by
  intro hsub
  obtain ⟨hbefore, hafter⟩ := notMem_of_once once
  have hdisjoint := (List.nodup_append.mp once).2.2
  obtain ⟨left, right, hsplit, hleft, hright⟩ := List.sublist_append_iff.mp hsub
  cases left with
  | nil =>
    rw [List.nil_append] at hsplit
    subst hsplit
    rcases List.sublist_cons_iff.mp hright with hright | ⟨rest, hrest, -⟩
    · exact hafter (hright.subset (List.mem_cons_of_mem a (List.mem_singleton_self b)))
    · cases hrest
      exact hafter h
  | cons c left =>
    have hc : a = c := (List.cons.inj hsplit).1
    subst hc
    exact hdisjoint a (hleft.subset List.mem_cons_self) a (List.mem_cons_of_mem b h) rfl

end Once

def look (n : FileNode) (c : Catalog) (path : FilePath) : Catalog :=
  if skipReason? path = none then
    match n.gives? path with
    | some d => c.upsert path d
    | none => c.removePath path
  else c

section Look

variable {n : FileNode} {c : Catalog} {path : FilePath} {d : Document} {x : String}

theorem look_of_gives (h : n.gives? path = some d) : c.look n path = c.upsert path d := by
  have hskip := (FileNode.gives?_eq_some_iff.mp h).1
  rw [look, if_pos hskip, h]

theorem look_of_gives_none (h : n.gives? path = none) (hskip : skipReason? path = none) :
    c.look n path = c.removePath path := by
  rw [look, if_pos hskip, h]

theorem handlePath_eq_look (hn : n.Settled) {kind : FileEventKind} (h : kind.Fits n path) :
    c.handlePath n kind path = c.look n path := by
  unfold handlePath
  by_cases hskip : skipReason? path = none
  · have hgone (hfile : n.file? path = none) : c.look n path = c.removePath path := by
      refine look_of_gives_none ?_ hskip
      rw [Option.eq_none_iff_forall_ne_some]
      intro d hd
      obtain ⟨-, content, hcontent, -⟩ := FileNode.gives?_eq_some_iff.mp hd
      rw [hfile] at hcontent
      cases hcontent
    have hrefresh (hfits : (n.file? path).isSome ∨ n.find? path = none) :
        c.refresh n path = c.look n path := by
      unfold refresh
      rcases hfits with hfile | hnone
      · obtain ⟨content, hfile⟩ := Option.isSome_iff_exists.mp hfile
        obtain ⟨d, hread⟩ := hn.legible path content hfile hskip
        have hfind : n.find? path = some (.file content) := FileNode.file?_eq_some_iff.mp hfile
        have hgives : n.gives? path = some d :=
          FileNode.gives?_eq_some_iff.mpr ⟨hskip, content, hfile, hread⟩
        have hdocument : n.document path = .ok d := by
          rw [FileNode.document, FileNode.text?_eq_join_file?, hfile]
          exact hread
        rw [look_of_gives hgives, hfind, hdocument]
        rfl
      · have hfile : n.file? path = none := by rw [FileNode.file?, hnone]
        rw [hgone hfile, hnone]
        rfl
    rw [hskip]
    cases kind with
    | created => exact hrefresh h
    | modified => exact hrefresh h
    | renamed => exact hrefresh h
    | removed => exact (hgone h).symm
    | other => exact h.elim
  · have hskipped : (skipReason? path).isSome = true := Option.isSome_iff_ne_none.mpr hskip
    rw [if_pos hskipped, look, if_neg hskip]

theorem source?_look_of_ne {q : FilePath} (h : q ≠ path) :
    (c.look n path).source? q = c.source? q := by
  unfold look
  split
  · split
    · rw [source?_upsert, if_neg h]
    · rw [source?_removePath, if_neg h]
  · rfl

theorem sorted_look (h : Sorted c.documents) : Sorted (c.look n path).documents := by
  unfold look
  split
  · split
    · exact c.sorted_upsert path _ h
    · exact c.sorted_removePath path h
  · exact h

def Touches (n : FileNode) (c : Catalog) (x : String) (path : FilePath) : Prop :=
  c.source? path = some x ∨ ∃ d, n.gives? path = some d ∧ d.id = x

theorem document?_look_of_not_touches (h : ¬ c.Touches n x path) :
    (c.look n path).document? x = c.document? x := by
  have hsource : c.source? path ≠ some x := fun hs => h (.inl hs)
  unfold look
  split
  · split
    · next d hd =>
      have hid : d.id ≠ x := fun hx => h (.inr ⟨d, hd, hx⟩)
      rw [document?_upsert, if_neg hid, if_neg hsource]
    · rw [document?_removePath, if_neg hsource]
  · rfl

theorem document?_look_of_gives (h : n.gives? path = some d) :
    (c.look n path).document? d.id = some d := by
  rw [look_of_gives h, document?_upsert, if_pos rfl]

/-- A file that no longer gives its id takes away the document of that id, whosever it is. -/
theorem document?_look_of_source? (hsource : c.source? path = some x)
    (hskip : skipReason? path = none) (h : ∀ d, n.gives? path = some d → d.id ≠ x) :
    (c.look n path).document? x = none := by
  cases hd : n.gives? path with
  | none => rw [look_of_gives_none hd hskip, document?_removePath, if_pos hsource]
  | some d => rw [look_of_gives hd, document?_upsert, if_neg (h d hd), if_pos hsource]

end Look

section LookAll

variable {n : FileNode} {c : Catalog} {paths : List FilePath} {x : String}

theorem foldl_handle {events : List FileEvent} (hn : n.Settled)
    (fits : ∀ e ∈ events, ∀ path ∈ e.paths, e.kind.Fits n path) :
    events.foldl (handle n) c = (events.flatMap (·.paths)).foldl (look n) c := by
  have hevent (kind : FileEventKind) (paths : List FilePath)
      (hfits : ∀ path ∈ paths, kind.Fits n path) (c : Catalog) :
      paths.foldl (handlePath n kind) c = paths.foldl (look n) c := by
    induction paths generalizing c with
    | nil => rfl
    | cons path paths ih =>
      rw [List.foldl_cons, List.foldl_cons,
        handlePath_eq_look hn (hfits path List.mem_cons_self)]
      exact ih (fun p hp => hfits p (List.mem_cons_of_mem path hp)) _
  induction events generalizing c with
  | nil => rfl
  | cons e events ih =>
    rw [List.foldl_cons, List.flatMap_cons, List.foldl_append, handle,
      hevent e.kind e.paths (fits e List.mem_cons_self)]
    exact ih fun e' he' => fits e' (List.mem_cons_of_mem e he')

theorem source?_foldl_look {q : FilePath} (h : q ∉ paths) :
    (paths.foldl (look n) c).source? q = c.source? q := by
  induction paths generalizing c with
  | nil => rfl
  | cons path paths ih =>
    rw [List.foldl_cons, ih fun hq => h (List.mem_cons_of_mem path hq)]
    exact source?_look_of_ne fun heq => h (heq ▸ List.mem_cons_self)

theorem sorted_foldl_look (h : Sorted c.documents) :
    Sorted (paths.foldl (look n) c).documents := by
  induction paths generalizing c with
  | nil => exact h
  | cons path paths ih => exact ih (sorted_look h)

theorem document?_foldl_look (once : paths.Nodup) (h : ∀ p ∈ paths, ¬ c.Touches n x p) :
    (paths.foldl (look n) c).document? x = c.document? x := by
  induction paths generalizing c with
  | nil => rfl
  | cons path paths ih =>
    obtain ⟨hfirst, hrest⟩ := List.nodup_cons.mp once
    rw [List.foldl_cons, ih hrest]
    · exact document?_look_of_not_touches (h path List.mem_cons_self)
    · intro p hp
      have hne : p ≠ path := fun heq => hfirst (heq ▸ hp)
      rw [Touches, source?_look_of_ne hne]
      exact h p (List.mem_cons_of_mem path hp)

theorem document?_foldl_look_of_last {before after : List FilePath} {path : FilePath}
    (once : (before ++ path :: after).Nodup) (h : ∀ p ∈ after, ¬ c.Touches n x p) :
    ((before ++ path :: after).foldl (look n) c).document? x =
      ((before.foldl (look n) c).look n path).document? x := by
  obtain ⟨-, hafter, hdisjoint⟩ := List.nodup_append.mp once
  obtain ⟨hpath, hafter⟩ := List.nodup_cons.mp hafter
  rw [List.foldl_append, List.foldl_cons]
  refine document?_foldl_look hafter fun p hp => ?_
  have hne : p ≠ path := fun heq => hpath (heq ▸ hp)
  have hbefore : p ∉ before := fun hmem =>
    hdisjoint p hmem p (List.mem_cons_of_mem path hp) rfl
  rw [Touches, source?_look_of_ne hne, source?_foldl_look hbefore]
  exact h p hp

end LookAll

namespace Loaded

variable {n : FileNode} {c : Catalog}

theorem document?_of_gives (h : Loaded (Findings.ofFiles n.visibleFiles).documents c)
    (hn : n.Proper) (hset : n.Settled) {path : FilePath} {d : Document}
    (hgives : n.gives? path = some d) : c.document? d.id = some d := by
  obtain ⟨-, content, hfile, -⟩ := FileNode.gives?_eq_some_iff.mp hgives
  obtain ⟨owner, hsource⟩ := h.exists_owner hn hgives (hset.visible path content hfile)
  obtain ⟨e, he, hid, hdocument⟩ := h.gives hn hsource
  have howner : owner = path := hset.distinct owner path e d he hgives hid
  subst howner
  rw [hdocument, ← he, hgives]

end Loaded

/-- A catalog was loaded from a folder, and all files that are no longer the same are to be looked at,
each once. -/
structure Outdated (old new : FileNode) (c : Catalog) (paths : List FilePath) : Prop where
  proper : old.Proper
  settled : new.Settled
  loaded : Loaded (Findings.ofFiles old.visibleFiles).documents c
  once : paths.Nodup
  complete : ∀ path, old.file? path ≠ new.file? path → path ∈ paths

namespace Outdated

variable {old new : FileNode} {c : Catalog} {paths : List FilePath}

theorem gives?_eq (h : Outdated old new c paths) {p : FilePath} (hp : p ∉ paths) :
    old.gives? p = new.gives? p := by
  apply FileNode.gives?_congr
  by_contra hne
  exact hp (h.complete p hne)

theorem mem_paths (h : Outdated old new c paths) {p : FilePath} {x : String}
    (hp : c.source? p = some x) (hother : ∀ d, new.gives? p = some d → d.id ≠ x) : p ∈ paths := by
  by_contra hout
  obtain ⟨d, hd, hid, -⟩ := h.loaded.gives h.proper hp
  rw [h.gives?_eq hout] at hd
  exact hother d hd hid

/-- If nobody touches an id after its owner has given it up, it has no document. -/
theorem document?_eq_none (h : Outdated old new c paths) {p : FilePath} {x : String}
    (hp : c.source? p = some x) (hother : ∀ d, new.gives? p = some d → d.id ≠ x)
    (hlast : ∀ r d, [p, r].Sublist paths → new.gives? r = some d → d.id ≠ x) :
    (paths.foldl (look new) c).document? x = none := by
  obtain ⟨before, after, hsplit⟩ := List.append_of_mem (h.mem_paths hp hother)
  have once := h.once
  subst hsplit
  obtain ⟨d, hd, -⟩ := h.loaded.gives h.proper hp
  have hskip : skipReason? p = none := (FileNode.gives?_eq_some_iff.mp hd).1
  rw [document?_foldl_look_of_last once]
  · refine document?_look_of_source? ?_ hskip hother
    rw [source?_foldl_look (notMem_of_once once).1, hp]
  · rintro r hr (hsource | ⟨e, he, hid⟩)
    · have hrp : r = p := h.loaded.once r p x hsource hp
      exact (notMem_of_once once).2 (hrp ▸ hr)
    · refine hlast r e ?_ he hid
      refine List.Sublist.trans ?_ (List.sublist_append_right before _)
      exact List.Sublist.cons_cons p (List.singleton_sublist.mpr hr)

/-- If every other owner of its id is looked at before it, a file has its document taken up. -/
theorem document?_eq_some (h : Outdated old new c paths) {q : FilePath} {d : Document}
    (hq : new.gives? q = some d)
    (horder : ∀ p, c.source? p = some d.id → p ≠ q → [p, q].Sublist paths) :
    (paths.foldl (look new) c).document? d.id = some d := by
  by_cases hmem : q ∈ paths
  · obtain ⟨before, after, hsplit⟩ := List.append_of_mem hmem
    have once := h.once
    subst hsplit
    rw [document?_foldl_look_of_last once, document?_look_of_gives hq]
    rintro r hr (hsource | ⟨e, he, hid⟩)
    · have hrq : r ≠ q := by
        rintro rfl
        exact (notMem_of_once once).2 hr
      exact not_sublist_of_once once hr (horder r hsource hrq)
    · have hrq : r = q := h.settled.distinct r q e d he hq hid
      exact (notMem_of_once once).2 (hrq ▸ hr)
  · have hq' : old.gives? q = some d := by rw [h.gives?_eq hmem, hq]
    obtain ⟨-, content, hfile, -⟩ := FileNode.gives?_eq_some_iff.mp hq
    obtain ⟨owner, howner⟩ :=
      h.loaded.exists_owner h.proper hq' (h.settled.visible q content hfile)
    have hself : owner = q := by
      by_contra hne
      have hsub := horder owner howner hne
      exact hmem (hsub.subset (List.mem_cons_of_mem owner (List.mem_singleton_self q)))
    subst hself
    obtain ⟨e, he, -, hdocument⟩ := h.loaded.gives h.proper howner
    rw [document?_foldl_look h.once, hdocument, ← he, hq']
    rintro r hr (hsource | ⟨e, he, hid⟩)
    · exact hmem (h.loaded.once r owner d.id hsource howner ▸ hr)
    · exact hmem (h.settled.distinct r owner e d he hq hid ▸ hr)

theorem document?_eq_none_of_never (h : Outdated old new c paths) {x : String}
    (hnever : ∀ p d, new.gives? p = some d → d.id ≠ x) :
    (paths.foldl (look new) c).document? x = none := by
  cases hd : c.document? x with
  | none =>
    rw [document?_foldl_look h.once, hd]
    rintro r - (hsource | ⟨e, he, hid⟩)
    · obtain ⟨e, -, -, he⟩ := h.loaded.gives h.proper hsource
      rw [hd] at he
      cases he
    · exact hnever r e he hid
  | some d =>
    obtain ⟨p, hp, -⟩ := h.loaded.exists_source? h.proper hd
    exact h.document?_eq_none hp (hnever p) fun r d _ => hnever r d

/-- The catalog has followed the folder exactly if whoever took over an id did so last. -/
theorem foldl_look_eq_iff (h : Outdated old new c paths) (hnew : new.Proper) {fresh : Catalog}
    (hfresh : Loaded (Findings.ofFiles new.visibleFiles).documents fresh) :
    (paths.foldl (look new) c).documents = fresh.documents ↔
      ∀ p q d, c.source? p = some d.id → new.gives? q = some d → p ≠ q →
        [p, q].Sublist paths := by
  constructor
  · intro heq p q d hp hq hne
    by_contra hlate
    have hother : ∀ e, new.gives? p = some e → e.id ≠ d.id := fun e he hid =>
      hne (h.settled.distinct p q e d he hq hid)
    have hnone := h.document?_eq_none hp hother fun r e hsub he hid =>
      hlate (h.settled.distinct r q e d he hq hid ▸ hsub)
    have hsome : fresh.document? d.id = some d := hfresh.document?_of_gives hnew h.settled hq
    rw [document?, heq] at hnone
    cases hnone.symm.trans hsome
  · intro horder
    refine Sorted.ext (sorted_foldl_look h.loaded.sorted) hfresh.sorted fun x => ?_
    change (paths.foldl (look new) c).document? x = fresh.document? x
    by_cases hgiven : ∃ q d, new.gives? q = some d ∧ d.id = x
    · obtain ⟨q, d, hq, rfl⟩ := hgiven
      rw [hfresh.document?_of_gives hnew h.settled hq]
      exact h.document?_eq_some hq fun p hp hne => horder p q d hp hq hne
    · have hnever : ∀ p d, new.gives? p = some d → d.id ≠ x := fun p d hd hid =>
        hgiven ⟨p, d, hd, hid⟩
      rw [h.document?_eq_none_of_never hnever, eq_comm, Option.eq_none_iff_forall_ne_some]
      intro d hd
      obtain ⟨p, -, hp⟩ := hfresh.exists_source? hnew hd
      exact hnever p d hp (Loaded.id_of_document? hd)

end Outdated

/-- Following the changes of a folder gives the documents that a new scan would, exactly if for each
id that went from one file to another the event of the new owner came after that of the old one. -/
theorem follow_eq_load_iff {old : FileNode} (hold : old.Proper) (c : Catalog)
    (changes : List FileChange) {events : List FileEvent}
    (settled : (changes.foldl FileChange.apply old).Settled)
    (report : FileEvent.Report old (changes.foldl FileChange.apply old) events) :
    (events.foldl (handle (changes.foldl FileChange.apply old)) (c.load (some old)).1).documents =
        (load {} (some (changes.foldl FileChange.apply old))).1.documents ↔
      ∀ p q d, (c.load (some old)).1.source? p = some d.id →
        (changes.foldl FileChange.apply old).gives? q = some d → p ≠ q →
          [p, q].Sublist (events.flatMap (·.paths)) := by
  have hnew := hold.changes changes
  have outdated : Outdated old _ (c.load (some old)).1 (events.flatMap (·.paths)) :=
    ⟨hold, settled, loaded_load c hold, report.once, report.complete⟩
  rw [foldl_handle settled report.fits]
  exact outdated.foldl_look_eq_iff hnew (loaded_load {} hnew)

end Catalog

namespace FileNode

section Single

variable {name other text : String} {path : FilePath} {content : Option String}

theorem gives?_single (hskip : skipReason? [name] = none) {d : Document}
    (hread : readDocument (some text) = .ok d) {e : Document} :
    (single name text).gives? path = some e ↔ path = [name] ∧ e = d := by
  rw [gives?_eq_some_iff, file?_single]
  constructor
  · rintro ⟨-, content, hfile, he⟩
    split at hfile
    · next hpath =>
      cases hfile
      rw [hread] at he
      cases he
      exact ⟨hpath, rfl⟩
    · cases hfile
  · rintro ⟨rfl, rfl⟩
    exact ⟨hskip, some text, if_pos rfl, hread⟩

theorem settled_single (hskip : skipReason? [name] = none) {d : Document}
    (hread : readDocument (some text) = .ok d) : (single name text).Settled := by
  have hpath (p : FilePath) (content : Option String)
      (hfile : (single name text).file? p = some content) :
      p = [name] ∧ content = some text := by
    rw [file?_single] at hfile
    split at hfile
    · next hp => exact ⟨hp, (Option.some.inj hfile).symm⟩
    · cases hfile
  refine ⟨fun p content hfile _ => ?_, fun p q e f he hf _ => ?_, fun p content hfile => ?_⟩
  · rw [(hpath p content hfile).2]
    exact ⟨d, hread⟩
  · rw [((gives?_single hskip hread).mp he).1, ((gives?_single hskip hread).mp hf).1]
  · rw [(hpath p content hfile).1]
    intro i hi
    cases hi

theorem mem_of_file?_single_ne (h : (single name text).file? path ≠ (single other text).file? path) :
    path = [name] ∨ path = [other] := by
  by_contra hout
  obtain ⟨hname, hother⟩ := not_or.mp hout
  apply h
  rw [file?_single, file?_single, if_neg hname, if_neg hother]

end Single

end FileNode

namespace Catalog

/-- A file is renamed, and the events name the old path first. -/
theorem follow_eq_load_of_rename :
    let old := FileNode.single "a.yaml" everyDayText
    let changes : List FileChange := [.rename ["a.yaml"] ["b.yaml"]]
    let new := changes.foldl FileChange.apply old
    let events : List FileEvent := [⟨.renamed, [["a.yaml"], ["b.yaml"]]⟩]
    old.Proper ∧ new.Settled ∧ FileEvent.Report old new events ∧
      (events.foldl (handle new) (load {} (some old)).1).documents =
        (load {} (some new)).1.documents := by
  intro old changes new events
  obtain ⟨d, hread⟩ := readDocument_everyDayText
  have hnew : new = FileNode.single "b.yaml" everyDayText := rfl
  have hold : old.Proper := FileNode.proper_single _ _
  have hset : new.Settled := FileNode.settled_single (by decide) hread
  have hreport : FileEvent.Report old new events := by
    refine ⟨by decide, fun path hne => ?_, ?_⟩
    · rcases FileNode.mem_of_file?_single_ne hne with rfl | rfl <;> decide
    · intro e he path hpath
      rw [List.mem_singleton.mp he] at hpath ⊢
      rcases List.mem_cons.mp hpath with rfl | hpath
      · exact .inr rfl
      · rw [List.mem_singleton.mp hpath]
        exact .inl rfl
  refine ⟨hold, hset, hreport, (follow_eq_load_iff hold {} changes hset hreport).mpr ?_⟩
  intro p q e hp hq _
  obtain ⟨e', hgives, -⟩ := (loaded_load {} hold).gives hold hp
  rw [((FileNode.gives?_single (by decide) hread).mp hgives).1,
    ((FileNode.gives?_single (by decide) hread).mp hq).1]
  exact List.Sublist.refl _

/-- A file is copied and the original deleted, and the events come in this order: the catalog ends
without the document that the folder still has. -/
theorem follow_ne_load_of_copy :
    let old := FileNode.single "a.yaml" everyDayText
    let new := [FileChange.write ["b.yaml"] (some everyDayText), .delete ["a.yaml"]].foldl
      FileChange.apply old
    let events : List FileEvent := [⟨.created, [["b.yaml"]]⟩, ⟨.removed, [["a.yaml"]]⟩]
    FileEvent.Report old new events ∧
      (events.foldl (handle new) (load {} (some old)).1).documents ≠
        (load {} (some new)).1.documents := by
  intro old new events
  obtain ⟨d, hread⟩ := readDocument_everyDayText
  have hold : old.Proper := FileNode.proper_single _ _
  have hset : new.Settled := by
    change (FileNode.single "b.yaml" everyDayText).Settled
    exact FileNode.settled_single (by decide) hread
  have hnew : new.Proper := FileNode.proper_single "b.yaml" _
  have hreport : FileEvent.Report old new events := by
    refine ⟨by decide, fun path hne => ?_, ?_⟩
    · have hne : old.file? path ≠ (FileNode.single "b.yaml" everyDayText).file? path := hne
      rcases FileNode.mem_of_file?_single_ne hne with rfl | rfl <;> decide
    · intro e he path hpath
      rcases List.mem_cons.mp he with rfl | he
      · rw [List.mem_singleton.mp hpath]
        exact .inl rfl
      · rw [List.mem_singleton.mp he] at hpath ⊢
        rw [List.mem_singleton.mp hpath]
        rfl
  refine ⟨hreport, fun heq => ?_⟩
  have hload := loaded_load {} hold
  have hgives : old.gives? ["a.yaml"] = some d :=
    (FileNode.gives?_single (by decide) hread).mpr ⟨rfl, rfl⟩
  obtain ⟨owner, howner⟩ := hload.exists_owner hold hgives fun i hi => by cases hi
  obtain ⟨e, he, -⟩ := hload.gives hold howner
  rw [((FileNode.gives?_single (by decide) hread).mp he).1] at howner
  have outdated : Outdated old new (load {} (some old)).1 (events.flatMap (·.paths)) :=
    ⟨hold, hset, hload, hreport.once, hreport.complete⟩
  rw [foldl_handle hset hreport.fits, outdated.foldl_look_eq_iff hnew (loaded_load {} hnew)] at heq
  have htaken : (FileNode.single "b.yaml" everyDayText).gives? ["b.yaml"] = some d :=
    (FileNode.gives?_single (by decide) hread).mpr ⟨rfl, rfl⟩
  have hsub := heq ["a.yaml"] ["b.yaml"] d howner htaken (by decide)
  exact absurd hsub (by decide)

end Catalog
end SeriesAlarm
