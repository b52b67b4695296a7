import Mathlib.Algebra.GroupWithZero.Nat
import SeriesAlarm.Proofs.Catalog.Loading

/-!
# The generation of a catalog

A catalog is loaded, or an event is taken up. Either leaves the catalog as it was or raises its
generation, so whoever finds the generation that it remembers has missed nothing. What leaves a
catalog as it was is known file by file.
-/

namespace SeriesAlarm

/-- After such an event a file is read again. -/
def FileEventKind.isWrite : FileEventKind → Bool
  | .created | .modified | .renamed => true
  | .removed | .other => false

/-- What can happen to a catalog. The folder may change while an event is taken up, so each file is
looked at in a folder of its own. -/
inductive CatalogOperation
  | load (folder : Option FileNode)
  | event (kind : FileEventKind) (looks : List (FileNode × FilePath))

/-- How often the generation may be raised. -/
def CatalogOperation.size : CatalogOperation → Nat
  | .load _ => 1
  | .event _ looks => looks.length

namespace Catalog

def apply (c : Catalog) : CatalogOperation → Catalog
  | .load folder => (c.load folder).1
  | .event kind looks => looks.foldl (fun c look => c.handlePath look.1 kind look.2) c

theorem generation_upsert (c : Catalog) (path : FilePath) (d : Document) :
    (c.upsert path d).generation = c.generation + 1 := rfl

theorem removePath_eq_self (c : Catalog) {path : FilePath} (h : c.source? path = none) :
    c.removePath path = c := by rw [removePath, h]

theorem generation_removePath (c : Catalog) {path : FilePath} (h : c.source? path ≠ none) :
    (c.removePath path).generation = c.generation + 1 := by
  obtain ⟨id, hid⟩ := Option.ne_none_iff_exists'.mp h
  rw [removePath, hid]

theorem generation_load (c : Catalog) (folder : Option FileNode) :
    (c.load folder).1.generation = c.generation + 1 := by rw [load_eq]

def IsGone (n : FileNode) (kind : FileEventKind) (path : FilePath) : Prop :=
  kind = .removed ∨ kind.isWrite ∧ n.find? path = none

/-- A file at which nothing is done, each kind of event for its own reason. -/
inductive Idle (n : FileNode) (c : Catalog) (kind : FileEventKind) (path : FilePath) : Prop
  /-- The name is hidden, or not that of a YAML file. -/
  | passedOver (h : skipReason? path ≠ none)
  /-- The file is there, but it cannot be read as a document. -/
  | illegible (write : kind.isWrite) (there : (n.find? path).isSome)
      (h : ∃ e, n.document path = .error e)
  /-- The file is gone, and gave no id before. -/
  | unknown (gone : IsGone n kind path) (h : c.source? path = none)
  | unrelated (h : kind = .other)

section Look

variable (n : FileNode) (c : Catalog) {kind : FileEventKind} {path : FilePath}

theorem handlePath_of_skip (h : skipReason? path ≠ none) : c.handlePath n kind path = c := by
  unfold handlePath
  rw [if_pos (Option.isSome_iff_ne_none.mpr h)]

theorem handlePath_of_gone (hskip : skipReason? path = none) (h : IsGone n kind path) :
    c.handlePath n kind path = c.removePath path := by
  unfold handlePath
  rw [hskip]
  rcases h with rfl | ⟨hwrite, hfind⟩
  · rfl
  · cases kind with
    | created | modified | renamed =>
      change c.refresh n path = c.removePath path
      rw [refresh, hfind]
      rfl
    | removed | other => cases hwrite

theorem handlePath_of_there (hskip : skipReason? path = none) (hwrite : kind.isWrite)
    (hthere : (n.find? path).isSome) :
    c.handlePath n kind path =
      match n.document path with
      | .ok d => c.upsert path d
      | .error _ => c := by
  have hnot : (n.find? path).isNone = false := by
    rw [Option.isNone_eq_false_iff]
    exact hthere
  unfold handlePath
  rw [hskip]
  cases kind with
  | created | modified | renamed =>
    change c.refresh n path = _
    rw [refresh, hnot]
    rfl
  | removed | other => cases hwrite

variable {n c}

theorem idle_iff_of_gone (hskip : skipReason? path = none) (h : IsGone n kind path) :
    c.Idle n kind path ↔ c.source? path = none := by
  refine ⟨?_, .unknown h⟩
  rintro (hpassed | ⟨hwrite, hthere, -⟩ | ⟨-, hnone⟩ | rfl)
  · exact absurd hskip hpassed
  · rcases h with rfl | ⟨-, hfind⟩
    · cases hwrite
    · rw [hfind] at hthere
      cases hthere
  · exact hnone
  · rcases h with h | ⟨hwrite, -⟩
    · cases h
    · cases hwrite

theorem idle_iff_of_there (hskip : skipReason? path = none) (hwrite : kind.isWrite)
    (hthere : (n.find? path).isSome) :
    c.Idle n kind path ↔ ∃ e, n.document path = .error e := by
  refine ⟨?_, .illegible hwrite hthere⟩
  rintro (hpassed | ⟨-, -, herror⟩ | ⟨rfl | ⟨-, hfind⟩, -⟩ | rfl)
  · exact absurd hskip hpassed
  · exact herror
  · cases hwrite
  · rw [hfind] at hthere
    cases hthere
  · cases hwrite

/-- Looking at a file does nothing, or it raises the generation. -/
theorem handlePath_cases (n : FileNode) (c : Catalog) (kind : FileEventKind) (path : FilePath) :
    (c.Idle n kind path ∧ c.handlePath n kind path = c) ∨
      (¬ c.Idle n kind path ∧ (c.handlePath n kind path).generation = c.generation + 1) := by
  by_cases hskip : skipReason? path = none
  · have hgone (h : IsGone n kind path) :
        (c.Idle n kind path ∧ c.handlePath n kind path = c) ∨
          (¬ c.Idle n kind path ∧ (c.handlePath n kind path).generation = c.generation + 1) := by
      rw [idle_iff_of_gone hskip h, handlePath_of_gone n c hskip h]
      by_cases hsource : c.source? path = none
      · exact .inl ⟨hsource, c.removePath_eq_self hsource⟩
      · exact .inr ⟨hsource, c.generation_removePath hsource⟩
    have hwritten (hwrite : kind.isWrite) :
        (c.Idle n kind path ∧ c.handlePath n kind path = c) ∨
          (¬ c.Idle n kind path ∧ (c.handlePath n kind path).generation = c.generation + 1) := by
      by_cases hfind : n.find? path = none
      · exact hgone (.inr ⟨hwrite, hfind⟩)
      · have hthere : (n.find? path).isSome := Option.isSome_iff_ne_none.mpr hfind
        rw [idle_iff_of_there hskip hwrite hthere, handlePath_of_there n c hskip hwrite hthere]
        cases n.document path with
        | error e => exact .inl ⟨⟨e, rfl⟩, rfl⟩
        | ok d => exact .inr ⟨by simp, c.generation_upsert path d⟩
    cases kind with
    | created | modified | renamed => exact hwritten rfl
    | removed => exact hgone (.inl rfl)
    | other =>
      refine .inl ⟨.unrelated rfl, ?_⟩
      unfold handlePath
      rw [hskip]
      rfl
  · exact .inl ⟨.passedOver hskip, handlePath_of_skip n c hskip⟩

end Look

def Advances (steps : Nat) (c c' : Catalog) : Prop :=
  c' = c ∨ c.generation < c'.generation ∧ c'.generation ≤ c.generation + steps

namespace Advances

variable {m k : Nat} {a b c : Catalog}

theorem refl (k : Nat) (c : Catalog) : Advances k c c := .inl rfl

theorem trans (hab : Advances m a b) (hbc : Advances k b c) : Advances (m + k) a c := by
  rcases hab with rfl | ⟨hab, hab'⟩
  · rcases hbc with rfl | ⟨hbc, hbc'⟩
    · exact refl _ _
    · exact .inr ⟨hbc, by omega⟩
  · rcases hbc with rfl | ⟨hbc, hbc'⟩
    · exact .inr ⟨hab, by omega⟩
    · exact .inr ⟨by omega, by omega⟩

theorem generation_le (h : Advances k a b) : a.generation ≤ b.generation := by
  rcases h with rfl | ⟨hlt, -⟩
  · exact Nat.le_refl _
  · exact Nat.le_of_lt hlt

theorem handlePath (n : FileNode) (c : Catalog) (kind : FileEventKind) (path : FilePath) :
    Advances 1 c (c.handlePath n kind path) := by
  rcases handlePath_cases n c kind path with ⟨-, heq⟩ | ⟨-, hgeneration⟩
  · exact .inl heq
  · exact .inr ⟨by omega, by omega⟩

theorem apply (c : Catalog) (op : CatalogOperation) : Advances op.size c (c.apply op) := by
  cases op with
  | load folder =>
    have hgeneration := generation_load c folder
    exact .inr ⟨by rw [Catalog.apply]; omega, by rw [Catalog.apply, CatalogOperation.size]; omega⟩
  | event kind looks =>
    rw [CatalogOperation.size, Catalog.apply]
    induction looks generalizing c with
    | nil => exact refl _ _
    | cons look looks ih =>
      rw [List.length_cons, List.foldl_cons, Nat.add_comm]
      exact (handlePath look.1 c kind look.2).trans (ih _)

theorem run (c : Catalog) (ops : List CatalogOperation) :
    Advances (ops.map CatalogOperation.size).sum c (ops.foldl Catalog.apply c) := by
  induction ops generalizing c with
  | nil => exact refl _ _
  | cons op ops ih =>
    rw [List.map_cons, List.sum_cons, List.foldl_cons]
    exact (apply c op).trans (ih _)

end Advances

theorem apply_event_eq_self_iff (c : Catalog) (kind : FileEventKind)
    (looks : List (FileNode × FilePath)) :
    c.apply (.event kind looks) = c ↔ ∀ look ∈ looks, c.Idle look.1 kind look.2 := by
  induction looks with
  | nil => simp [apply]
  | cons look looks ih =>
    rw [List.forall_mem_cons, ← ih]
    have hcons : c.apply (.event kind (look :: looks)) =
        (c.handlePath look.1 kind look.2).apply (.event kind looks) := rfl
    rw [hcons]
    rcases handlePath_cases look.1 c kind look.2 with ⟨hidle, heq⟩ | ⟨hbusy, hgeneration⟩
    · rw [heq, and_iff_right hidle]
    · -- What follows cannot lower the generation again.
      refine iff_of_false (fun hself => ?_) fun h => hbusy h.1
      have hle := (Advances.apply (c.handlePath look.1 kind look.2) (.event kind looks)).generation_le
      rw [hself, hgeneration] at hle
      omega

/-- What a counter of 64 bits shows of the generation. -/
def counter (c : Catalog) : UInt64 := UInt64.ofNat c.generation

theorem counter_lt_counter {c c' : Catalog} (h : c.generation < c'.generation)
    (fits : c'.generation < wordSize 64) : c.counter < c'.counter := by
  change c'.generation < UInt64.size at fits
  exact (UInt64.ofNat_lt_iff_lt (h.trans fits) fits).mpr h

/-- However a catalog is loaded and events are taken up, its documents do not change unless its
generation is raised, by one at most for each load and each file of an event, so that a counter does not
come round before that many; and an event changes nothing at all exactly if nothing is done at its
files. -/
theorem generation_lt_of_documents_ne (c : Catalog) :
    (∀ ops : List CatalogOperation, (ops.foldl apply c).documents ≠ c.documents →
      c.generation < (ops.foldl apply c).generation ∧
        (ops.foldl apply c).generation ≤
          c.generation + (ops.map CatalogOperation.size).sum ∧
        (c.generation + (ops.map CatalogOperation.size).sum < wordSize 64 →
          c.counter < (ops.foldl apply c).counter)) ∧
    ∀ kind looks, c.apply (.event kind looks) = c ↔
      ∀ look ∈ looks, c.Idle look.1 kind look.2 := by
  refine ⟨fun ops hne => ?_, c.apply_event_eq_self_iff⟩
  rcases Advances.run c ops with heq | ⟨hlt, hle⟩
  · rw [heq] at hne
    exact absurd rfl hne
  · exact ⟨hlt, hle, fun fits => counter_lt_counter hlt (hle.trans_lt fits)⟩

end Catalog
end SeriesAlarm
