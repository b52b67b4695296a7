import Mathlib.Data.List.Nodup
import Mathlib.Data.String.Basic
import SeriesAlarm.Catalog.Basic

/-!
# Looking up documents

What the changes of a catalog do to the document of an id and to the id of a file.
-/

namespace SeriesAlarm
namespace Catalog

def Sorted (ds : List Document) : Prop := ds.Pairwise fun d e => d.id < e.id

theorem find?_insertDocument (d : Document) (ds : List Document) (x : String) :
    (insertDocument d ds).find? (fun e => e.id = x) =
      if d.id = x then some d else ds.find? fun e => e.id = x := by
  induction ds with
  | nil => by_cases hx : d.id = x <;> simp [insertDocument, hx]
  | cons e es ih =>
    simp only [insertDocument]
    split
    · by_cases hx : d.id = x <;> simp [hx]
    · split
      · next heq => by_cases hx : d.id = x <;> simp [hx, ← heq]
      · next hne =>
        by_cases he : e.id = x
        · have hx : d.id ≠ x := fun hd => hne (hd.trans he.symm)
          simp [he, hx]
        · rw [List.find?_cons_of_neg (by simpa using he), ih,
            List.find?_cons_of_neg (by simpa using he)]

theorem find?_removeDocument (id : String) (ds : List Document) (x : String) :
    (removeDocument id ds).find? (fun e => e.id = x) =
      if id = x then none else ds.find? fun e => e.id = x := by
  unfold removeDocument
  rw [List.find?_filter]
  split
  · next hx =>
    subst hx
    simp
  · next hx =>
    congr 1
    funext e
    by_cases he : e.id = x
    · simp [he, Ne.symm hx]
    · simp [he]

theorem mem_insertDocument {d e : Document} {ds : List Document} (h : e ∈ insertDocument d ds) :
    e = d ∨ e ∈ ds := by
  induction ds with
  | nil => exact .inl (List.mem_singleton.mp h)
  | cons f fs ih =>
    simp only [insertDocument] at h
    split at h
    · exact List.mem_cons.mp h
    · split at h
      · exact (List.mem_cons.mp h).imp_right (List.mem_cons_of_mem f)
      · rcases List.mem_cons.mp h with h | h
        · exact .inr (List.mem_cons.mpr (.inl h))
        · exact (ih h).imp_right (List.mem_cons_of_mem f)

namespace Sorted

variable {ds es : List Document}

theorem insert (h : Sorted ds) (d : Document) : Sorted (insertDocument d ds) := by
  induction ds with
  | nil => exact List.pairwise_singleton _ d
  | cons e es ih =>
    obtain ⟨hhead, htail⟩ := List.pairwise_cons.mp h
    simp only [insertDocument]
    split
    · next hlt =>
      refine List.pairwise_cons.mpr ⟨fun f hf => ?_, h⟩
      rcases List.mem_cons.mp hf with rfl | hf
      · exact hlt
      · exact lt_trans hlt (hhead f hf)
    · next hnlt =>
      split
      · next heq =>
        refine List.pairwise_cons.mpr ⟨fun f hf => ?_, htail⟩
        rw [heq]
        exact hhead f hf
      · next hne =>
        have hlt : e.id < d.id := lt_of_le_of_ne (not_lt.mp hnlt) (Ne.symm hne)
        refine List.pairwise_cons.mpr ⟨fun f hf => ?_, ih htail⟩
        rcases mem_insertDocument hf with rfl | hf
        · exact hlt
        · exact hhead f hf

theorem remove (h : Sorted ds) (id : String) : Sorted (removeDocument id ds) :=
  h.sublist List.filter_sublist

theorem find?_eq_some_iff (h : Sorted ds) {d : Document} :
    ds.find? (fun e => e.id = d.id) = some d ↔ d ∈ ds := by
  refine ⟨List.mem_of_find?_eq_some, fun hd => ?_⟩
  induction ds with
  | nil => cases hd
  | cons e es ih =>
    obtain ⟨hhead, htail⟩ := List.pairwise_cons.mp h
    rcases List.mem_cons.mp hd with rfl | hd
    · exact List.find?_cons_of_pos (by simp)
    · have hne : e.id ≠ d.id := ne_of_lt (hhead d hd)
      rw [List.find?_cons_of_neg (by simpa using hne)]
      exact ih htail hd

theorem mem_insertDocument_iff (h : Sorted ds) {d e : Document} (hfree : ∀ f ∈ ds, f.id ≠ d.id) :
    e ∈ insertDocument d ds ↔ e = d ∨ e ∈ ds := by
  refine ⟨mem_insertDocument, fun he => ?_⟩
  rw [← (h.insert d).find?_eq_some_iff, find?_insertDocument]
  rcases he with rfl | he
  · exact if_pos rfl
  · rw [if_neg fun heq => hfree e he heq.symm]
    exact h.find?_eq_some_iff.mpr he

theorem nodup (h : Sorted ds) : ds.Nodup :=
  h.imp fun hlt heq => ne_of_lt hlt (congrArg Document.id heq)

theorem ext (hd : Sorted ds) (he : Sorted es)
    (h : ∀ x, ds.find? (fun d => d.id = x) = es.find? fun d => d.id = x) : ds = es := by
  have hperm : ds.Perm es := by
    rw [List.perm_ext_iff_of_nodup hd.nodup he.nodup]
    intro d
    rw [← hd.find?_eq_some_iff, ← he.find?_eq_some_iff, h]
  refine hperm.eq_of_pairwise (fun a b _ _ hab hba => ?_) hd he
  exact absurd hab (lt_asymm hba)

end Sorted

section Lookup

variable (c : Catalog) (path q : FilePath) (d : Document) (x : String)

theorem lookup_cons_of_ne {r : FilePath} (h : q ≠ r) (id : String)
    (sources : List (FilePath × String)) : List.lookup q ((r, id) :: sources) = sources.lookup q := by
  rw [List.lookup_cons, beq_false_of_ne h]

theorem lookup_withoutSource (sources : List (FilePath × String)) :
    (withoutSource path sources).lookup q = if q = path then none else sources.lookup q := by
  induction sources with
  | nil => simp [withoutSource]
  | cons s rest ih =>
    obtain ⟨r, id⟩ := s
    unfold withoutSource at ih ⊢
    by_cases hr : r = path
    · rw [List.filter_cons_of_neg (by simpa using hr), ih]
      by_cases hq : q = path
      · rw [if_pos hq, if_pos hq]
      · rw [if_neg hq, if_neg hq, lookup_cons_of_ne q fun heq => hq (heq.trans hr)]
    · rw [List.filter_cons_of_pos (by simpa using hr)]
      by_cases hq : q = r
      · subst hq
        rw [if_neg hr, List.lookup_cons_self, List.lookup_cons_self]
      · rw [lookup_cons_of_ne q hq, lookup_cons_of_ne q hq, ih]

theorem source?_upsert :
    (c.upsert path d).source? q = if q = path then some d.id else c.source? q := by
  simp only [source?, upsert]
  by_cases hq : q = path
  · rw [if_pos hq, hq, List.lookup_cons_self]
  · rw [if_neg hq, lookup_cons_of_ne q hq, lookup_withoutSource, if_neg hq]

theorem source?_removePath :
    (c.removePath path).source? q = if q = path then none else c.source? q := by
  unfold removePath
  split
  · next hnone =>
    by_cases hq : q = path
    · simp [hq, hnone]
    · simp [hq]
  · exact lookup_withoutSource path q c.sources

theorem document?_upsert :
    (c.upsert path d).document? x =
      if d.id = x then some d else if c.source? path = some x then none else c.document? x := by
  simp only [document?, upsert, find?_insertDocument]
  split
  · rfl
  next hx =>
  cases hold : c.source? path with
  | none => rfl
  | some old =>
    dsimp only
    split
    · next heq =>
      have hne : ¬ (some old = some x) := by
        rw [heq, Option.some.injEq]
        exact hx
      rw [if_neg hne]
    · rw [find?_removeDocument]
      simp only [Option.some.injEq]

theorem document?_removePath :
    (c.removePath path).document? x =
      if c.source? path = some x then none else c.document? x := by
  unfold removePath
  split
  · next hnone => simp [hnone]
  · next old hold =>
    simp only [document?, find?_removeDocument, hold, Option.some.injEq]

theorem sorted_upsert (h : Sorted c.documents) : Sorted (c.upsert path d).documents := by
  simp only [upsert]
  apply Sorted.insert
  split
  · split
    · exact h
    · exact h.remove _
  · exact h

theorem sorted_removePath (h : Sorted c.documents) : Sorted (c.removePath path).documents := by
  unfold removePath
  split
  · exact h
  · exact h.remove _

end Lookup

end Catalog
end SeriesAlarm
