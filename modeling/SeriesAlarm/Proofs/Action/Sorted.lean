import Mathlib.Data.List.Nodup
import Mathlib.Data.String.Basic
import SeriesAlarm.Proofs.Action.Run

/-!
# The order of actions

The actions of a dispatcher are sorted by id, so an id stands for at most one of them.
-/

namespace SeriesAlarm
namespace Dispatcher

def ids (d : Dispatcher) : List String := d.map (·.id)

def Sorted (d : Dispatcher) : Prop := d.ids.Pairwise (· < ·)

theorem find?_eq_none_iff {d : Dispatcher} {id : String} :
    d.find? id = none ↔ ∀ a ∈ d, a.id ≠ id := by
  simp [find?, List.find?_eq_none]

theorem Sorted.eq_of_id_eq {d : Dispatcher} (hd : d.Sorted) {a b : Action} (ha : a ∈ d)
    (hb : b ∈ d) (h : a.id = b.id) : a = b :=
  List.inj_on_of_nodup_map hd.nodup ha hb h

theorem Sorted.find?_eq_some_iff {d : Dispatcher} (hd : d.Sorted) {id : String} {a : Action} :
    d.find? id = some a ↔ a ∈ d ∧ a.id = id := by
  constructor
  · intro h
    exact ⟨List.mem_of_find?_eq_some h, by simpa using List.find?_some h⟩
  · rintro ⟨ha, rfl⟩
    cases hfind : d.find? a.id with
    | none => exact absurd rfl (find?_eq_none_iff.mp hfind a ha)
    | some b =>
      have hb : b ∈ d := List.mem_of_find?_eq_some hfind
      have hid : b.id = a.id := by simpa using List.find?_some hfind
      rw [hd.eq_of_id_eq hb ha hid]

theorem mem_ids_set {d : Dispatcher} {a : Action} {i : String} (h : i ∈ (d.set a).ids) :
    i = a.id ∨ i ∈ d.ids := by
  induction d with
  | nil => exact .inl (List.mem_singleton.mp h)
  | cons b bs ih =>
    simp only [set] at h
    split at h
    · exact List.mem_cons.mp h
    · split at h
      · exact (List.mem_cons.mp h).imp id (List.mem_cons_of_mem b.id)
      · rcases List.mem_cons.mp h with h | h
        · exact .inr (h ▸ List.mem_cons_self)
        · exact (ih h).imp id (List.mem_cons_of_mem b.id)

theorem Sorted.set {d : Dispatcher} (hd : d.Sorted) (a : Action) : (d.set a).Sorted := by
  induction d with
  | nil => exact List.pairwise_singleton _ _
  | cons b bs ih =>
    have hb := List.pairwise_cons.mp hd
    simp only [Dispatcher.set]
    split
    · next hlt =>
      refine List.pairwise_cons.mpr ⟨fun i hi => ?_, hd⟩
      rcases List.mem_cons.mp hi with rfl | hi
      · exact hlt
      · exact hlt.trans (hb.1 i hi)
    · split
      · next heq =>
        refine List.pairwise_cons.mpr ⟨?_, hb.2⟩
        intro i hi
        change a.id < i
        rw [heq]
        exact hb.1 i hi
      · next hlt hne =>
        have hlt : b.id < a.id := lt_of_le_of_ne (not_lt.mp hlt) (Ne.symm hne)
        refine List.pairwise_cons.mpr ⟨fun i hi => ?_, ih hb.2⟩
        rcases mem_ids_set hi with rfl | hi
        · exact hlt
        · exact hb.1 i hi

theorem mem_set {d : Dispatcher} {a b : Action} (h : b ∈ d.set a) : b = a ∨ b ∈ d := by
  induction d with
  | nil => exact .inl (List.mem_singleton.mp h)
  | cons c cs ih =>
    simp only [set] at h
    split at h
    · exact List.mem_cons.mp h
    · split at h
      · exact (List.mem_cons.mp h).imp id (List.mem_cons_of_mem c)
      · rcases List.mem_cons.mp h with rfl | h
        · exact .inr List.mem_cons_self
        · exact (ih h).imp id (List.mem_cons_of_mem c)

theorem ids_map {d : Dispatcher} {f : Action → Action} (hf : ∀ a, (f a).id = a.id) :
    Dispatcher.ids (d.map f) = d.ids := by
  simp [ids, Function.comp_def, hf]

theorem ids_forward (d : Dispatcher) (id : String) (g : ResultGroup) :
    (d.forward id g).ids = d.ids := by
  refine ids_map fun a => ?_
  split
  · exact a.addResults_id g
  · rfl

end Dispatcher
end SeriesAlarm
