import SeriesAlarm.Document.Basic
import SeriesAlarm.Proofs.Outcome
import SeriesAlarm.Proofs.Text.Names

/-!
# Written records

A record is written as a mapping with its names as keys. Each name stands there once, so all of it
is read back, among the names of the record or by what is read of each field.
-/

namespace SeriesAlarm

open Yaml (Value)

theorem lookup_of_mem_of_nodup {α : Type} {fs : List (String × α)} {name : String} {a : α}
    (distinct : (fs.map (·.1)).Nodup) (h : (name, a) ∈ fs) : fs.lookup name = some a := by
  obtain ⟨before, after, rfl⟩ := List.append_of_mem h
  refine List.lookup_eq_some_iff.mpr ⟨before, after, rfl, fun f hf => ?_⟩
  rw [List.map_append, List.nodup_append] at distinct
  have hne := distinct.2.2 f.1 (List.mem_map_of_mem hf) name List.mem_cons_self
  simpa using Ne.symm hne

namespace Yaml.Value

theorem same_string (a b : String) : same (.string a) (.string b) = (a == b) := by rw [same]

theorem repeats_texts {xs : List String} : repeats (xs.map .string) = false ↔ xs.Nodup := by
  induction xs with
  | nil => simp [repeats]
  | cons x xs ih =>
    have hnew : (xs.map Value.string).any (same (.string x)) = false ↔ x ∉ xs := by
      simp only [List.any_eq_false, List.mem_map, forall_exists_index, and_imp,
        forall_apply_eq_imp_iff₂, same_string, beq_iff_eq]
      exact ⟨fun h hx => h x hx rfl, fun h y hy heq => h (heq ▸ hy)⟩
    rw [List.map_cons, repeats, Bool.or_eq_false_iff, hnew, ih, List.nodup_cons]

theorem anyMemberRepeated_eq_false {ms : List (Value × Value)} :
    anyMemberRepeated ms = false ↔
      ∀ m ∈ ms, m.1.hasRepeatedKey = false ∧ m.2.hasRepeatedKey = false := by
  induction ms with
  | nil => simp [anyMemberRepeated]
  | cons m ms ih => simp [anyMemberRepeated, ih]

theorem anyRepeatedKey_eq_false {vs : List Value} :
    anyRepeatedKey vs = false ↔ ∀ v ∈ vs, v.hasRepeatedKey = false := by
  induction vs with
  | nil => simp [anyRepeatedKey]
  | cons v vs ih => simp [anyRepeatedKey, ih]

theorem hasRepeatedKey_string (s : String) : (Value.string s).hasRepeatedKey = false := by
  simp [hasRepeatedKey]

theorem anyRepeatedKey_texts (texts : List String) :
    anyRepeatedKey (texts.map .string) = false := by
  rw [anyRepeatedKey_eq_false]
  exact List.forall_mem_map.mpr fun s _ => hasRepeatedKey_string s

end Yaml.Value

namespace Document

variable {fs : Fields} {names : List String}

theorem Fields.namesRepeat_eq_false : fs.namesRepeat = false ↔ (fs.map (·.1)).Nodup := by
  rw [namesRepeat, bne_eq_false_iff_eq, eq_comm, ← length_sortedNames, List.length_map]

theorem Fields.strict?_recordValue (hnames : ∀ f ∈ fs, f.1 ∈ names) (h : (fs.map (·.1)).Nodup) :
    Fields.strict? names (recordValue fs) = some fs := by
  simp only [strict?, recordValue, List.mapM_map]
  have hread : fs.mapM ((fun m : Value × Value => do
      let name ← m.1.text?
      if names.contains name then some (name, m.2) else none) ∘ fun f => (.string f.1, f.2)) =
        some fs := by
    refine mapM_eq_some.mpr (List.forall₂_same.mpr fun f hf => ?_)
    simp [Value.text?, hnames f hf]
  refine Option.bind_eq_some_iff.mpr ⟨fs, hread, ?_⟩
  rw [Fields.namesRepeat_eq_false.mpr h]
  rfl

/-- Among other fields, those of a record are read by their names. -/
theorem Fields.lenient?_map (h : (fs.map (·.1)).Nodup) :
    Fields.lenient? names (fs.map fun f => (.string f.1, f.2)) =
      some (fs.filter fun f => names.contains f.1) := by
  have hnamed : named names (fs.map fun f => (.string f.1, f.2)) =
      some (fs.filter fun f => names.contains f.1) := by
    clear h
    induction fs with
    | nil => rfl
    | cons f fs ih =>
      simp only [List.map_cons, named, keyName?, ih, List.filter_cons]
      split <;> rfl
  refine Option.bind_eq_some_iff.mpr ⟨_, hnamed, ?_⟩
  rw [namesRepeat_eq_false.mpr (h.sublist (List.filter_sublist.map _))]
  rfl

theorem Fields.get?_filter {name : String} (h : name ∈ names) :
    Fields.get? (fs.filter fun f => names.contains f.1) name = fs.get? name := by
  induction fs with
  | nil => rfl
  | cons f fs ih =>
    obtain ⟨key, v⟩ := f
    rw [get?] at ih ⊢
    by_cases hkey : name = key
    · subst hkey
      simp [get?, h]
    · have hother : (name == key) = false := by simpa using hkey
      rw [List.filter_cons]
      split <;> simp only [get?, List.lookup_cons, hother] <;> exact ih

theorem Fields.get?_eq_none_iff {name : String} : fs.get? name = none ↔ name ∉ fs.map (·.1) := by
  rw [get?, List.lookup_eq_none_iff]
  constructor
  · intro h hmem
    obtain ⟨p, hp, rfl⟩ := List.mem_map.mp hmem
    simpa using h p hp
  · exact fun h p hp => bne_iff_ne.mpr fun heq => h (heq ▸ List.mem_map_of_mem hp)

theorem Fields.hasRepeatedKey_of_get? {name : String} {v : Value}
    (distinct : ∀ f ∈ fs, f.2.hasRepeatedKey = false) (h : fs.get? name = some v) :
    v.hasRepeatedKey = false := by
  obtain ⟨before, after, rfl, -⟩ := List.lookup_eq_some_iff.mp h
  exact distinct (name, v) (by simp)

theorem string?_eq_some_iff {v : Value} {s : String} : string? v = some s ↔ v = .string s := by
  cases v <;> simp [string?]

section Field

variable {α : Type} {name : String} {read : Value → Option α} {a : α}

theorem Fields.default?_eq_some {default : α} (h : fs.default? name default read = some a) :
    a = default ∨ ∃ v, read v = some a := by
  unfold default? at h
  split at h
  · exact .inl (Option.some.inj h).symm
  · exact .inr ⟨_, h⟩

theorem Fields.default?_of_get? (name : String) {default : α} {v : Value}
    (hget : fs.get? name = some v) (hread : read v = some a) :
    fs.default? name default read = some a := by
  rw [default?, hget]
  exact hread

theorem Fields.optional?_eq_some (h : fs.optional? name read = some (some a)) :
    ∃ v, read v = some a := by
  unfold optional? at h
  split at h
  · cases h
  · cases h
  · obtain ⟨b, hb, heq⟩ := Option.map_eq_some_iff.mp h
    cases heq
    exact ⟨_, hb⟩

theorem Fields.optional?_optionField (name : String) (write : α → Value) (o : Option α)
    (hget : fs.get? name = some (optionField name write o).2)
    (hread : ∀ a, o = some a → write a ≠ .null ∧ read (write a) = some a) :
    fs.optional? name read = some o := by
  rw [optional?, hget]
  cases o with
  | none => rfl
  | some a =>
    obtain ⟨hnull, ha⟩ := hread a rfl
    simp [optionField, ha]

theorem natural?_lt {bound n : Nat} {v : Value} (h : natural? bound v = some n) : n < bound := by
  unfold natural? at h
  split at h
  · split at h
    · cases h
      omega
    · cases h
  · cases h

theorem natural?_int {bound n : Nat} (h : n < bound) : natural? bound (.int n) = some n := by
  simp [natural?, h]

theorem listOf?_texts {read : Value → Option String} (h : ∀ s, read (.string s) = some s)
    (texts : List String) : listOf? read (.sequence (texts.map .string)) = some texts := by
  rw [listOf?, List.mapM_map]
  exact mapM_eq_some.mpr (List.forall₂_same.mpr fun s _ => h s)

end Field

section Keys

theorem hasRepeatedKey_recordValue_eq_false {fs : Fields} :
    (recordValue fs).hasRepeatedKey = false ↔
      (fs.map (·.1)).Nodup ∧ ∀ f ∈ fs, f.2.hasRepeatedKey = false := by
  have hkeys : ((fs.map fun f => (Value.string f.1, f.2)).map (·.1)) =
      (fs.map (·.1)).map Value.string := by simp
  rw [recordValue, Value.hasRepeatedKey, hkeys, Bool.or_eq_false_iff, Value.repeats_texts,
    Value.anyMemberRepeated_eq_false, List.forall_mem_map]
  simp only [Value.hasRepeatedKey_string, true_and]

theorem hasRepeatedKey_recordValue {fs : Fields} (hnodup : (fs.map (·.1)).Nodup)
    (h : ∀ f ∈ fs, f.2.hasRepeatedKey = false) : (recordValue fs).hasRepeatedKey = false :=
  hasRepeatedKey_recordValue_eq_false.mpr ⟨hnodup, h⟩

theorem hasRepeatedKey_optionField {α : Type} (name : String) (write : α → Value) (o : Option α)
    (h : ∀ a, o = some a → (write a).hasRepeatedKey = false) :
    (optionField name write o).2.hasRepeatedKey = false := by
  cases o with
  | none => rw [optionField]; simp [Value.hasRepeatedKey]
  | some a => exact h a rfl

end Keys

end Document
end SeriesAlarm
