import Mathlib
import SeriesAlarm.Proofs.Document.Fields

/-!
# Formulas as they are written

What a node of an expression is follows from its fields. Each of the three variants is written with
a field that the other two do not have, so a formula is read back as the same formula; it is equal to
itself unless one of its numbers is a NaN.
-/

namespace SeriesAlarm

open Yaml (Value)
open Document

namespace Operator

theorem ofText?_symbol (op : Operator) : ofText? op.symbol = some op := by
  cases op <;> decide

end Operator

namespace FunctionKind

theorem ofText?_name (k : FunctionKind) : ofText? k.name = some k := by
  cases k <;> decide

end FunctionKind

namespace Formula

variable {fs : Fields} {names : List String} {name : String}

theorem plain_withFormulas (ms : List (Value × Value)) : plain (withFormulas ms) = ms := by
  induction ms with
  | nil => rfl
  | cons m ms ih => exact congrArg (m :: ·) ih

theorem formulaOf_withFormulas (hname : name ∈ names) :
    formulaOf (withFormulas (fs.map fun f => (.string f.1, f.2))) names name =
      (fs.get? name).bind ofValue? := by
  induction fs with
  | nil => rfl
  | cons f fs ih =>
    obtain ⟨key, v⟩ := f
    unfold formulaOf at ih ⊢
    by_cases hkey : name = key
    · subst hkey
      simp [withFormulas, Fields.keyName?, Fields.get?, hname]
    · have hother : (name == key) = false := by simpa using hkey
      have hnot : (Fields.keyName? names (.string key) == some (some name)) = false := by
        simp only [Fields.keyName?]
        split <;> simp [Ne.symm hkey]
      simp only [List.map_cons, withFormulas, List.find?_cons, hnot, ih, Fields.get?,
        List.lookup_cons, hother]

theorem operation?_record (h : (fs.map (·.1)).Nodup) :
    operation? (withFormulas (fs.map fun f => (.string f.1, f.2))) = do
      let op ← ((fs.get? "op").bind string?).bind Operator.ofText?
      let left ← (fs.get? "left").bind ofValue?
      let right ← (fs.get? "right").bind ofValue?
      return .operation op left right (← message? fs) := by
  simp only [operation?, plain_withFormulas, Fields.lenient?_map h, Option.bind_eq_bind,
    Option.bind_some, message?, Fields.optional?]
  rw [Fields.get?_filter (by simp), Fields.get?_filter (by simp),
    formulaOf_withFormulas (by simp), formulaOf_withFormulas (by simp)]

theorem function?_record (h : (fs.map (·.1)).Nodup) :
    function? (withFormulas (fs.map fun f => (.string f.1, f.2))) = do
      let kind ← ((fs.get? "function").bind string?).bind FunctionKind.ofText?
      let args ← fs.default? "args" [] (listOf? string?)
      return .function kind args (← message? fs)
        (← fs.optional? "missing_value" Document.float?) := by
  simp only [function?, plain_withFormulas, Fields.lenient?_map h, Option.bind_eq_bind,
    Option.bind_some, message?, Fields.optional?, Fields.default?]
  rw [Fields.get?_filter (by simp), Fields.get?_filter (by simp), Fields.get?_filter (by simp),
    Fields.get?_filter (by simp)]

theorem constant?_record (h : (fs.map (·.1)).Nodup) :
    constant? (withFormulas (fs.map fun f => (.string f.1, f.2))) = do
      let x ← (fs.get? "constant").bind Document.float?
      return .constant x (← message? fs) := by
  simp only [constant?, plain_withFormulas, Fields.lenient?_map h, Option.bind_eq_bind,
    Option.bind_some, message?, Fields.optional?]
  rw [Fields.get?_filter (by simp), Fields.get?_filter (by simp)]

def fields : Formula → Fields
  | .operation op left right message =>
    [textField "op" op.symbol, ("left", left.value), ("right", right.value)] ++
      message.toList.map (textField "message")
  | .function kind args message missingValue =>
    [textField "function" kind.name, ("args", .sequence (args.map .string))] ++
      message.toList.map (textField "message") ++
      missingValue.toList.map fun x => ("missing_value", .float x)
  | .constant x message => [("constant", .float x)] ++ message.toList.map (textField "message")

def message : Formula → Option String
  | .operation _ _ _ message | .function _ _ message _ | .constant _ message => message

theorem value_eq (f : Formula) : f.value = recordValue f.fields := by
  cases f with
  | operation op left right message => cases message <;> rfl
  | function kind args message missingValue => cases message <;> cases missingValue <;> rfl
  | constant x message => cases message <;> rfl

theorem nodup_fields (f : Formula) : (f.fields.map (·.1)).Nodup := by
  cases f with
  | operation op left right message => cases message <;> simp [fields, textField]
  | function kind args message missingValue =>
    cases message <;> cases missingValue <;> simp [fields, textField]
  | constant x message => cases message <;> simp [fields, textField]

theorem message?_fields (f : Formula) : message? f.fields = some f.message := by
  cases f with
  | operation op left right message => cases message <;> rfl
  | function kind args message missingValue => cases message <;> cases missingValue <;> rfl
  | constant x message => cases message <;> rfl

/-- What is written for a formula is read back as the same formula. -/
theorem ofValue?_value (f : Formula) : ofValue? f.value = some f := by
  have hread (f : Formula) : ofValue? f.value =
      ofMembers? (withFormulas (f.fields.map fun f => (.string f.1, f.2))) := by
    rw [value_eq, recordValue, ofValue?]
  induction f with
  | operation op left right message ihl ihr =>
    rw [hread, ofMembers?, operation?_record (nodup_fields _), message?_fields]
    have hop : (fields (.operation op left right message)).get? "op" =
        some (.string op.symbol) := rfl
    have hleft : (fields (.operation op left right message)).get? "left" = some left.value := rfl
    have hright : (fields (.operation op left right message)).get? "right" = some right.value := rfl
    simp [hop, hleft, hright, string?, Operator.ofText?_symbol, ihl, ihr, Formula.message]
  | function kind args message missingValue =>
    rw [hread, ofMembers?, operation?_record (nodup_fields _), function?_record (nodup_fields _),
      message?_fields]
    have hop : (fields (.function kind args message missingValue)).get? "op" = none := by
      cases message <;> cases missingValue <;> rfl
    have hkind : (fields (.function kind args message missingValue)).get? "function" =
        some (.string kind.name) := rfl
    have hargs : (fields (.function kind args message missingValue)).default? "args" []
        (listOf? string?) = some args :=
      Fields.default?_of_get? "args" rfl (listOf?_texts (fun _ => rfl) args)
    have hmissing : (fields (.function kind args message missingValue)).optional? "missing_value"
        Document.float? = some missingValue := by
      cases message <;> cases missingValue <;> rfl
    simp [hop, hkind, hargs, hmissing, string?, FunctionKind.ofText?_name, Formula.message]
  | constant x message =>
    rw [hread, ofMembers?, operation?_record (nodup_fields _), function?_record (nodup_fields _),
      constant?_record (nodup_fields _), message?_fields]
    cases message <;> rfl

theorem hasRepeatedKey_value (f : Formula) : f.value.hasRepeatedKey = false := by
  have hrecord (f : Formula) (h : ∀ g ∈ f.fields, g.2.hasRepeatedKey = false) :
      f.value.hasRepeatedKey = false := by
    rw [value_eq]
    exact hasRepeatedKey_recordValue (nodup_fields f) h
  induction f with
  | operation op left right message ihl ihr =>
    refine hrecord _ ?_
    cases message <;> simp [fields, textField, Value.hasRepeatedKey, ihl, ihr]
  | function kind args message missingValue =>
    refine hrecord _ ?_
    cases message <;> cases missingValue <;>
      simp [fields, textField, Value.hasRepeatedKey, Value.anyRepeatedKey_texts]
  | constant x message =>
    refine hrecord _ ?_
    cases message <;> simp [fields, textField, Value.hasRepeatedKey]

section Numbers

/-- The constants of a formula and the values in place of missing ones. -/
def numbers : Formula → List Float
  | .operation _ left right _ => left.numbers ++ right.numbers
  | .function _ _ _ missingValue => missingValue.toList
  | .constant x _ => [x]

theorem equals_self_iff (f : Formula) : f.equals f = true ↔ ∀ x ∈ f.numbers, x.isNaN = false := by
  induction f with
  | operation op left right message ihl ihr =>
    simp only [equals, numbers, beq_self_eq_true, Bool.true_and, Bool.and_true, Bool.and_eq_true,
      ihl, ihr, List.forall_mem_append]
  | function kind args message missingValue => cases missingValue <;> simp [equals, numbers]
  | constant x message => simp [equals, numbers]

end Numbers

end Formula
end SeriesAlarm
