import SeriesAlarm.Proofs.Document.Fields

/-!
# Entries as they are written

What is written for a schedule, a season or a delivery is read back as the same entry.
-/

namespace SeriesAlarm

open Yaml (Value)
open Document

theorem ScheduleEntry.ofValue?_value (s : ScheduleEntry) : ofValue? s.value = some s := by
  have hstrict : Fields.strict? ["base_time", "base_time_format", "interval", "positive_interval"]
      s.value = some [textField "base_time" s.baseTime,
        textField "base_time_format" s.baseTimeFormat, textField "interval" s.interval,
        optionField "positive_interval" .string s.positiveInterval] :=
    Fields.strict?_recordValue (by simp [textField, optionField]) (by simp [textField, optionField])
  obtain ⟨baseTime, format, interval, positive⟩ := s
  rw [ofValue?, hstrict]
  cases positive <;> rfl

theorem SeasonEntry.ofValue?_value (s : SeasonEntry) : ofValue? s.value = some s := by
  have hstrict : Fields.strict? ["start", "end", "format"] s.value =
      some [textField "start" s.start, textField "end" s.finish, textField "format" s.format] :=
    Fields.strict?_recordValue (by simp [textField]) (by simp [textField])
  rw [ofValue?, hstrict]
  rfl

theorem ScheduleEntry.hasRepeatedKey_value (s : ScheduleEntry) :
    s.value.hasRepeatedKey = false := by
  refine hasRepeatedKey_recordValue (by simp [textField, optionField]) ?_
  have hpositive := hasRepeatedKey_optionField "positive_interval" .string s.positiveInterval
    fun text _ => Value.hasRepeatedKey_string text
  simp [textField, Value.hasRepeatedKey, hpositive]

theorem SeasonEntry.hasRepeatedKey_value (s : SeasonEntry) : s.value.hasRepeatedKey = false := by
  refine hasRepeatedKey_recordValue (by simp [textField]) ?_
  simp [textField, Value.hasRepeatedKey]

namespace DeliveryEntry

variable {headers : List (String × String)}

def SortedHeaders (headers : List (String × String)) : Prop := (headers.map (·.1)).Pairwise (· < ·)

theorem texts?_headersValue {written : List (String × String)} (h : SortedHeaders headers)
    (hperm : written.Perm headers) : texts? (headersValue written) = some headers := by
  have hread : written.mapM ((fun m : Value × Value => do
      return (← string? m.1, ← string? m.2)) ∘ fun h => (.string h.1, .string h.2)) =
        some written :=
    mapM_eq_some.mpr (List.forall₂_same.mpr fun _ _ => rfl)
  have hdistinct : (written.reverse.map (·.1)).Nodup := by
    rw [List.map_reverse, List.nodup_reverse, (hperm.map _).nodup_iff]
    exact h.nodup
  simp only [texts?, headersValue, List.mapM_map]
  refine Option.bind_eq_some_iff.mpr ⟨written, hread, congrArg some ?_⟩
  rw [sortedNames_of_perm h (hperm.map _), List.map_map]
  refine (List.map_congr_left fun m hm => ?_).trans (List.map_id headers)
  have hmem : m ∈ written.reverse := List.mem_reverse.mpr (hperm.mem_iff.mpr hm)
  simp [lookup_of_mem_of_nodup hdistinct hmem]

theorem sorted_texts? {v : Value} (h : texts? v = some headers) : SortedHeaders headers := by
  unfold texts? at h
  split at h
  · obtain ⟨ms, -, h⟩ := Option.bind_eq_some_iff.mp h
    cases h
    rw [SortedHeaders, List.map_map]
    exact (List.map_id _).symm ▸ sorted_sortedNames _
  · cases h

def Fits : DeliveryEntry → Prop
  | .log => True
  | .webhook _ _ headers => ∀ hs, headers = some hs → SortedHeaders hs
  | .process _ _ timeout => ∀ n, timeout = some n → n < wordSize 64

theorem fits_ofValue? {v : Value} {d : DeliveryEntry} (h : ofValue? v = some d) : d.Fits := by
  have hfields {channel : String} {fields : List String → Option Fields}
      (h : ofFields? channel fields = some d) : d.Fits := by
    unfold ofFields? at h
    split at h
    · cases h
      trivial
    · simp only [Option.bind_eq_bind, Option.bind_eq_some_iff] at h
      obtain ⟨fs, -, url, -, method, -, headers, hheaders, h⟩ := h
      cases h
      rintro hs rfl
      obtain ⟨v, hv⟩ := Fields.optional?_eq_some hheaders
      exact sorted_texts? hv
    · simp only [Option.bind_eq_bind, Option.bind_eq_some_iff] at h
      obtain ⟨fs, -, command, -, args, -, timeout, htimeout, h⟩ := h
      cases h
      rintro n rfl
      obtain ⟨v, hv⟩ := Fields.optional?_eq_some htimeout
      exact natural?_lt hv
    · cases h
  unfold ofValue? at h
  split at h
  · dsimp only at h
    split at h
    · obtain ⟨channel, -, h⟩ := Option.bind_eq_some_iff.mp h
      exact hfields h
    · cases h
  · obtain ⟨channel, -, h⟩ := Option.bind_eq_some_iff.mp h
    split at h
    · cases h
    · exact hfields h
  · cases h

section Tag

variable {tag : String × Value} {fs : Fields} {isTag : Value × Value → Bool}

theorem filter_tagged (htag : isTag (.string tag.1, tag.2) = true)
    (hfs : ∀ f ∈ fs, isTag (.string f.1, f.2) = false) :
    ((tag :: fs).map fun f => (.string f.1, f.2)).filter isTag = [(.string tag.1, tag.2)] := by
  rw [List.map_cons, List.filter_cons_of_pos htag, List.filter_eq_nil_iff.mpr]
  exact List.forall_mem_map.mpr fun f hf => by simp [hfs f hf]

theorem filter_not_tagged (htag : isTag (.string tag.1, tag.2) = true)
    (hfs : ∀ f ∈ fs, isTag (.string f.1, f.2) = false) :
    ((tag :: fs).map fun f => (.string f.1, f.2)).filter (!isTag ·) =
      fs.map fun f => (.string f.1, f.2) := by
  rw [List.map_cons, List.filter_cons_of_neg (by simp [htag]), List.filter_eq_self]
  exact List.forall_mem_map.mpr fun f hf => by simp [hfs f hf]

theorem ofValue?_tagged {channel : String} (h : ∀ f ∈ fs, f.1 ≠ "channel") :
    ofValue? (recordValue (textField "channel" channel :: fs)) =
      ofFields? channel fun names =>
        Fields.lenient? names (fs.map fun f => (.string f.1, f.2)) := by
  have hothers : ∀ f ∈ fs, (f.1 == "channel") = false := fun f hf => by simpa using h f hf
  unfold ofValue? recordValue
  dsimp only
  rw [filter_tagged rfl hothers, filter_not_tagged rfl hothers]
  rfl

end Tag

section Reorder

variable {order : List (String × String) → List (String × String)}

def reorder (order : List (String × String) → List (String × String)) :
    DeliveryEntry → DeliveryEntry
  | .webhook url method headers => .webhook url method (headers.map order)
  | d => d

/-- What is written for a delivery is read back as the same delivery, whatever the order of its
headers. -/
theorem ofValue?_value {d : DeliveryEntry} (horder : ∀ hs, (order hs).Perm hs) (h : d.Fits) :
    ofValue? (d.reorder order).value = some d := by
  cases d with
  | log => rfl
  | webhook url method headers =>
    rw [reorder, value, ofValue?_tagged (by simp [textField, optionField])]
    simp only [ofFields?]
    rw [Fields.lenient?_map (by simp [textField, optionField]), Option.bind_eq_bind,
      Option.bind_some, Fields.optional?_optionField "method" .string method rfl
        fun _ _ => ⟨by simp, rfl⟩,
      Fields.optional?_optionField "headers" (fun hs => headersValue (order hs)) headers
        (by cases headers <;> rfl) fun hs hheaders =>
          ⟨by simp [headersValue], texts?_headersValue (h hs hheaders) (horder hs)⟩]
    rfl
  | process command args timeout =>
    change ofValue? (value (.process command args timeout)) = _
    rw [value, ofValue?_tagged (by simp [textField, optionField])]
    simp only [ofFields?]
    rw [Fields.lenient?_map (by simp [textField, optionField]), Option.bind_eq_bind,
      Option.bind_some, Fields.default?_of_get? "args" rfl (listOf?_texts (fun _ => rfl) args),
      Fields.optional?_optionField "timeout_secs" (fun n : Nat => .int n) timeout
        (by cases timeout <;> rfl) fun n hn => ⟨by simp, natural?_int (h n hn)⟩]
    rfl

theorem hasRepeatedKey_headersValue {written : List (String × String)} (h : SortedHeaders headers)
    (hperm : written.Perm headers) : (headersValue written).hasRepeatedKey = false := by
  have hrecord : headersValue written = recordValue (written.map fun h => textField h.1 h.2) := by
    simp [headersValue, recordValue, textField]
  rw [hrecord]
  refine hasRepeatedKey_recordValue ?_ ?_
  · rw [List.map_map]
    exact (hperm.map _).nodup_iff.mpr h.nodup
  · exact List.forall_mem_map.mpr fun h _ => Value.hasRepeatedKey_string h.2

theorem hasRepeatedKey_value {d : DeliveryEntry} (horder : ∀ hs, (order hs).Perm hs) (h : d.Fits) :
    (d.reorder order).value.hasRepeatedKey = false := by
  cases d with
  | log =>
    exact hasRepeatedKey_recordValue (by simp [textField])
      (by simp [textField, Value.hasRepeatedKey])
  | webhook url method headers =>
    refine hasRepeatedKey_recordValue (by simp [textField, optionField]) ?_
    have hmethod := hasRepeatedKey_optionField "method" .string method fun text _ =>
      Value.hasRepeatedKey_string text
    have hheaders := hasRepeatedKey_optionField "headers" headersValue (headers.map order)
      fun written hwritten => by
        obtain ⟨hs, hheaders, rfl⟩ := Option.map_eq_some_iff.mp hwritten
        exact hasRepeatedKey_headersValue (h hs hheaders) (horder hs)
    simp [textField, Value.hasRepeatedKey, hmethod, hheaders]
  | process command args timeout =>
    refine hasRepeatedKey_recordValue (by simp [textField, optionField]) ?_
    cases timeout <;>
      simp [textField, optionField, Value.hasRepeatedKey, Value.anyRepeatedKey_texts]

end Reorder

end DeliveryEntry

end SeriesAlarm
