import SeriesAlarm.Proofs.Document.Entries
import SeriesAlarm.Proofs.Document.Formulas
import SeriesAlarm.Proofs.Document.Nodes

/-!
# Documents that are written and read again

A document is written as one record with all its fields, null where there is nothing in them. What
reading leaves of a document is enough for all of it to be read back, with the headers of a delivery
in any order. Only a NaN then makes the document differ from the first one.
-/

namespace SeriesAlarm

open Yaml (Value Node)
open Document

/-- What reading leaves of a test: its id is not blank, and its threshold is a word. -/
structure TestDocument.Fits (d : TestDocument) : Prop where
  named : Text.trimChars d.metadata.id.toList ≠ []
  threshold : d.threshold < wordSize 32

/-- What reading leaves of an action: its id is not blank, its cutoff is a word, and its delivery
fits. -/
structure ActionDocument.Fits (d : ActionDocument) : Prop where
  named : Text.trimChars d.metadata.id.toList ≠ []
  cutoff : ∀ n, d.cutoff = some n → n < wordSize 32
  delivery : d.delivery.Fits

theorem TestDocument.ofEnvelope?_envelope {d : TestDocument} (h : d.Fits) :
    ofEnvelope? d.envelope = some d := by
  have hnames : (d.envelope.rest.all fun f => names.contains f.1) = true := by
    simp [envelope, names, textField, optionField]
  have hwindow : Fields.text? d.envelope.rest "evaluation_window" = some d.window := rfl
  have hschedule : (Fields.get? d.envelope.rest "schedule").bind ScheduleEntry.ofValue? =
      some d.schedule := ScheduleEntry.ofValue?_value d.schedule
  have hseason : Fields.optional? d.envelope.rest "season" SeasonEntry.ofValue? = some d.season :=
    Fields.optional?_optionField "season" SeasonEntry.value d.season rfl
      fun s _ => ⟨by simp [SeasonEntry.value, recordValue], SeasonEntry.ofValue?_value s⟩
  have hthreshold : Fields.default? d.envelope.rest "positive_count_threshold" 1
      (natural? (wordSize 32)) = some d.threshold :=
    Fields.default?_of_get? "positive_count_threshold" rfl (natural?_int h.threshold)
  have hmessage : Fields.optional? d.envelope.rest "message" Value.text? = some d.message :=
    Fields.optional?_optionField "message" .string d.message rfl fun s _ => ⟨by simp, rfl⟩
  have hformula : (Fields.get? d.envelope.rest "expression").bind Formula.ofValue? =
      some d.formula := Formula.ofValue?_value d.formula
  have hactions : Fields.default? d.envelope.rest "actions" [] (listOf? Value.text?) =
      some d.actions :=
    Fields.default?_of_get? "actions" rfl (listOf?_texts (fun _ => rfl) d.actions)
  simp only [ofEnvelope?, hnames, hwindow, hschedule, hseason, hthreshold, hmessage, hformula,
    hactions]
  rfl

variable {order : List (String × String) → List (String × String)}

def ActionDocument.reorder (order : List (String × String) → List (String × String))
    (d : ActionDocument) : ActionDocument := { d with delivery := d.delivery.reorder order }

theorem ActionDocument.ofEnvelope?_envelope {d : ActionDocument}
    (horder : ∀ hs, (order hs).Perm hs) (h : d.Fits) :
    ofEnvelope? (d.reorder order).envelope = some d := by
  have hnames : ((d.reorder order).envelope.rest.all fun f => names.contains f.1) = true := by
    simp [envelope, reorder, names, textField, optionField]
  have hactive : Fields.default? (d.reorder order).envelope.rest "active" true bool? =
      some d.active := rfl
  have hschedule : (Fields.get? (d.reorder order).envelope.rest "schedule").bind
      ScheduleEntry.ofValue? = some d.schedule := ScheduleEntry.ofValue?_value d.schedule
  have hget : Fields.get? (d.reorder order).envelope.rest "result_level_cutoff" =
      some ((d.cutoff.map fun n : Nat => .int n).getD .null) := by
    cases hcutoff : d.cutoff <;> simp [envelope, reorder, hcutoff] <;> rfl
  have hcutoff : Fields.optional? (d.reorder order).envelope.rest "result_level_cutoff"
      (natural? (wordSize 32)) = some d.cutoff :=
    Fields.optional?_optionField "result_level_cutoff" (fun n : Nat => .int n) d.cutoff hget
      fun n hn => ⟨by simp, natural?_int (h.cutoff n hn)⟩
  have hretention : Fields.text? (d.reorder order).envelope.rest "retention" =
      some d.retention := rfl
  have hseverity : Fields.optional? (d.reorder order).envelope.rest "severity"
      (fun v => v.text?.bind Severity.ofText?) = some d.severity :=
    Fields.optional?_optionField "severity" (fun s : Severity => .string s.name) d.severity rfl
      fun s _ => ⟨by simp, Severity.ofText?_name s⟩
  have hsubject : Fields.optional? (d.reorder order).envelope.rest "subject_template" Value.text? =
      some d.subject :=
    Fields.optional?_optionField "subject_template" .string d.subject rfl fun s _ => ⟨by simp, rfl⟩
  have hbody : Fields.optional? (d.reorder order).envelope.rest "body_template" Value.text? =
      some d.body :=
    Fields.optional?_optionField "body_template" .string d.body rfl fun s _ => ⟨by simp, rfl⟩
  have hdelivery : (Fields.get? (d.reorder order).envelope.rest "delivery").bind
      DeliveryEntry.ofValue? = some d.delivery :=
    DeliveryEntry.ofValue?_value horder h.delivery
  simp only [ofEnvelope?, hnames, hactive, hschedule, hcutoff, hretention, hseverity, hsubject,
    hbody, hdelivery]
  rfl

theorem TestDocument.distinct_envelope (d : TestDocument) : d.envelope.Distinct where
  names := by simp [envelope, textField, optionField]
  notOwn := by simp [envelope, textField, optionField, Envelope.ownNames]
  keys := by
    have hseason := hasRepeatedKey_optionField "season" SeasonEntry.value d.season fun s _ =>
      s.hasRepeatedKey_value
    have hmessage := hasRepeatedKey_optionField "message" .string d.message fun text _ =>
      Value.hasRepeatedKey_string text
    simp [envelope, textField, Value.hasRepeatedKey, d.schedule.hasRepeatedKey_value, hseason,
      hmessage, d.formula.hasRepeatedKey_value, Value.anyRepeatedKey_texts]

theorem ActionDocument.distinct_envelope {d : ActionDocument}
    (horder : ∀ hs, (order hs).Perm hs) (h : d.Fits) : (d.reorder order).envelope.Distinct where
  names := by simp [envelope, reorder, textField, optionField]
  notOwn := by simp [envelope, reorder, textField, optionField, Envelope.ownNames]
  keys := by
    have hcutoff : (optionField "result_level_cutoff" (fun n : Int => .int n)
        (do let n ← d.cutoff; pure (n : Int))).2.hasRepeatedKey = false :=
      hasRepeatedKey_optionField _ _ _ fun n _ => by simp [Value.hasRepeatedKey]
    have hseverity := hasRepeatedKey_optionField "severity" (fun s : Severity => .string s.name)
      d.severity fun s _ => Value.hasRepeatedKey_string s.name
    have hsubject := hasRepeatedKey_optionField "subject_template" .string d.subject fun text _ =>
      Value.hasRepeatedKey_string text
    have hbody := hasRepeatedKey_optionField "body_template" .string d.body fun text _ =>
      Value.hasRepeatedKey_string text
    simp only [envelope, reorder, List.forall_mem_cons, textField]
    exact ⟨by simp [Value.hasRepeatedKey], d.schedule.hasRepeatedKey_value, hcutoff,
      Value.hasRepeatedKey_string d.retention, hseverity, hsubject, hbody,
      DeliveryEntry.hasRepeatedKey_value horder h.delivery, by simp⟩

theorem TestDocument.fits_of_ofEnvelope? {e : Envelope} {d : TestDocument}
    (named : Text.trimChars e.metadata.id.toList ≠ []) (h : ofEnvelope? e = some d) : d.Fits := by
  unfold ofEnvelope? at h
  dsimp only at h
  split at h
  · cases h
  · simp only [Option.bind_eq_bind, Option.bind_eq_some_iff] at h
    obtain ⟨_, -, _, -, _, -, threshold, hthreshold, _, -, _, -, _, -, h⟩ := h
    cases h
    refine ⟨named, ?_⟩
    rcases Fields.default?_eq_some hthreshold with hone | ⟨v, hv⟩
    · have hlt : 1 < wordSize 32 := by decide
      exact hone ▸ hlt
    · exact natural?_lt hv

theorem ActionDocument.fits_of_ofEnvelope? {e : Envelope} {d : ActionDocument}
    (named : Text.trimChars e.metadata.id.toList ≠ []) (h : ofEnvelope? e = some d) : d.Fits := by
  unfold ofEnvelope? at h
  dsimp only at h
  split at h
  · cases h
  · simp only [Option.bind_eq_bind, Option.bind_eq_some_iff] at h
    obtain ⟨_, -, _, -, cutoff, hcutoff, _, -, _, -, _, -, _, -, _, ⟨_, -, hdelivery⟩, h⟩ := h
    cases h
    refine ⟨named, ?_, DeliveryEntry.fits_ofValue? hdelivery⟩
    rintro n rfl
    obtain ⟨v, hv⟩ := Fields.optional?_eq_some hcutoff
    exact natural?_lt hv

namespace Document

def Fits : Document → Prop
  | .test d => d.Fits
  | .action d => d.Fits

theorem ofEnvelope_cases {e : Envelope} {d : Document} (h : ofEnvelope e = .ok d) :
    Text.trimChars e.metadata.id.toList ≠ [] ∧
      ((∃ t, TestDocument.ofEnvelope? e = some t ∧ d = .test t) ∨
        ∃ a, ActionDocument.ofEnvelope? e = some a ∧ d = .action a) := by
  unfold ofEnvelope at h
  split at h
  · cases h
  · next named =>
    refine ⟨named, ?_⟩
    split at h
    · cases h
    · split at h
      · next t ht =>
        cases h
        exact .inl ⟨t, ht, rfl⟩
      · cases h
    · split at h
      · next a ha =>
        cases h
        exact .inr ⟨a, ha, rfl⟩
      · cases h

theorem fits_of_ofEnvelope {e : Envelope} {d : Document} (h : ofEnvelope e = .ok d) : d.Fits := by
  obtain ⟨named, ⟨t, ht, rfl⟩ | ⟨a, ha, rfl⟩⟩ := ofEnvelope_cases h
  · exact TestDocument.fits_of_ofEnvelope? named ht
  · exact ActionDocument.fits_of_ofEnvelope? named ha

theorem fits_of_parse {source : String} {d : Document} (h : parse source = .ok d) : d.Fits := by
  unfold parse at h
  split at h
  · exact fits_of_ofEnvelope h
  · cases h

def reorder (order : List (String × String) → List (String × String)) : Document → Document
  | .test d => .test d
  | .action d => .action (d.reorder order)

/-- The envelope that a document is written with is read as the same document, whatever the order
of its headers. -/
theorem ofEnvelope_envelope {d : Document} (horder : ∀ hs, (order hs).Perm hs) (h : d.Fits) :
    ofEnvelope (d.reorder order).envelope = .ok d := by
  cases d with
  | test t =>
    have h : t.Fits := h
    have named : Text.trimChars t.envelope.metadata.id.toList ≠ [] := h.named
    have hkind : DocumentKind.ofText? t.envelope.kind = some .test :=
      DocumentKind.ofText?_name .test
    rw [reorder, ofEnvelope, envelope, if_neg named, hkind, TestDocument.ofEnvelope?_envelope h]
  | action a =>
    have h : a.Fits := h
    have named : Text.trimChars (a.reorder order).envelope.metadata.id.toList ≠ [] := h.named
    have hkind : DocumentKind.ofText? (a.reorder order).envelope.kind = some .action :=
      DocumentKind.ofText?_name .action
    rw [reorder, ofEnvelope, envelope, if_neg named, hkind,
      ActionDocument.ofEnvelope?_envelope horder h]

theorem distinct_envelope {d : Document} (horder : ∀ hs, (order hs).Perm hs) (h : d.Fits) :
    (d.reorder order).envelope.Distinct := by
  cases d with
  | test d => exact TestDocument.distinct_envelope d
  | action d => exact ActionDocument.distinct_envelope horder h

def numbers : Document → List Float
  | .test t => t.formula.numbers
  | .action _ => []

theorem equals_self_iff (d : Document) :
    d.equals d = true ↔ ∀ x ∈ d.numbers, x.isNaN = false := by
  cases d with
  | test t => simp [equals, TestDocument.equals, numbers, Formula.equals_self_iff]
  | action a => simp [equals, numbers]

theorem reorder_self (d : Document) : (d.reorder fun hs => hs) = d := by
  cases d with
  | test d => rfl
  | action d =>
    have hdelivery : (d.delivery.reorder fun hs => hs) = d.delivery := by
      cases d.delivery with
      | webhook url method headers => cases headers <;> rfl
      | _ => rfl
    simp [reorder, ActionDocument.reorder, hdelivery]

/-- A document that was read survives being written if and only if none of its numbers is a NaN. -/
theorem survives_iff {source : String} {d : Document} (h : parse source = .ok d) :
    d.survives = true ↔ ∀ x ∈ d.numbers, x.isNaN = false := by
  have hread : ofEnvelope (d.reorder fun hs => hs).envelope = .ok d :=
    ofEnvelope_envelope (fun hs => .refl hs) (fits_of_parse h)
  rw [reorder_self] at hread
  rw [survives, hread, equals_self_iff]

def value (order : List (String × String) → List (String × String)) (d : Document) : Value :=
  (d.reorder order).envelope.value

/-- A text from which a value is read back as it was written, without any tags. -/
def ReadsBack (write : Value → String) (v : Value) : Prop :=
  ∃ n ∈ Node.ofText? (write v), n.StandsFor v

/-- A document that was read, is written and read again: where its tree of values comes back, so
does the document, and it is equal to the first if there is no NaN in it. -/
theorem parse_write {write : Value → String} {source : String} {d : Document}
    (parsed : parse source = .ok d) (numbers : ∀ x ∈ d.numbers, x.isNaN = false)
    (headers : ∀ hs, (order hs).Perm hs) (tree : ReadsBack write (d.value order)) :
    parse (write (d.value order)) = .ok d ∧ d.equals d = true := by
  have hfits := fits_of_parse parsed
  refine ⟨?_, (equals_self_iff d).mpr numbers⟩
  obtain ⟨n, hn, hstands⟩ := tree
  have hread := Envelope.ofNode?_of_standsFor (distinct_envelope headers hfits) hstands
  have htext : Envelope.ofText? (write (d.value order)) = some (d.reorder order).envelope :=
    Option.bind_eq_some_iff.mpr ⟨n, hn, hread⟩
  rw [parse, htext]
  exact ofEnvelope_envelope headers hfits

section Example

def unlines (lines : List String) : String :=
  String.ofList (lines.flatMap fun line => line.toList ++ ['\n'])

/-- A document as its author wrote it, with all that has a default left out. -/
def riverHighText : String :=
  unlines ["apiVersion: v1", "kind: Test", "metadata: [river-high, River high]",
    "schedule: [06:00, HH:mm, 1d]", "evaluation_window: 6h", "expression:", "  op: gt",
    "  left: \x7bfunction: get_value, args: [river.level]\x7d", "  right: \x7bconstant: 4.5\x7d"]

def riverHigh : Document := .test {
  apiVersion := "v1"
  metadata := { id := "river-high", name := "River high" }
  schedule := { baseTime := "06:00", interval := "1d" }
  window := "6h"
  formula := .operation .greaterThan (.function .getValue ["river.level"] none none)
    (.constant 4.5 none) none }

def riverHighWritten : String :=
  unlines ["apiVersion: v1", "kind: Test", "metadata:", "  id: river-high", "  name: River high",
    "  description: null", "  tags: null", "  enabled: true", "schedule:", "  base_time: 06:00",
    "  base_time_format: HH:mm", "  interval: 1d", "  positive_interval: null",
    "evaluation_window: 6h", "season: null", "positive_count_threshold: 1", "message: null",
    "expression:", "  op: '>'", "  left:", "    function: GetValue", "    args:",
    "    - river.level", "  right:", "    constant: 4.5", "actions: []"]

deriving instance DecidableEq for Formula
deriving instance DecidableEq for TestDocument
deriving instance DecidableEq for Document

-- The characters of the lines are put together before anything is evaluated: those of a long text
-- are slow to take out of it.
theorem parse_riverHighText : parse riverHighText = .ok riverHigh := by
  rw [parse, Envelope.ofText?, Node.ofText?, Yaml.tokens?, riverHighText, unlines,
    String.toList_ofList]
  decide +kernel

theorem readsBack_riverHigh :
    ReadsBack (fun _ => riverHighWritten) (riverHigh.value fun hs => hs) := by
  rw [ReadsBack, Node.ofText?, Yaml.tokens?, riverHighWritten, unlines, String.toList_ofList]
  decide +kernel

theorem parse_write_riverHigh :
    parse riverHighText = .ok riverHigh ∧ (∀ x ∈ riverHigh.numbers, x.isNaN = false) ∧
      ReadsBack (fun _ => riverHighWritten) (riverHigh.value fun hs => hs) ∧
      parse riverHighWritten = .ok riverHigh ∧ riverHigh.equals riverHigh = true := by
  have hnumbers : ∀ x ∈ riverHigh.numbers, x.isNaN = false := by decide +kernel
  have hwrite := parse_write parse_riverHighText hnumbers (fun hs => .refl hs) readsBack_riverHigh
  exact ⟨parse_riverHighText, hnumbers, readsBack_riverHigh, hwrite⟩

end Example

end Document
end SeriesAlarm
