import SeriesAlarm.Delivery.Notification
import SeriesAlarm.Document.Envelope
import SeriesAlarm.Document.Formula
import SeriesAlarm.Width

/-!
# Documents

A document describes a test or an action. It is read in two steps: the envelope, which names the
kind, then the fields of that kind.
-/

namespace SeriesAlarm

open Yaml (Value)
open Document

structure ScheduleEntry where
  baseTime : String
  baseTimeFormat : String := "HH:mm"
  interval : String
  positiveInterval : Option String := none
  deriving DecidableEq, Repr

structure SeasonEntry where
  start : String
  finish : String
  format : String := "MM-dd"
  deriving DecidableEq, Repr

inductive DeliveryEntry
  | log
  | webhook (url : String) (method : Option String) (headers : Option (List (String × String)))
  | process (command : String) (args : List String) (timeoutSeconds : Option Nat)
  deriving DecidableEq, Repr

structure TestDocument where
  apiVersion : String
  metadata : Metadata
  schedule : ScheduleEntry
  window : String
  season : Option SeasonEntry := none
  threshold : Nat := 1
  message : Option String := none
  formula : Formula
  actions : List String := []

structure ActionDocument where
  apiVersion : String
  metadata : Metadata
  active : Bool := true
  schedule : ScheduleEntry
  cutoff : Option Nat := none
  retention : String
  severity : Option Severity := none
  subject : Option String := none
  body : Option String := none
  delivery : DeliveryEntry
  deriving DecidableEq, Repr

inductive Document
  | test (d : TestDocument)
  | action (d : ActionDocument)

inductive DocumentKind
  | test | action
  deriving DecidableEq, Repr

namespace DocumentKind

def name : DocumentKind → String
  | .test => "Test"
  | .action => "Action"

def ofText? (s : String) : Option DocumentKind :=
  if s = "Test" then some .test else if s = "Action" then some .action else none

theorem ofText?_name (k : DocumentKind) : ofText? k.name = some k := by cases k <;> decide

def unknownMessage (s : String) : String := "unknown rule kind: '" ++ s ++ "'"

end DocumentKind

/-- Why a text is no document. -/
inductive DocumentError
  | malformed
  | emptyId
  | unknownKind (id kind : String)
  | badFields (id : String)
  deriving DecidableEq, Repr

/-- Defects of the text itself are reported with a tag. -/
def DocumentError.message : DocumentError → String
  | .malformed => "YAML parse error: <yaml>"
  | .emptyId => "Validation error: rule metadata.id must not be empty"
  | .unknownKind id kind =>
    "Validation error: failed to parse rule '" ++ id ++ "': " ++ DocumentKind.unknownMessage kind
  | .badFields id => "Validation error: failed to parse rule '" ++ id ++ "': <yaml>"

def textField (name value : String) : String × Value := (name, .string value)

def optionField {α : Type} (name : String) (write : α → Value) (a : Option α) : String × Value :=
  (name, (a.map write).getD .null)

def recordValue (fs : Fields) : Value := .mapping (fs.map fun f => (.string f.1, f.2))

namespace ScheduleEntry

def ofValue? (v : Value) : Option ScheduleEntry := do
  let fs ← Fields.strict? ["base_time", "base_time_format", "interval", "positive_interval"] v
  return {
    baseTime := ← fs.text? "base_time"
    baseTimeFormat := ← fs.textOr? "base_time_format" "HH:mm"
    interval := ← fs.text? "interval"
    positiveInterval := ← fs.optional? "positive_interval" Value.text? }

def value (s : ScheduleEntry) : Value :=
  recordValue [textField "base_time" s.baseTime, textField "base_time_format" s.baseTimeFormat,
    textField "interval" s.interval, optionField "positive_interval" .string s.positiveInterval]

end ScheduleEntry

namespace SeasonEntry

def ofValue? (v : Value) : Option SeasonEntry := do
  let fs ← Fields.strict? ["start", "end", "format"] v
  return {
    start := ← fs.text? "start"
    finish := ← fs.text? "end"
    format := ← fs.textOr? "format" "MM-dd" }

def value (s : SeasonEntry) : Value :=
  recordValue [textField "start" s.start, textField "end" s.finish, textField "format" s.format]

end SeasonEntry

namespace DeliveryEntry

def channel : DeliveryEntry → String
  | .log => "log"
  | .webhook .. => "webhook"
  | .process .. => "process"

def ofFields? (channel : String) (fields : List String → Option Fields) : Option DeliveryEntry :=
  match channel with
  | "log" => some .log
  | "webhook" => do
    let fs ← fields ["url", "method", "headers"]
    return .webhook (← (fs.get? "url").bind string?) (← fs.optional? "method" string?)
      (← fs.optional? "headers" texts?)
  | "process" => do
    let fs ← fields ["command", "args", "timeout_secs"]
    return .process (← (fs.get? "command").bind string?) (← fs.default? "args" [] (listOf? string?))
      (← fs.optional? "timeout_secs" (natural? (wordSize 64)))
  | _ => none

/-- A mapping with the channel among its members, or a sequence that begins with it. -/
def ofValue? : Value → Option DeliveryEntry
  | .mapping members =>
    let isChannel (m : Value × Value) := match m.1 with
      | .string s => s == "channel"
      | _ => false
    match members.filter isChannel with
    | [m] => do
      let channel ← m.2.text?
      ofFields? channel fun names => Fields.lenient? names (members.filter fun m => !isChannel m)
    | _ => none
  | .sequence (first :: items) => do
    let channel ← first.text?
    if channel = "log" ∧ items ≠ [] then none
    else ofFields? channel fun names =>
      if items.length ≤ names.length then some (names.zip items) else none
  | _ => none

def headersValue (headers : List (String × String)) : Value :=
  .mapping (headers.map fun h => (.string h.1, .string h.2))

def value : DeliveryEntry → Value
  | .log => recordValue [textField "channel" "log"]
  | .webhook url method headers =>
    recordValue [textField "channel" "webhook", textField "url" url,
      optionField "method" .string method, optionField "headers" headersValue headers]
  | .process command args timeout =>
    recordValue [textField "channel" "process", textField "command" command,
      ("args", .sequence (args.map .string)),
      optionField "timeout_secs" (fun n => .int (n : Int)) timeout]

end DeliveryEntry

namespace TestDocument

def names : List String :=
  ["schedule", "evaluation_window", "season", "positive_count_threshold", "message", "expression",
    "actions"]

def ofEnvelope? (e : Envelope) : Option TestDocument := do
  let fs := e.rest
  if !fs.all fun f => names.contains f.1 then none
  return {
    apiVersion := e.apiVersion
    metadata := e.metadata
    schedule := ← (fs.get? "schedule").bind ScheduleEntry.ofValue?
    window := ← fs.text? "evaluation_window"
    season := ← fs.optional? "season" SeasonEntry.ofValue?
    threshold := ← fs.default? "positive_count_threshold" 1 (natural? (wordSize 32))
    message := ← fs.optional? "message" Value.text?
    formula := ← (fs.get? "expression").bind Formula.ofValue?
    actions := ← fs.default? "actions" [] (listOf? Value.text?) }

def envelope (d : TestDocument) : Envelope where
  apiVersion := d.apiVersion
  kind := DocumentKind.test.name
  metadata := d.metadata
  rest := [("schedule", d.schedule.value), textField "evaluation_window" d.window,
    optionField "season" SeasonEntry.value d.season,
    ("positive_count_threshold", .int d.threshold), optionField "message" .string d.message,
    ("expression", d.formula.value), ("actions", .sequence (d.actions.map .string))]

def equals (d e : TestDocument) : Bool :=
  d.apiVersion == e.apiVersion && d.metadata == e.metadata && d.schedule == e.schedule &&
    d.window == e.window && d.season == e.season && d.threshold == e.threshold &&
    d.message == e.message && d.formula.equals e.formula && d.actions == e.actions

end TestDocument

namespace ActionDocument

def names : List String :=
  ["active", "schedule", "result_level_cutoff", "retention", "severity", "subject_template",
    "body_template", "delivery"]

def ofEnvelope? (e : Envelope) : Option ActionDocument := do
  let fs := e.rest
  if !fs.all fun f => names.contains f.1 then none
  return {
    apiVersion := e.apiVersion
    metadata := e.metadata
    active := ← fs.default? "active" true bool?
    schedule := ← (fs.get? "schedule").bind ScheduleEntry.ofValue?
    cutoff := ← fs.optional? "result_level_cutoff" (natural? (wordSize 32))
    retention := ← fs.text? "retention"
    severity := ← fs.optional? "severity" fun v => v.text?.bind Severity.ofText?
    subject := ← fs.optional? "subject_template" Value.text?
    body := ← fs.optional? "body_template" Value.text?
    delivery := ← (fs.get? "delivery").bind DeliveryEntry.ofValue? }

def envelope (d : ActionDocument) : Envelope where
  apiVersion := d.apiVersion
  kind := DocumentKind.action.name
  metadata := d.metadata
  rest := [("active", .bool d.active), ("schedule", d.schedule.value),
    optionField "result_level_cutoff" (fun n => .int (n : Int)) d.cutoff,
    textField "retention" d.retention,
    optionField "severity" (fun s => .string s.name) d.severity,
    optionField "subject_template" .string d.subject, optionField "body_template" .string d.body,
    ("delivery", d.delivery.value)]

end ActionDocument

namespace Document

def metadata : Document → Metadata
  | .test d => d.metadata
  | .action d => d.metadata

def id (d : Document) : String := d.metadata.id

def kind : Document → DocumentKind
  | .test _ => .test
  | .action _ => .action

/-- Reads the fields of the kind that the envelope names; an id must not be blank. -/
def ofEnvelope (e : Envelope) : Except DocumentError Document :=
  if Text.trimChars e.metadata.id.toList = [] then .error .emptyId
  else
    match DocumentKind.ofText? e.kind with
    | none => .error (.unknownKind e.metadata.id e.kind)
    | some .test =>
      match TestDocument.ofEnvelope? e with
      | some d => .ok (.test d)
      | none => .error (.badFields e.metadata.id)
    | some .action =>
      match ActionDocument.ofEnvelope? e with
      | some d => .ok (.action d)
      | none => .error (.badFields e.metadata.id)

def parse (text : String) : Except DocumentError Document :=
  match Envelope.ofText? text with
  | some e => ofEnvelope e
  | none => .error .malformed

def envelope : Document → Envelope
  | .test d => d.envelope
  | .action d => d.envelope

def equals : Document → Document → Bool
  | .test d, .test e => d.equals e
  | .action d, .action e => d == e
  | _, _ => false

/-- Whether reading what is written gives an equal document. -/
def survives (d : Document) : Bool :=
  match ofEnvelope d.envelope with
  | .ok e => d.equals e
  | .error _ => false

end Document
end SeriesAlarm
