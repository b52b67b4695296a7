import SeriesAlarm.Proofs.Document.RoundTrip

/-!
# What the nodes of an expression are read as

A node says by its keys what it is: an operation by `op`, a function by `function`, a constant by
`constant`. It is tried as each of them in this order, and whatever is wrong with one only leads to the
next, so a node that says two things may be read as the second. No accepted document is misread
exactly if no node says two things.
-/

namespace SeriesAlarm

open Yaml (Value)
open Document

def Yaml.Value.member? (v : Value) (name : String) : Option Value :=
  match v with
  | .mapping members => members.lookup (.string name)
  | _ => none

theorem Yaml.Value.member?_recordValue (fs : Fields) (name : String) :
    (recordValue fs).member? name = fs.get? name := by
  rw [recordValue, Value.member?, Fields.get?]
  induction fs with
  | nil => rfl
  | cons f fs ih =>
    have hkey : (Value.string name == .string f.1) = (name == f.1) := by
      rw [Bool.eq_iff_iff, beq_iff_eq, beq_iff_eq, Value.string.injEq]
    rw [List.map_cons, List.lookup_cons, List.lookup_cons, hkey, ih]

open Yaml.Value (member?_recordValue)

namespace Formula

/-- The nodes of an expression: its root, and the operands of a node with an operator. -/
inductive IsNode (root : Value) : Value → Prop
  | root : IsNode root root
  | operand {v w : Value} {side : String} (h : IsNode root v) (op : v.member? "op" ≠ none)
    (hside : side = "left" ∨ side = "right") (hw : v.member? side = some w) : IsNode root w

/-- The formula is of the kind that the value says, with the same operator or function, and so are its
operands. -/
inductive Tells : Value → Formula → Prop
  | operation {v left right : Value} {text : String} {op : Operator} {l r : Formula}
    {message : Option String} (hop : v.member? "op" = some (.string text))
    (known : Operator.ofText? text = some op) (hleft : v.member? "left" = some left)
    (hright : v.member? "right" = some right) (hl : Tells left l) (hr : Tells right r) :
    Tells v (.operation op l r message)
  | function {v : Value} {text : String} {kind : FunctionKind} {args : List String}
    {message : Option String} {missingValue : Option Float} (noOp : v.member? "op" = none)
    (hfunction : v.member? "function" = some (.string text))
    (known : FunctionKind.ofText? text = some kind) :
    Tells v (.function kind args message missingValue)
  | constant {v : Value} {x : Float} {message : Option String} (noOp : v.member? "op" = none)
    (noFunction : v.member? "function" = none) : Tells v (.constant x message)

/-- A node with an unknown operator, without an operand or with an unknown function. -/
inductive IsFaulty (v : Value) : Prop
  | operator {w : Value} (hop : v.member? "op" = some w)
    (unknown : (string? w).bind Operator.ofText? = none)
  | operand {side : String} (op : v.member? "op" ≠ none) (hside : side = "left" ∨ side = "right")
    (lacking : v.member? side = none)
  | function {w : Value} (noOp : v.member? "op" = none) (hfunction : v.member? "function" = some w)
    (unknown : (string? w).bind FunctionKind.ofText? = none)

section Nodes

variable {root v w : Value} {f : Formula} {side : String}

theorem IsNode.trans (h : IsNode root v) (hw : IsNode v w) : IsNode root w := by
  induction hw with
  | root => exact h
  | operand _ op hside hw ih => exact ih.operand op hside hw

theorem Tells.exists_of_isNode (h : Tells root f) (hv : IsNode root v) : ∃ g, Tells v g := by
  induction hv with
  | root => exact ⟨f, h⟩
  | operand _ op hside hw ih =>
    obtain ⟨g, hg⟩ := ih
    cases hg with
    | operation _ _ hleft hright hl hr =>
      rcases hside with rfl | rfl
      · rw [hleft, Option.some.injEq] at hw
        exact ⟨_, hw ▸ hl⟩
      · rw [hright, Option.some.injEq] at hw
        exact ⟨_, hw ▸ hr⟩
    | function noOp => exact absurd noOp op
    | constant noOp => exact absurd noOp op

theorem Tells.not_isFaulty (h : Tells v f) : ¬ IsFaulty v := by
  rintro (⟨hop, unknown⟩ | ⟨op, hside, lacking⟩ | ⟨noOp, hfunction, unknown⟩)
  · cases h with
    | operation hop' known =>
      rw [hop', Option.some.injEq] at hop
      rw [← hop, string?, Option.bind_some, known] at unknown
      cases unknown
    | function noOp => simp [noOp] at hop
    | constant noOp => simp [noOp] at hop
  · cases h with
    | operation _ _ hleft hright =>
      rcases hside with rfl | rfl
      · simp [hleft] at lacking
      · simp [hright] at lacking
    | function noOp => exact op noOp
    | constant noOp => exact op noOp
  · cases h with
    | operation hop => simp [hop] at noOp
    | function _ hfunction' known =>
      rw [hfunction', Option.some.injEq] at hfunction
      rw [← hfunction, string?, Option.bind_some, known] at unknown
      cases unknown
    | constant _ noFunction => simp [noFunction] at hfunction

end Nodes

def kindNames : List String := ["op", "function", "constant"]

/-- Of the keys at most one says what the node is. -/
def Unambiguous (keys : List String) : Prop :=
  ∀ a ∈ kindNames, ∀ b ∈ kindNames, a ∈ keys → b ∈ keys → a = b

theorem ambiguous_cases {keys : List String} (h : ¬ Unambiguous keys) :
    ("constant" ∈ keys ∧ ("op" ∈ keys ∨ "function" ∈ keys)) ∨
      ("constant" ∉ keys ∧ "function" ∈ keys ∧ "op" ∈ keys) := by
  by_cases hconstant : "constant" ∈ keys <;> by_cases hop : "op" ∈ keys <;>
    by_cases hfunction : "function" ∈ keys <;> simp_all [Unambiguous, kindNames]

def Keyed (allowed : List String → Prop) (root : Value) : Prop :=
  ∀ members, IsNode root (.mapping members) →
    ∃ fs : Fields, .mapping members = recordValue fs ∧ allowed (fs.map (·.1))

section Record

variable {fs : Fields} {f : Formula}

/-- What a record is read as, by the field that made it so. -/
inductive ReadFrom (fs : Fields) : Formula → Prop
  | operation {left right : Value} {text : String} {op : Operator} {l r : Formula}
    {message : Option String} (hop : fs.get? "op" = some (.string text))
    (known : Operator.ofText? text = some op) (hleft : fs.get? "left" = some left)
    (hright : fs.get? "right" = some right) (hl : ofValue? left = some l)
    (hr : ofValue? right = some r) : ReadFrom fs (.operation op l r message)
  | function {text : String} {kind : FunctionKind} {args : List String} {message : Option String}
    {missingValue : Option Float} (hfunction : fs.get? "function" = some (.string text))
    (known : FunctionKind.ofText? text = some kind) :
    ReadFrom fs (.function kind args message missingValue)
  | constant {v : Value} {x : Float} {message : Option String}
    (hconstant : fs.get? "constant" = some v) : ReadFrom fs (.constant x message)

theorem ofMembers?_cases {members : Members} (h : ofMembers? members = some f) :
    operation? members = some f ∨ function? members = some f ∨ constant? members = some f := by
  unfold ofMembers? at h
  cases hoperation : operation? members with
  | some g =>
    rw [hoperation] at h
    exact .inl h
  | none =>
    rw [hoperation] at h
    cases hfunction : function? members with
    | some g =>
      rw [hfunction] at h
      exact .inr (.inl h)
    | none =>
      rw [hfunction] at h
      exact .inr (.inr h)

theorem readFrom_of_ofValue? (distinct : (fs.map (·.1)).Nodup)
    (h : ofValue? (recordValue fs) = some f) : ReadFrom fs f := by
  rw [recordValue, ofValue?] at h
  have hcases := ofMembers?_cases h
  simp only [operation?_record distinct, function?_record distinct, constant?_record distinct,
    Option.bind_eq_bind, Option.bind_eq_some_iff, string?_eq_some_iff] at hcases
  rcases hcases with h | h | h
  · obtain ⟨op, ⟨text, ⟨v, hop, rfl⟩, known⟩, l, ⟨left, hleft, hl⟩, r, ⟨right, hright, hr⟩, message,
      -, hf⟩ := h
    cases hf
    exact .operation hop known hleft hright hl hr
  · obtain ⟨kind, ⟨text, ⟨v, hfunction, rfl⟩, known⟩, args, -, message, -, missingValue, -, hf⟩ := h
    cases hf
    exact .function hfunction known
  · obtain ⟨x, ⟨v, hconstant, -⟩, message, -, hf⟩ := h
    cases hf
    exact .constant hconstant

theorem Unambiguous.get?_eq_none (h : Unambiguous (fs.map (·.1))) {a b : String}
    (ha : a ∈ kindNames) (hb : b ∈ kindNames) (hne : a ≠ b) {v : Value} (hv : fs.get? a = some v) :
    fs.get? b = none := by
  rw [Fields.get?_eq_none_iff]
  refine fun hmem => hne (h a ha b hb ?_ hmem)
  by_contra hnot
  rw [Fields.get?_eq_none_iff.mpr hnot] at hv
  cases hv

end Record

section Reading

variable {allowed : List String → Prop} {v w : Value} {f : Formula} {side : String}

theorem Keyed.operand (keyed : Keyed allowed v) (op : v.member? "op" ≠ none)
    (hside : side = "left" ∨ side = "right") (hw : v.member? side = some w) : Keyed allowed w :=
  fun members h => keyed members ((IsNode.root.operand op hside hw).trans h)

theorem exists_readFrom (keyed : Keyed allowed v)
    (unambiguous : ∀ keys : List String, keys.Nodup → allowed keys → Unambiguous keys)
    (distinct : v.hasRepeatedKey = false) (h : ofValue? v = some f) :
    ∃ fs : Fields, v = recordValue fs ∧ Unambiguous (fs.map (·.1)) ∧
      (∀ g ∈ fs, g.2.hasRepeatedKey = false) ∧ ReadFrom fs f := by
  cases v with
  | mapping members =>
    obtain ⟨fs, hfs, hallowed⟩ := keyed members .root
    rw [hfs] at distinct h
    obtain ⟨hkeys, hvalues⟩ := hasRepeatedKey_recordValue_eq_false.mp distinct
    exact ⟨fs, hfs, unambiguous _ hkeys hallowed, hvalues, readFrom_of_ofValue? hkeys h⟩
  | _ => rw [ofValue?] at h <;> cases h

/-- If no node says two things, what is read is what the nodes say. -/
theorem tells_of_ofValue? (keyed : Keyed allowed v)
    (unambiguous : ∀ keys : List String, keys.Nodup → allowed keys → Unambiguous keys)
    (distinct : v.hasRepeatedKey = false) (h : ofValue? v = some f) : Tells v f := by
  induction f generalizing v with
  | operation op l r message ihl ihr =>
    obtain ⟨fs, rfl, -, hvalues, hread⟩ := exists_readFrom keyed unambiguous distinct h
    cases hread with
    | operation hop known hleft hright hl hr =>
      have hdl := Fields.hasRepeatedKey_of_get? hvalues hleft
      have hdr := Fields.hasRepeatedKey_of_get? hvalues hright
      rw [← member?_recordValue] at hop hleft hright
      have hsome : (recordValue fs).member? "op" ≠ none := by simp [hop]
      exact .operation hop known hleft hright (ihl (keyed.operand hsome (.inl rfl) hleft) hdl hl)
        (ihr (keyed.operand hsome (.inr rfl) hright) hdr hr)
  | function kind args message missingValue =>
    obtain ⟨fs, rfl, hkeys, -, hread⟩ := exists_readFrom keyed unambiguous distinct h
    cases hread with
    | function hfunction known =>
      have noOp := hkeys.get?_eq_none (b := "op") (by decide) (by decide) (by decide) hfunction
      rw [← member?_recordValue] at hfunction noOp
      exact .function noOp hfunction known
  | constant x message =>
    obtain ⟨fs, rfl, hkeys, -, hread⟩ := exists_readFrom keyed unambiguous distinct h
    cases hread with
    | constant hconstant =>
      have noOp := hkeys.get?_eq_none (b := "op") (by decide) (by decide) (by decide) hconstant
      have noFunction :=
        hkeys.get?_eq_none (b := "function") (by decide) (by decide) (by decide) hconstant
      rw [← member?_recordValue] at noOp noFunction
      exact .constant noOp noFunction

end Reading

end Formula

theorem Document.ofValue?_of_ofEnvelope {e : Envelope} {d : Document} {v : Value}
    (h : ofEnvelope e = .ok d) (hv : e.rest.get? "expression" = some v) :
    ∃ t, d = .test t ∧ Formula.ofValue? v = some t.formula := by
  obtain ⟨-, ⟨t, ht, rfl⟩ | ⟨a, ha, rfl⟩⟩ := ofEnvelope_cases h
  · unfold TestDocument.ofEnvelope? at ht
    dsimp only at ht
    split at ht
    · cases ht
    · simp only [Option.bind_eq_bind, Option.bind_eq_some_iff, hv] at ht
      obtain ⟨_, -, _, -, _, -, _, -, _, -, f, ⟨w, hw, hf⟩, _, -, ht⟩ := ht
      cases hw
      cases ht
      exact ⟨_, rfl, hf⟩
  · unfold ActionDocument.ofEnvelope? at ha
    dsimp only at ha
    split at ha
    · cases ha
    · next hnames =>
      obtain ⟨before, after, hsplit, -⟩ := List.lookup_eq_some_iff.mp hv
      simp [hsplit, ActionDocument.names] at hnames

namespace Formula

/-- Documents whose nodes have only such keys as are allowed are read for what they say. -/
structure KeepsKinds (allowed : List String → Prop) : Prop where
  told : ∀ (e : Envelope) (d : Document) (v : Value), e.Distinct → Document.ofEnvelope e = .ok d →
    e.rest.get? "expression" = some v → Keyed allowed v → ∃ t, d = .test t ∧ Tells v t.formula
  refused : ∀ (e : Envelope) (v w : Value), e.Distinct → e.rest.get? "expression" = some v →
    Keyed allowed v → IsNode v w → IsFaulty w → ∃ cause, Document.ofEnvelope e = .error cause

variable {allowed : List String → Prop} {keys : List String}

section Accepted

variable {e : Envelope} {d : Document} {v : Value}

theorem tells_of_ofEnvelope
    (unambiguous : ∀ keys : List String, keys.Nodup → allowed keys → Unambiguous keys)
    (distinct : e.Distinct) (accepted : Document.ofEnvelope e = .ok d)
    (hv : e.rest.get? "expression" = some v) (keyed : Keyed allowed v) :
    ∃ t, d = .test t ∧ Tells v t.formula := by
  obtain ⟨t, ht, hread⟩ := Document.ofValue?_of_ofEnvelope accepted hv
  have hkeys : v.hasRepeatedKey = false := Fields.hasRepeatedKey_of_get? distinct.keys hv
  exact ⟨t, ht, tells_of_ofValue? keyed unambiguous hkeys hread⟩

theorem keepsKinds_of_unambiguous
    (unambiguous : ∀ keys : List String, keys.Nodup → allowed keys → Unambiguous keys) :
    KeepsKinds allowed := by
  refine ⟨fun e d v => tells_of_ofEnvelope unambiguous, fun e v w distinct hv keyed hnode faulty => ?_⟩
  cases hd : Document.ofEnvelope e with
  | error cause => exact ⟨cause, rfl⟩
  | ok d =>
    obtain ⟨t, -, ht⟩ := tells_of_ofEnvelope unambiguous distinct hd hv keyed
    obtain ⟨g, hg⟩ := ht.exists_of_isNode hnode
    exact absurd faulty hg.not_isFaulty

end Accepted

section Misread

/-- What makes a node a constant if it may be one, else a function, and never an operation. -/
def misreadValue (keys : List String) (key : String) : Value :=
  if key = "constant" then .float 1
  else if key = "function" ∧ "constant" ∉ keys then .string FunctionKind.delta.name
  else if key = "args" then .sequence []
  else .null

def misread (keys : List String) : Fields := keys.map fun key => (key, misreadValue keys key)

theorem keys_misread (keys : List String) : (misread keys).map (·.1) = keys := by
  rw [misread, List.map_map]
  exact List.map_id keys

theorem get?_misread (name : String) :
    (misread keys).get? name = if name ∈ keys then some (misreadValue keys name) else none := by
  have hall (g : String → Value) (keys : List String) :
      (keys.map fun key => (key, g key)).lookup name = if name ∈ keys then some (g name) else none := by
    induction keys with
    | nil => rfl
    | cons key keys ih =>
      rw [List.map_cons, List.lookup_cons, ih]
      by_cases hkey : name = key
      · simp [hkey]
      · have hother : (name == key) = false := by simpa using hkey
        simp [hkey, hother]
  exact hall (misreadValue keys) keys

theorem hasRepeatedKey_misread (distinct : keys.Nodup) :
    (recordValue (misread keys)).hasRepeatedKey = false := by
  refine hasRepeatedKey_recordValue (by rwa [keys_misread]) ?_
  refine List.forall_mem_map.mpr fun key _ => ?_
  dsimp only
  unfold misreadValue
  split_ifs <;> simp [Value.hasRepeatedKey, Value.anyRepeatedKey]

theorem keyed_misread (h : allowed keys) : Keyed allowed (recordValue (misread keys)) := by
  have hnodes {v : Value} (hv : IsNode (recordValue (misread keys)) v) :
      v = recordValue (misread keys) ∨ v = .null := by
    induction hv with
    | root => exact .inl rfl
    | operand _ op hside hw ih =>
      rcases ih with rfl | rfl
      · rw [member?_recordValue, get?_misread] at hw
        split at hw
        · cases hw
          rcases hside with rfl | rfl <;> exact .inr (by simp [misreadValue])
        · cases hw
      · exact absurd rfl op
  intro members hmembers
  rcases hnodes hmembers with heq | heq
  · exact ⟨misread keys, heq, by rwa [keys_misread]⟩
  · cases heq

theorem op_misread : ((misread keys).get? "op").bind string? = none := by
  rw [get?_misread]
  split <;> rfl

theorem message?_misread : message? (misread keys) = some none := by
  rw [message?, Fields.optional?, get?_misread]
  by_cases h : "message" ∈ keys <;> simp [h, misreadValue]

theorem ofValue?_misread_of_constant (distinct : keys.Nodup) (h : "constant" ∈ keys) :
    ofValue? (recordValue (misread keys)) = some (.constant 1 none) := by
  have hkeys : ((misread keys).map (·.1)).Nodup := by rwa [keys_misread]
  have hfunction : ((misread keys).get? "function").bind string? = none := by
    rw [get?_misread]
    split <;> simp [misreadValue, h, string?]
  have hconstant : (misread keys).get? "constant" = some (.float 1) := by
    rw [get?_misread, if_pos h]
    rfl
  rw [recordValue, ofValue?, ofMembers?, operation?_record hkeys, function?_record hkeys,
    constant?_record hkeys, op_misread, hfunction, hconstant, message?_misread]
  rfl

theorem ofValue?_misread_of_function (distinct : keys.Nodup) (hconstant : "constant" ∉ keys)
    (h : "function" ∈ keys) :
    ofValue? (recordValue (misread keys)) = some (.function .delta [] none none) := by
  have hkeys : ((misread keys).map (·.1)).Nodup := by rwa [keys_misread]
  have hfunction : (misread keys).get? "function" = some (.string FunctionKind.delta.name) := by
    rw [get?_misread, if_pos h]
    simp [misreadValue, hconstant]
  have hargs : (misread keys).default? "args" [] (listOf? string?) = some [] := by
    rw [Fields.default?, get?_misread]
    by_cases h : "args" ∈ keys <;> simp [h, misreadValue, listOf?]
  have hmissing : (misread keys).optional? "missing_value" Document.float? = some none := by
    rw [Fields.optional?, get?_misread]
    by_cases h : "missing_value" ∈ keys <;> simp [h, misreadValue]
  rw [recordValue, ofValue?, ofMembers?, operation?_record hkeys, function?_record hkeys,
    op_misread, hfunction, hargs, message?_misread, hmissing]
  rfl

/-- A node that says two things is read as the one or the other, and not as what it says first. -/
theorem exists_misread (distinct : keys.Nodup) (ambiguous : ¬ Unambiguous keys) :
    ∃ f, ofValue? (recordValue (misread keys)) = some f ∧ ¬ Tells (recordValue (misread keys)) f := by
  rcases ambiguous_cases ambiguous with ⟨hconstant, hother⟩ | ⟨hconstant, hfunction, hop⟩
  · refine ⟨_, ofValue?_misread_of_constant distinct hconstant, fun h => ?_⟩
    cases h with
    | constant noOp noFunction =>
      rw [member?_recordValue, Fields.get?_eq_none_iff, keys_misread] at noOp noFunction
      exact hother.elim noOp noFunction
  · refine ⟨_, ofValue?_misread_of_function distinct hconstant hfunction, fun h => ?_⟩
    cases h with
    | function noOp =>
      rw [member?_recordValue, Fields.get?_eq_none_iff, keys_misread] at noOp
      exact noOp hop

end Misread

def envelopeOf (v : Value) : Envelope where
  apiVersion := "v1"
  kind := DocumentKind.test.name
  metadata := { id := "level", name := "Level" }
  rest := [("schedule", ScheduleEntry.value { baseTime := "06:00", interval := "1d" }),
    textField "evaluation_window" "1d", ("expression", v)]

theorem distinct_envelopeOf {v : Value} (h : v.hasRepeatedKey = false) :
    (envelopeOf v).Distinct where
  names := by simp [envelopeOf, textField]
  notOwn := by simp [envelopeOf, textField, Envelope.ownNames]
  keys := by
    simp [envelopeOf, textField, ScheduleEntry.hasRepeatedKey_value, Value.hasRepeatedKey, h]

theorem ofEnvelope_envelopeOf {v : Value} {f : Formula} (h : ofValue? v = some f) :
    ∃ t : TestDocument, Document.ofEnvelope (envelopeOf v) = .ok (.test t) ∧ t.formula = f := by
  have named : Text.trimChars (envelopeOf v).metadata.id.toList ≠ [] := by
    change Text.trimChars "level".toList ≠ []
    decide
  have hkind : DocumentKind.ofText? (envelopeOf v).kind = some .test :=
    DocumentKind.ofText?_name .test
  have hnames : ((envelopeOf v).rest.all fun f => TestDocument.names.contains f.1) = true := rfl
  have hschedule : (Fields.get? (envelopeOf v).rest "schedule").bind ScheduleEntry.ofValue? =
      some { baseTime := "06:00", interval := "1d" } := ScheduleEntry.ofValue?_value _
  have hformula : (Fields.get? (envelopeOf v).rest "expression").bind ofValue? = some f := h
  rw [Document.ofEnvelope, if_neg named, hkind]
  simp only [TestDocument.ofEnvelope?, hnames, hschedule, hformula]
  exact ⟨_, rfl, rfl⟩

/-- Documents are read for what their nodes say exactly if no node says two things. -/
theorem keepsKinds_iff (allowed : List String → Prop) :
    KeepsKinds allowed ↔ ∀ keys : List String, keys.Nodup → allowed keys → Unambiguous keys := by
  refine ⟨fun h keys distinct hallowed => ?_, keepsKinds_of_unambiguous⟩
  by_contra ambiguous
  obtain ⟨f, hread, hnot⟩ := exists_misread distinct ambiguous
  obtain ⟨t, ht, rfl⟩ := ofEnvelope_envelopeOf hread
  obtain ⟨t', heq, htells⟩ := h.told _ _ _
    (distinct_envelopeOf (hasRepeatedKey_misread distinct)) ht rfl (keyed_misread hallowed)
  cases heq
  exact hnot htells

def limitNode : Value :=
  recordValue [("op", .string "gt"),
    ("left", recordValue [("function", .string "get_value"), ("args", .sequence [.string "river"])]),
    ("constant", .float 4.5)]

def limitText : String :=
  Document.unlines ["apiVersion: v1", "kind: Test", "metadata: [level, Level]",
    "schedule: [06:00, HH:mm, 1d]", "evaluation_window: 6h", "expression:", "  op: and", "  left:",
    "    op: gt", "    left:", "      function: get_value", "      args: [river]",
    "    constant: 4.5", "  right:", "    constant: 0.5"]

/-- The comparison has no right operand, but the document is accepted, and the comparison is read as
the constant. -/
theorem accepted_limit :
    ∃ (e : Envelope) (t : TestDocument) (v : Value), Envelope.ofText? limitText = some e ∧
      Document.parse limitText = .ok (.test t) ∧ e.rest.get? "expression" = some v ∧
      IsNode v limitNode ∧ IsFaulty limitNode ∧
      t.formula = .operation .and (.constant 4.5 none) (.constant 0.5 none) none := by
  let root : Value := recordValue [("op", .string "and"), ("left", limitNode),
    ("right", recordValue [("constant", .float 0.5)])]
  let test : TestDocument := {
    apiVersion := "v1"
    metadata := { id := "level", name := "Level" }
    schedule := { baseTime := "06:00", interval := "1d" }
    window := "6h"
    formula := .operation .and (.constant 4.5 none) (.constant 0.5 none) none }
  have hexpression : (Envelope.ofText? limitText).bind (fun e => e.rest.get? "expression") =
      some root := by
    rw [Envelope.ofText?, Yaml.Node.ofText?, Yaml.tokens?, limitText, Document.unlines,
      String.toList_ofList]
    decide +kernel
  have hparse : Document.parse limitText = .ok (.test test) := by
    rw [Document.parse, Envelope.ofText?, Yaml.Node.ofText?, Yaml.tokens?, limitText,
      Document.unlines, String.toList_ofList]
    decide +kernel
  obtain ⟨e, he, hroot⟩ := Option.bind_eq_some_iff.mp hexpression
  have hnode : IsNode root limitNode := by
    refine .operand .root ?_ (.inl rfl) ?_
    · rw [member?_recordValue]
      decide
    · rw [member?_recordValue]
      rfl
  have hfaulty : IsFaulty limitNode := by
    refine .operand ?_ (.inr rfl) ?_
    · rw [limitNode, member?_recordValue]
      decide
    · rw [limitNode, member?_recordValue]
      rfl
  exact ⟨e, test, root, he, hparse, hroot, hnode, hfaulty, rfl⟩

end Formula
end SeriesAlarm
