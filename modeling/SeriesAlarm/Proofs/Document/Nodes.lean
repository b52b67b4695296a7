import SeriesAlarm.Proofs.Document.Fields

/-!
# Nodes of written values

The envelope and the metadata are read from the nodes of a text, the other members from values. A
node without tags that stands for a text, a null, a truth value or a record is read as this value
would be, so it is enough to know what the values are.
-/

namespace SeriesAlarm

open Yaml (Value Node)
open Document

namespace Yaml

namespace Value

mutual

/-- Values are compared bit for bit, down to the last of their members. -/
def decEq : (v w : Value) → Decidable (v = w)
  | .null, w =>
    match w with
    | .null => .isTrue rfl
    | .bool _ | .int _ | .float _ | .string _ | .sequence _ | .mapping _ => .isFalse nofun
  | .bool a, w =>
    match w with
    | .bool b => decidable_of_iff (a = b) (by simp)
    | .null | .int _ | .float _ | .string _ | .sequence _ | .mapping _ => .isFalse nofun
  | .int a, w =>
    match w with
    | .int b => decidable_of_iff (a = b) (by simp)
    | .null | .bool _ | .float _ | .string _ | .sequence _ | .mapping _ => .isFalse nofun
  | .float a, w =>
    match w with
    | .float b => decidable_of_iff (a = b) (by simp)
    | .null | .bool _ | .int _ | .string _ | .sequence _ | .mapping _ => .isFalse nofun
  | .string a, w =>
    match w with
    | .string b => decidable_of_iff (a = b) (by simp)
    | .null | .bool _ | .int _ | .float _ | .sequence _ | .mapping _ => .isFalse nofun
  | .sequence a, w =>
    match w with
    | .sequence b =>
      have := decEqItems a b
      decidable_of_iff (a = b) (by simp)
    | .null | .bool _ | .int _ | .float _ | .string _ | .mapping _ => .isFalse nofun
  | .mapping a, w =>
    match w with
    | .mapping b =>
      have := decEqMembers a b
      decidable_of_iff (a = b) (by simp)
    | .null | .bool _ | .int _ | .float _ | .string _ | .sequence _ => .isFalse nofun

def decEqItems : (vs ws : List Value) → Decidable (vs = ws)
  | [], [] => .isTrue rfl
  | [], _ :: _ | _ :: _, [] => .isFalse nofun
  | v :: vs, w :: ws =>
    have := decEq v w
    have := decEqItems vs ws
    decidable_of_iff (v = w ∧ vs = ws) (by simp)

def decEqMembers : (ms ns : List (Value × Value)) → Decidable (ms = ns)
  | [], [] => .isTrue rfl
  | [], _ :: _ | _ :: _, [] => .isFalse nofun
  | (k, v) :: ms, (l, w) :: ns =>
    have := decEq k l
    have := decEq v w
    have := decEqMembers ms ns
    decidable_of_iff ((k = l ∧ v = w) ∧ ms = ns) (by simp)

end

instance : DecidableEq Value := decEq

end Value

section Plain

variable {s : String} {v : Value}

theorem int?_eq_some (h : int? s = some (some v)) : ∃ n, v = .int n := by
  obtain ⟨n, -, hn⟩ := Option.bind_eq_some_iff.mp h
  split at hn
  · cases hn
    exact ⟨n, rfl⟩
  · split at hn <;> cases hn

/-- The form of a plain scalar, from the value that it is read as. -/
inductive PlainForm (s : String) : Value → Prop
  | null (h : (s = "" || isNullText s) = true) : PlainForm s .null
  | bool {b : Bool} (h : boolText? s = some b) : PlainForm s (.bool b)
  | int (n : Int) : PlainForm s (.int n)
  | float (x : Float) : PlainForm s (.float x)
  | string (h : (s = "" || isNullText s) = false) : PlainForm s (.string s)

theorem plainForm_of_ofPlain? (h : Value.ofPlain? s = some v) : PlainForm s v := by
  unfold Value.ofPlain? at h
  split at h
  · next hnull =>
    cases h
    exact .null hnull
  · next hnull =>
    split at h
    · next b hb =>
      cases h
      exact .bool hb
    · split at h
      · next hint =>
        subst h
        obtain ⟨n, rfl⟩ := int?_eq_some hint
        exact .int n
      · split at h
        · cases h
          exact .float _
        · cases h
          exact .string (by simpa using hnull)

end Plain

namespace Node

mutual

def untagged : Node → Bool
  | .scalar tag _ _ => tag.isNone
  | .sequence tag items => tag.isNone && untaggedItems items
  | .mapping tag members => tag.isNone && untaggedMembers members

def untaggedItems : List Node → Bool
  | [] => true
  | n :: ns => untagged n && untaggedItems ns

def untaggedMembers : List (Node × Node) → Bool
  | [] => true
  | (k, v) :: ms => untagged k && untagged v && untaggedMembers ms

end

/-- A node without tags is read as a value. -/
structure StandsFor (n : Node) (v : Value) : Prop where
  untagged : n.untagged = true
  read : Value.ofNode? n = some v

instance (n : Node) (v : Value) : Decidable (n.StandsFor v) :=
  decidable_of_iff (n.untagged = true ∧ Value.ofNode? n = some v)
    ⟨fun h => ⟨h.1, h.2⟩, fun h => ⟨h.untagged, h.read⟩⟩

namespace StandsFor

variable {n : Node}

theorem scalar {tag : Option String} {s : String} {style : ScalarStyle} {v : Value}
    (h : (Node.scalar tag s style).StandsFor v) :
    tag = none ∧ (if style = .plain then Value.ofPlain? s else some (.string s)) = some v := by
  obtain ⟨htag, hread⟩ := h
  rw [Node.untagged, Option.isNone_iff_eq_none] at htag
  subst htag
  rw [Value.ofNode?, Value.ofScalar?] at hread
  exact ⟨rfl, hread⟩

theorem sequence {tag : Option String} {items : List Node} {v : Value}
    (h : (Node.sequence tag items).StandsFor v) :
    ∃ vs, v = .sequence vs ∧ List.Forall₂ StandsFor items vs := by
  have hitems (items : List Node) : ∀ vs : List Value, untaggedItems items = true →
      Value.ofItems? items = some vs → List.Forall₂ StandsFor items vs := by
    induction items with
    | nil =>
      intro vs _ hvs
      cases hvs
      exact .nil
    | cons n ns ih =>
      intro vs huntagged hvs
      rw [untaggedItems, Bool.and_eq_true] at huntagged
      simp only [Value.ofItems?, Option.bind_eq_bind, Option.bind_eq_some_iff] at hvs
      obtain ⟨v, hv, rest, hrest, hvs⟩ := hvs
      cases hvs
      exact .cons ⟨huntagged.1, hv⟩ (ih rest huntagged.2 hrest)
  obtain ⟨huntagged, hread⟩ := h
  rw [Node.untagged, Bool.and_eq_true] at huntagged
  rw [Value.ofNode?] at hread
  split at hread
  · cases hread
  · obtain ⟨vs, hvs, rfl⟩ := Option.map_eq_some_iff.mp hread
    exact ⟨vs, rfl, hitems items vs huntagged.2 hvs⟩

theorem mapping {tag : Option String} {members : List (Node × Node)} {v : Value}
    (h : (Node.mapping tag members).StandsFor v) :
    ∃ ms, v = .mapping ms ∧
      List.Forall₂ (fun m w => m.1.StandsFor w.1 ∧ m.2.StandsFor w.2) members ms := by
  have hmembers (members : List (Node × Node)) : ∀ ms : List (Value × Value),
      untaggedMembers members = true → Value.ofMembers? members = some ms →
        List.Forall₂ (fun m w => m.1.StandsFor w.1 ∧ m.2.StandsFor w.2) members ms := by
    induction members with
    | nil =>
      intro ms _ hms
      cases hms
      exact .nil
    | cons m members ih =>
      obtain ⟨k, n⟩ := m
      intro ms huntagged hms
      simp only [untaggedMembers, Bool.and_eq_true] at huntagged
      simp only [Value.ofMembers?, Option.bind_eq_bind, Option.bind_eq_some_iff] at hms
      obtain ⟨key, hkey, v, hv, rest, hrest, hms⟩ := hms
      cases hms
      exact .cons ⟨⟨huntagged.1.1, hkey⟩, ⟨huntagged.1.2, hv⟩⟩ (ih rest huntagged.2 hrest)
  obtain ⟨huntagged, hread⟩ := h
  rw [Node.untagged, Bool.and_eq_true] at huntagged
  rw [Value.ofNode?] at hread
  split at hread
  · cases hread
  · obtain ⟨ms, hms, rfl⟩ := Option.map_eq_some_iff.mp hread
    exact ⟨ms, rfl, hmembers members ms huntagged.2 hms⟩

theorem eq_scalar {v : Value} {s : String} (h : n.StandsFor v) (hv : v.text? = some s) :
    ∃ text style, n = .scalar none text style ∧
      (if style = .plain then Value.ofPlain? text else some (.string text)) = some v := by
  cases n with
  | scalar tag text style =>
    obtain ⟨rfl, hread⟩ := h.scalar
    exact ⟨text, style, rfl, hread⟩
  | sequence tag items =>
    obtain ⟨vs, rfl, -⟩ := h.sequence
    cases hv
  | mapping tag members =>
    obtain ⟨ms, rfl, -⟩ := h.mapping
    cases hv

theorem text {s : String} (h : n.StandsFor (.string s)) :
    n.text? = some s ∧ n.isNull? = some false := by
  obtain ⟨text, style, rfl, hread⟩ := h.eq_scalar rfl
  split at hread
  · next hplain =>
    subst hplain
    cases plainForm_of_ofPlain? hread with
    | string hnull => exact ⟨rfl, congrArg some hnull⟩
  · next hquoted =>
    cases hread
    refine ⟨rfl, ?_⟩
    cases style with
    | plain => exact absurd rfl hquoted
    | _ => rfl

theorem null (h : n.StandsFor .null) : n.isNull? = some true := by
  obtain ⟨text, style, rfl, hread⟩ := h.eq_scalar rfl
  split at hread
  · next hplain =>
    subst hplain
    cases plainForm_of_ofPlain? hread with
    | null hnull => exact congrArg some hnull
  · cases hread

theorem bool {b : Bool} (h : n.StandsFor (.bool b)) : n.bool? = some b := by
  obtain ⟨text, style, rfl, hread⟩ := h.eq_scalar rfl
  split at hread
  · next hplain =>
    subst hplain
    cases plainForm_of_ofPlain? hread with
    | bool hb => exact hb
  · cases hread

theorem texts {ts : List String} (h : n.StandsFor (.sequence (ts.map .string))) :
    n.texts? = some ts ∧ n.isNull? = some false := by
  cases n with
  | scalar tag text style =>
    obtain ⟨-, hread⟩ := h.scalar
    split at hread
    · cases plainForm_of_ofPlain? hread
    · cases hread
  | sequence tag items =>
    obtain ⟨vs, hvs, hitems⟩ := h.sequence
    cases hvs
    refine ⟨mapM_eq_some.mpr ?_, rfl⟩
    rw [List.forall₂_map_right_iff] at hitems
    exact hitems.imp fun _ _ hitem => hitem.text.1
  | mapping tag members =>
    obtain ⟨ms, hms, -⟩ := h.mapping
    cases hms

variable {α : Type} {read : Node → Option α} {write : α → Value} {o : Option α}

theorem unlessNull (name : String) (h : n.StandsFor (optionField name write o).2)
    (hread : ∀ a, n.StandsFor (write a) → read n = some a ∧ n.isNull? = some false) :
    unlessNull? read n = some o := by
  cases o with
  | none =>
    have hnull : n.isNull? = some true := StandsFor.null h
    simp [unlessNull?, hnull]
  | some a =>
    obtain ⟨ha, hnull⟩ := hread a h
    simp [unlessNull?, hnull, ha]

end StandsFor

/-- Nodes by name stand for the fields of a record. -/
def Record (nodes : List (String × Node)) (fs : Fields) : Prop :=
  List.Forall₂ (fun m f => m.1 = f.1 ∧ m.2.StandsFor f.2) nodes fs

namespace Record

variable {nodes : List (String × Node)} {fs : Fields}

theorem names_eq (h : Record nodes fs) : nodes.map (·.1) = fs.map (·.1) := by
  induction h with
  | nil => rfl
  | cons hm _ ih => rw [List.map_cons, List.map_cons, hm.1, ih]

theorem lookup (h : Record nodes fs) (name : String) {v : Value} (hv : fs.lookup name = some v) :
    ∃ n, nodes.lookup name = some n ∧ n.StandsFor v := by
  induction h with
  | nil => cases hv
  | @cons m f nodes fs hm _ ih =>
    obtain ⟨key, n⟩ := m
    obtain ⟨key', w⟩ := f
    obtain ⟨rfl, hn⟩ := hm
    rw [List.lookup_cons] at hv ⊢
    cases hkey : name == key with
    | true =>
      rw [hkey] at hv
      cases hv
      exact ⟨n, rfl, hn⟩
    | false =>
      rw [hkey] at hv
      exact ih hv

theorem filter (h : Record nodes fs) (p : String → Bool) :
    Record (nodes.filter fun m => p m.1) (fs.filter fun f => p f.1) := by
  induction h with
  | nil => exact .nil
  | @cons m f nodes fs hm _ ih =>
    rw [List.filter_cons, List.filter_cons, hm.1]
    split
    · exact .cons hm ih
    · exact ih

theorem read (h : Record nodes fs) :
    nodes.mapM (fun m => do return (m.1, ← Value.ofNode? m.2)) = some fs :=
  mapM_eq_some.mpr (h.imp fun m f hm => by simp [hm.1, hm.2.read])

end Record

def Named (m : Node × Node) (e : String × Node) : Prop := m.1.text? = some e.1 ∧ m.2 = e.2

theorem mapM_named {members : List (Node × Node)} {nodes : List (String × Node)}
    (h : List.Forall₂ Named members nodes) (known : String → Bool)
    (hknown : ∀ name ∈ nodes.map (·.1), known name = true) :
    members.mapM (fun m => do
      let name ← m.1.text?
      if known name then some (name, m.2) else none) = some nodes := by
  refine mapM_eq_some.mpr ?_
  induction h with
  | nil => exact .nil
  | cons hm _ ih =>
    obtain ⟨hname, hrest⟩ := List.forall_mem_cons.mp hknown
    exact .cons (by simp [hm.1, hm.2, hname]) (ih hrest)

/-- A record stands as a mapping with its names as keys. -/
theorem StandsFor.record {n : Node} {fs : Fields} (h : n.StandsFor (recordValue fs)) :
    ∃ tag members nodes, n = .mapping tag members ∧ Record nodes fs ∧
      List.Forall₂ Named members nodes := by
  cases n with
  | scalar tag text style =>
    obtain ⟨-, hread⟩ := h.scalar
    split at hread
    · cases plainForm_of_ofPlain? hread
    · cases hread
  | sequence tag items =>
    obtain ⟨vs, hvs, -⟩ := h.sequence
    cases hvs
  | mapping tag members =>
    obtain ⟨ms, hms, hmembers⟩ := h.mapping
    cases hms
    rw [List.forall₂_map_right_iff] at hmembers
    suffices hnodes : ∃ nodes, Record nodes fs ∧ List.Forall₂ Named members nodes from
      have ⟨nodes, hnodes⟩ := hnodes
      ⟨tag, members, nodes, rfl, hnodes⟩
    clear h
    induction hmembers with
    | nil => exact ⟨[], .nil, .nil⟩
    | @cons m f members fs hm _ ih =>
      obtain ⟨nodes, hnodes, hnamed⟩ := ih
      exact ⟨(f.1, m.2) :: nodes, .cons ⟨rfl, hm.2⟩ hnodes, .cons ⟨hm.1.text.1, rfl⟩ hnamed⟩

end Node
end Yaml

namespace Metadata

def fields (m : Metadata) : Fields :=
  [textField "id" m.id, textField "name" m.name,
    optionField "description" .string m.description,
    optionField "tags" (fun ts => .sequence (ts.map .string)) m.tags, ("enabled", .bool m.enabled)]

theorem ofFields?_of_record {m : Metadata} {nodes : List (String × Node)}
    (h : Node.Record nodes m.fields) : ofFields? nodes = some m := by
  obtain ⟨id, hid, hidText⟩ := h.lookup "id" rfl
  obtain ⟨name, hname, hnameText⟩ := h.lookup "name" rfl
  obtain ⟨description, hdescription, hd⟩ := h.lookup "description" rfl
  obtain ⟨tags, htags, ht⟩ := h.lookup "tags" rfl
  obtain ⟨enabled, henabled, he⟩ := h.lookup "enabled" rfl
  have hd : description.unlessNull? Node.text? = some m.description :=
    hd.unlessNull "description" fun s hs => hs.text
  have ht : tags.unlessNull? Node.texts? = some m.tags :=
    ht.unlessNull "tags" fun ts hts => hts.texts
  simp [ofFields?, hid, hidText.text.1, hname, hnameText.text.1, hdescription, hd, htags, ht,
    henabled, he.bool]

theorem ofNode?_of_standsFor {m : Metadata} {n : Node} (h : n.StandsFor (recordValue m.fields)) :
    ofNode? n = some m := by
  obtain ⟨tag, members, nodes, rfl, hnodes, hmembers⟩ := h.record
  have hnames : nodes.map (·.1) = names := hnodes.names_eq
  have hnamed := Node.mapM_named hmembers names.contains fun name hname => by
    simpa using hnames ▸ hname
  have hlength : nodes.length = (sortedNames (nodes.map (·.1))).length := by
    rw [length_sortedNames.mpr (by rw [hnames]; decide), List.length_map]
  have hread := ofFields?_of_record hnodes
  rw [ofNode?]
  refine Option.bind_eq_some_iff.mpr ⟨nodes, hnamed, ?_⟩
  rw [if_pos hlength, hread]

end Metadata

namespace Envelope

def value (e : Envelope) : Value :=
  recordValue ([textField "apiVersion" e.apiVersion, textField "kind" e.kind,
    ("metadata", recordValue e.metadata.fields)] ++ e.rest)

theorem single?_eq_lookup {nodes : List (String × Node)} {name : String}
    (h : (nodes.map (·.1)).Nodup) : single? nodes name = nodes.lookup name := by
  induction nodes with
  | nil => rfl
  | cons m nodes ih =>
    obtain ⟨key, n⟩ := m
    obtain ⟨hm, hnodes⟩ := List.nodup_cons.mp h
    by_cases hkey : key = name
    · subst hkey
      have hothers : nodes.filter (fun m => m.1 == key) = [] := by
        refine List.filter_eq_nil_iff.mpr fun m hmem heq => hm ?_
        exact List.mem_map.mpr ⟨m, hmem, beq_iff_eq.mp heq⟩
      simp [single?, hothers]
    · have hne : (name == key) = false := by simpa using Ne.symm hkey
      rw [List.lookup_cons, hne, ← ih hnodes, single?, single?,
        List.filter_cons_of_neg (by simpa using hkey)]

/-- The other members do not repeat a name of the envelope's own, or each other's. -/
structure Distinct (e : Envelope) : Prop where
  names : (e.rest.map (·.1)).Nodup
  notOwn : ∀ f ∈ e.rest, f.1 ∉ ownNames
  keys : ∀ f ∈ e.rest, f.2.hasRepeatedKey = false

/-- What is written for an envelope is read back as the same envelope. -/
theorem ofNode?_of_standsFor {e : Envelope} {n : Node} (distinct : e.Distinct)
    (h : n.StandsFor e.value) : ofNode? n = some e := by
  obtain ⟨tag, members, nodes, rfl, hnodes, hmembers⟩ := h.record
  have hnamed : members.mapM (fun m => do return (← m.1.text?, m.2)) = some nodes :=
    mapM_eq_some.mpr (hmembers.imp fun m e hm => by simp [hm.1, hm.2])
  have hnodup : (nodes.map (·.1)).Nodup := by
    rw [hnodes.names_eq, List.map_append, List.nodup_append]
    refine ⟨by simp [textField], distinct.names, fun name hname name' hname' => ?_⟩
    obtain ⟨f, hf, rfl⟩ := List.mem_map.mp hname'
    rintro rfl
    exact distinct.notOwn f hf hname
  have hversion : (single? nodes "apiVersion").bind Node.text? = some e.apiVersion := by
    obtain ⟨version, hlookup, hversion⟩ := hnodes.lookup "apiVersion" rfl
    rw [single?_eq_lookup hnodup, hlookup]
    exact hversion.text.1
  have hkind : (single? nodes "kind").bind Node.text? = some e.kind := by
    obtain ⟨kind, hlookup, hkind⟩ := hnodes.lookup "kind" rfl
    rw [single?_eq_lookup hnodup, hlookup]
    exact hkind.text.1
  have hmetadata : (single? nodes "metadata").bind Metadata.ofNode? = some e.metadata := by
    obtain ⟨metadata, hlookup, hmetadata⟩ := hnodes.lookup "metadata" rfl
    rw [single?_eq_lookup hnodup, hlookup]
    exact Metadata.ofNode?_of_standsFor hmetadata
  have hothers := hnodes.filter fun name => !ownNames.contains name
  have hrest : e.rest.filter (fun f => !ownNames.contains f.1) = e.rest :=
    List.filter_eq_self.mpr fun f hf => by simpa using distinct.notOwn f hf
  rw [List.filter_append, hrest] at hothers
  have hkeys : (e.rest.any fun f => f.2.hasRepeatedKey) = false := by
    simpa using distinct.keys
  rw [ofNode?]
  refine Option.bind_eq_some_iff.mpr ⟨nodes, hnamed, ?_⟩
  refine Option.bind_eq_some_iff.mpr ⟨e.apiVersion, hversion, ?_⟩
  refine Option.bind_eq_some_iff.mpr ⟨e.kind, hkind, ?_⟩
  refine Option.bind_eq_some_iff.mpr ⟨e.metadata, hmetadata, ?_⟩
  refine Option.bind_eq_some_iff.mpr ⟨e.rest, hothers.read, ?_⟩
  rw [Fields.namesRepeat_eq_false.mpr distinct.names, hkeys]
  rfl

end Envelope
end SeriesAlarm
