import Mathlib.Tactic.SplitIfs
import SeriesAlarm.Template.Eval

/-!
# What statements write

Statements that assign nothing write one text after what is there already and leave the variables as they
are. The text of a loop is that of its body for one item after the other, each in a frame of the loop's own.
-/

namespace SeriesAlarm
namespace Template

namespace Value

variable {a b n : String} {v : Value} {ms : List (Value × Value)}

theorem equals_str (a b : String) : equals (str a) (str b) = (a == b) := by
  rw [str, str, equals]
  · rfl
  all_goals simp

theorem compareWith_str (a b : String) : compareWith (str a) (str b) = compareText a b := by
  rw [str, str, compareWith]
  · rfl
  all_goals simp

theorem compareText_eq_eq_iff : compareText a b = .eq ↔ a = b := by
  rw [compareText]
  split_ifs with hlt heq
  · simp only [false_iff]
    rintro rfl
    exact absurd hlt (String.lt_irrefl a)
  · simp [heq]
  · simp [heq]

def Named (ms : List (Value × Value)) : Prop := ∀ m ∈ ms, ∃ name, m.1 = str name

theorem lookupMember_cons (n : String) (k : String) (v : Value) (ms : List (Value × Value)) :
    lookupMember (str n) ((str k, v) :: ms) = if k = n then some v else lookupMember (str n) ms := by
  rw [lookupMember, List.find?_cons, equals_str]
  by_cases h : k = n
  · simp [h]
  · rw [if_neg h, beq_false_of_ne h, lookupMember]

theorem named_insertMember (h : Named ms) (k : String) (v : Value) : Named (insertMember (str k) v ms) := by
  induction ms with
  | nil => exact List.forall_mem_singleton.mpr ⟨k, rfl⟩
  | cons m ms ih =>
    obtain ⟨hm, hms⟩ := List.forall_mem_cons.mp h
    rw [insertMember]
    split
    · exact List.forall_mem_cons.mpr ⟨⟨k, rfl⟩, h⟩
    · exact List.forall_mem_cons.mpr ⟨⟨k, rfl⟩, hms⟩
    · exact List.forall_mem_cons.mpr ⟨hm, ih hms⟩

theorem lookupMember_insertMember (h : Named ms) (n k : String) (v : Value) :
    lookupMember (str n) (insertMember (str k) v ms) =
      if k = n then some v else lookupMember (str n) ms := by
  induction ms with
  | nil => exact lookupMember_cons n k v []
  | cons m ms ih =>
    obtain ⟨⟨a, ha⟩, hms⟩ := List.forall_mem_cons.mp h
    obtain ⟨key, w⟩ := m
    subst ha
    rw [insertMember]
    split
    case h_1 => exact lookupMember_cons n k v _
    case h_2 hcompare =>
      dsimp only at hcompare
      rw [compareWith_str, compareText_eq_eq_iff] at hcompare
      subst hcompare
      simp only [lookupMember_cons]
      split_ifs <;> rfl
    case h_3 hcompare =>
      have hne : k ≠ a := by
        rintro rfl
        dsimp only at hcompare
        rw [compareWith_str, compareText_eq_eq_iff.mpr rfl] at hcompare
        cases hcompare
      simp only [lookupMember_cons, ih hms]
      split_ifs with ha hk
      · exact absurd (hk.trans ha.symm) hne
      all_goals rfl

theorem lookupMember_foldl (n : String) (fields : List (String × Value)) (h : Named ms) :
    lookupMember (str n)
        ((fields.map fun f => (str f.1, f.2)).foldl (fun acc m => insertMember m.1 m.2 acc) ms) =
      (lookupName n fields.reverse).or (lookupMember (str n) ms) := by
  induction fields generalizing ms with
  | nil => rfl
  | cons f fields ih =>
    rw [List.map_cons, List.foldl_cons, ih (named_insertMember h f.1 f.2),
      lookupMember_insertMember h, List.reverse_cons, lookupName, lookupName, List.find?_append]
    by_cases hf : f.1 = n <;>
      cases List.find? (fun g => g.1 == n) fields.reverse <;> simp [hf]

theorem field?_record (n : String) (fields : List (String × Value)) :
    (record fields).field? n = lookupName n fields.reverse := by
  have hempty : Named [] := by simp [Named]
  rw [record, mapOf, field?, lookupMember_foldl n fields hempty]
  exact Option.or_none

theorem attr_record {fields : List (String × Value)} (h : lookupName n fields.reverse = some v) :
    (record fields).attr n = some v := by
  rw [← field?_record] at h
  exact congrArg (fun o : Option Value => some (o.getD .undefined)) h

end Value

namespace Run

variable {name : String} {v : Value} {f : Frame} {fs : List Frame}

theorem lookupName_setName_self (name : String) (v : Value) (f : Frame) :
    Value.lookupName name (setName name v f) = some v := by
  induction f with
  | nil => simp [setName, Value.lookupName]
  | cons m f ih =>
    rw [setName]
    split_ifs with hm
    · simp [Value.lookupName]
    · rw [Value.lookupName, List.find?_cons, Bool.eq_false_iff.mpr hm]
      exact ih

theorem lookupIn_cons (h : Value.lookupName name f = some v) : lookupIn name (f :: fs) = some v := by
  rw [lookupIn, h]
  rfl

end Run

variable {call : Caller} {frames : List Frame} {e : Expr} {v w : Value} {n s t : String} {ss : List Stmt}

/-- The expression has a value whatever is in the output. -/
def Evaluates (call : Caller) (frames : List Frame) (e : Expr) (v : Value) : Prop :=
  ∀ output, evalExpr call { frames, output } e = some v

theorem evaluates_var (h : Run.lookupIn n frames = some v) : Evaluates call frames (.var n) v := by
  intro output
  rw [evalExpr, Run.lookup, h]
  rfl

theorem Evaluates.attr (h : Evaluates call frames e w) (hw : w.attr n = some v) :
    Evaluates call frames (.attr e n) v := by
  intro output
  rw [evalExpr, h output]
  exact hw

/-- The statements write a text and leave the variables as they are. -/
def Writes (call : Caller) (frames : List Frame) (ss : List Stmt) (s : String) : Prop :=
  ∀ output, runStmts call { frames, output } ss = some { frames, output := output ++ s }

theorem writes_nil : Writes call frames [] "" := by
  intro output
  rw [runStmts, String.append_empty]

theorem Writes.text (h : Writes call frames ss t) (s : String) :
    Writes call frames (.text s :: ss) (s ++ t) := by
  intro output
  rw [runStmts, runStmt, ← String.append_assoc]
  exact h (output ++ s)

theorem Writes.emit (h : Writes call frames ss t) (he : Evaluates call frames e v) :
    Writes call frames (.emit e :: ss) (v.text ++ t) := by
  intro output
  rw [runStmts, runStmt, he output, ← String.append_assoc]
  exact h (output ++ v.text)

/-- Steps that each write a text of their item, in a frame that they may change, write one text after the
other. -/
theorem eachItem_writes {α : Type} (step : Run → Nat → Value → Value → Value → Option Run)
    {value : α → Value} {g : α → String} {xs : List α}
    (hstep : ∀ x ∈ xs, ∀ f output i previous next, ∃ f',
      step { frames := f :: frames, output } i previous (value x) next =
        some { frames := f' :: frames, output := output ++ g x }) :
    ∀ f output i previous, ∃ f',
      eachItem step i previous (xs.map value) { frames := f :: frames, output } =
        some { frames := f' :: frames, output := output ++ String.join (xs.map g) } := by
  induction xs with
  | nil =>
    intro f output i previous
    exact ⟨f, by simp [eachItem]⟩
  | cons x xs ih =>
    intro f output i previous
    obtain ⟨f₁, hfirst⟩ :=
      hstep x List.mem_cons_self f output i previous ((xs.map value).head?.getD .undefined)
    obtain ⟨f₂, hrest⟩ :=
      ih (fun y hy => hstep y (List.mem_cons_of_mem x hy)) f₁ (output ++ g x) (i + 1) (value x)
    refine ⟨f₂, ?_⟩
    rw [List.map_cons, eachItem, hfirst]
    simp only [hrest, List.map_cons, String.join_cons, String.append_assoc]

theorem keptItems_all (r : Run) (target : Target) (vs : List Value) :
    keptItems call r target none vs = some vs := by
  cases vs <;> rfl

def round (call : Caller) (n : String) (count depth : Nat) (body : List Stmt) (r : Run) (i : Nat)
    (previous v next : Value) : Option Run := do
  let r ← (r.assign "loop" (.loop (loopFields count i depth previous next))).bindTarget v (.name n)
  runStmts call r body

theorem round_writes {body : List Stmt} {output : String} {count depth i : Nat} {previous next : Value}
    (h : ∀ f : Frame, Value.lookupName n f = some v → Writes call (f :: frames) body s) (f : Frame) :
    ∃ f', round call n count depth body { frames := f :: frames, output } i previous v next =
      some { frames := f' :: frames, output := output ++ s } :=
  ⟨_, h _ (Run.lookupName_setName_self n v _) output⟩

theorem Writes.loop {α : Type} {items : Expr} {recursive : Bool} {body : List Stmt} {value : α → Value}
    {g : α → String} {xs : List α} (h : Writes call frames ss t)
    (hitems : Evaluates call frames items (.list (xs.map value)))
    (hbody : ∀ x ∈ xs, ∀ f : Frame, Value.lookupName n f = some (value x) →
      Writes call (f :: frames) body (g x)) :
    Writes call frames (.loop (.name n) items none recursive body [] :: ss)
      (String.join (xs.map g) ++ t) := by
  intro output
  have hloop : runStmt call { frames, output } (.loop (.name n) items none recursive body []) =
      some { frames, output := output ++ String.join (xs.map g) } := by
    simp only [runStmt, hitems output, Value.items?, keptItems_all, Option.bind_eq_bind, Option.bind_some]
    split_ifs with hxs
    · rw [List.map_eq_nil_iff.mp (List.isEmpty_iff.mp hxs), runStmts]
      simp
    · let depth := (frames.filter fun f => (Value.lookupName "loop" f).isSome).length
      obtain ⟨f, hrun⟩ := eachItem_writes (round call n (xs.map value).length depth body)
        (fun x hx f output i previous next => round_writes (hbody x hx) f) [] output 0 .undefined
      exact congrArg (fun o : Option Run => o.bind fun r => some r.pop) hrun
  rw [runStmts, hloop, ← String.append_assoc]
  exact h (output ++ String.join (xs.map g))

/-- A template whose statements write a text is rendered as that text. -/
theorem render_of_writes {source : String} {context : Frame} (hparse : parse source = some ss)
    (h : Writes (callTo callLimit) [[], context] ss s) : render source context = some s := by
  rw [render, hparse]
  have hrun := h ""
  rw [String.empty_append] at hrun
  exact congrArg (Option.map Run.output) hrun

end Template
end SeriesAlarm
