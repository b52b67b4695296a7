import SeriesAlarm.Template.Filter
import SeriesAlarm.Template.Parser

/-!
# Rendering templates

Statements are run in order against frames of variables, the innermost first, and write to the
output. A macro's body is run by a caller that is passed in, so the depth of calls is bounded while
everything else follows the structure of the template.
-/

namespace SeriesAlarm
namespace Template

abbrev Frame := List (String × Value)

/-- Frames from the innermost to the outermost, and the output so far. -/
structure Run where
  frames : List Frame
  output : String := ""

namespace Run

def lookupIn (name : String) : List Frame → Option Value
  | [] => none
  | f :: fs => (Value.lookupName name f).orElse fun _ => lookupIn name fs

def lookup (r : Run) (name : String) : Value := (lookupIn name r.frames).getD .undefined

def setName (name : String) (v : Value) : Frame → Frame
  | [] => [(name, v)]
  | f :: fs => if f.1 == name then (name, v) :: fs else f :: setName name v fs

def assign (r : Run) (name : String) (v : Value) : Run :=
  match r.frames with
  | [] => { r with frames := [[(name, v)]] }
  | f :: fs => { r with frames := setName name v f :: fs }

def replaceIn (name : String) (v : Value) : List Frame → List Frame
  | [] => []
  | f :: fs =>
    if (Value.lookupName name f).isSome then setName name v f :: fs else f :: replaceIn name v fs

def write (r : Run) (s : String) : Run := { r with output := r.output ++ s }

def push (r : Run) (f : Frame) : Run := { r with frames := f :: r.frames }

def pop (r : Run) : Run := { r with frames := r.frames.drop 1 }

def visible (r : Run) : Frame :=
  r.frames.foldr (fun f acc => f.foldr (fun b acc => setName b.1 b.2 acc) acc) []

mutual

def bindTarget (r : Run) (v : Value) : Target → Option Run
  | .name n => some (r.assign n v)
  | .field e n =>
    match r.lookup e with
    | .space fields => some { r with frames := replaceIn e (.space (setName n v fields)) r.frames }
    | _ => none
  | .tuple ts =>
    match v.items? with
    | some vs => bindTargets r vs ts
    | none => none

def bindTargets (r : Run) (vs : List Value) : List Target → Option Run
  | [] => if vs = [] then some r else none
  | t :: ts =>
    match vs with
    | [] => none
    | v :: vs =>
      match bindTarget r v t with
      | some r => bindTargets r vs ts
      | none => none

end

end Run

/-- Runs the body of a macro with its arguments bound. -/
abbrev Caller := Frame → List Stmt → Option String

def binaryOp (op : BinaryOp) (a b : Value) : Option Value :=
  match op with
  | .eq => some (.bool (Value.equals a b))
  | .ne => some (.bool !(Value.equals a b))
  | .lt => some (.bool (Value.compareWith a b == .lt))
  | .le => some (.bool (Value.compareWith a b != .gt))
  | .gt => some (.bool (Value.compareWith a b == .gt))
  | .ge => some (.bool (Value.compareWith a b != .lt))
  | .isIn => (Value.contains b a).map .bool
  | .add => Value.add a b
  | .sub => Value.sub a b
  | .mul => Value.mul a b
  | .div => Value.div a b
  | .floorDiv => Value.floorDiv a b
  | .rem => Value.rem a b
  | .pow => Value.pow a b
  | .concat => some (.str (a.text ++ b.text))
  | .and => some (if a.isTrue then b else a)
  | .or => some (if a.isTrue then a else b)

def countFrom (low high step : Int) : Nat → List Value
  | 0 => []
  | fuel + 1 =>
    if (0 < step ∧ low < high) ∨ (step < 0 ∧ high < low) then
      .int low :: countFrom (low + step) high step fuel
    else []

def rangeValue (args : List Value) : Option Value := do
  let ns ← args.mapM Value.asInt?
  let (low, high, step) ← match ns with
    | [n] => some (0, n, 1)
    | [a, b] => some (a, b, 1)
    | [a, b, s] => some (a, b, s)
    | _ => none
  if step = 0 ∨ 100000 < (high - low).natAbs / step.natAbs then none
  else return .list (countFrom low high step ((high - low).natAbs + 1))

def namedFields (named : List (String × Value)) : Frame :=
  named.foldl (fun acc m => Run.setName m.1 m.2 acc) []

def builtinCall (name : String) (a : Args) : Option Value :=
  match name with
  | "range" => rangeValue a.positional
  | "dict" => some (Value.record a.named)
  | "namespace" => some (.space (namedFields a.named))
  | _ => none

def sliceIndices (n : Nat) (start stop : Option Int) : Nat × Nat :=
  let place (i : Int) : Nat := if i < 0 then ((n : Int) + i).toNat else min n i.toNat
  (place (start.getD 0), (stop.map place).getD n)

def everyNth {α : Type} (step : Nat) : Nat → List α → List α
  | _, [] => []
  | 0, x :: xs => x :: everyNth step (step - 1) xs
  | k + 1, _ :: xs => everyNth step k xs

def sliceValue (v : Value) (start stop step : Option Value) : Option Value := do
  let bound (o : Option Value) : Option (Option Int) :=
    match o.bind Args.given? with
    | none => some none
    | some x => x.asInt?.map some
  let start ← bound start
  let stop ← bound stop
  let step := (← bound step).getD 1
  if step ≤ 0 then none
  let cut {α : Type} (xs : List α) : List α :=
    let (a, b) := sliceIndices xs.length start stop
    everyNth step.toNat 0 ((xs.take b).drop a)
  match v with
  | .string s _ => return .str (String.ofList (cut s.toList))
  | .undefined | .null => return .list []
  | v => return .list (cut (← v.items?))

def bindParams (evalDefault : Expr → Option Value) (a : Args) :
    Nat → List (String × Option Expr) → Frame → Option Frame
  | _, [], acc => some acc
  | i, (name, d) :: ps, acc => do
    let v ← match a.positional[i]? with
      | some v => if (Value.lookupName name a.named).isSome then none else some v
      | none =>
        match Value.lookupName name a.named with
        | some v => some v
        | none => (d.map evalDefault).getD (some .undefined)
    bindParams evalDefault a (i + 1) ps ((name, v) :: acc)

mutual

def evalExpr (call : Caller) (r : Run) : Expr → Option Value
  | .null => some .null
  | .bool b => some (.bool b)
  | .int n => some (.int n)
  | .float x => some (.float x)
  | .string s => some (.str s)
  | .var n => some (r.lookup n)
  | .list es => (evalList call r es).map .list
  | .map ms => (evalPairs call r ms).map Value.mapOf
  | .attr e n => (evalExpr call r e).bind fun v => v.attr n
  | .item e i => do
    let v ← evalExpr call r e
    let k ← evalExpr call r i
    v.item k
  | .slice e start stop step => do
    let v ← evalExpr call r e
    let start ← evalOption call r start
    let stop ← evalOption call r stop
    let step ← evalOption call r step
    sliceValue v start stop step
  | .not e => (evalExpr call r e).map fun v => .bool !v.isTrue
  | .neg e => (evalExpr call r e).bind Value.neg
  | .binary .and a b => do
    let v ← evalExpr call r a
    if v.isTrue then evalExpr call r b else some v
  | .binary .or a b => do
    let v ← evalExpr call r a
    if v.isTrue then some v else evalExpr call r b
  | .binary op a b => do
    let v ← evalExpr call r a
    let w ← evalExpr call r b
    binaryOp op v w
  | .choice condition yes no => do
    let c ← evalExpr call r condition
    if c.isTrue then evalExpr call r yes
    else (evalOption call r no).map fun o => o.getD .undefined
  | .filter name e args => do
    let v ← evalOption call r e
    let a ← evalArgs call r args
    applyFilter name (v.getD .undefined) a
  | .test name e args => do
    let v ← evalExpr call r e
    let a ← evalArgs call r args
    if a.named.isEmpty then (applyTest name v a.positional).map .bool else none
  | .call (.var n) args => do
    let a ← evalArgs call r args
    match Run.lookupIn n r.frames with
    | none => builtinCall n a
    | some (.macro_ params body closure) =>
      if params.length < a.positional.length ∨
          a.named.any fun m => !(params.any fun p => p.1 == m.1) then none
      else
        let constant (e : Expr) : Option Value :=
          match e with
          | .null => some .null
          | .bool b => some (.bool b)
          | .int n => some (.int n)
          | .float x => some (.float x)
          | .string s => some (.str s)
          | .var n => some ((Value.lookupName n closure).getD .undefined)
          | _ => none
        match bindParams constant a 0 params [] with
        | none => none
        | some f => (call (f ++ closure) body).map .str
    | some _ => none
  | .call (.attr e n) args => do
    let v ← evalExpr call r e
    let a ← evalArgs call r args
    match v, n with
    | .loop fields, "cycle" =>
      let i := ((Value.lookupName "index0" fields).bind Value.asInt?).getD 0
      if a.positional = [] then none
      else some ((Value.nth? a.positional (i % a.positional.length)).getD .undefined)
    | _, _ => none
  | .call _ _ => none

def evalOption (call : Caller) (r : Run) : Option Expr → Option (Option Value)
  | none => some none
  | some e => (evalExpr call r e).map some

def evalList (call : Caller) (r : Run) : List Expr → Option (List Value)
  | [] => some []
  | e :: es => do
    let v ← evalExpr call r e
    let vs ← evalList call r es
    return v :: vs

def evalPairs (call : Caller) (r : Run) : List (Expr × Expr) → Option (List (Value × Value))
  | [] => some []
  | (k, e) :: ms => do
    let k ← evalExpr call r k
    let v ← evalExpr call r e
    let vs ← evalPairs call r ms
    return (k, v) :: vs

def evalArgs (call : Caller) (r : Run) : List (String × Expr) → Option Args
  | [] => some {}
  | (n, e) :: es => do
    let v ← evalExpr call r e
    let a ← evalArgs call r es
    return if n = "" then { a with positional := v :: a.positional }
      else { a with named := (n, v) :: a.named }

end

def loopFields (n i depth : Nat) (previous next : Value) : Frame :=
  [("index", .int (i + 1)), ("index0", .int i), ("revindex", .int (n - i : Nat)),
    ("revindex0", .int (n - i - 1 : Nat)), ("first", .bool (i == 0)),
    ("last", .bool (i + 1 == n)), ("length", .int n), ("depth", .int (depth + 1)),
    ("depth0", .int depth), ("previtem", previous), ("nextitem", next)]

/-- Runs a step for each item with its place, the item before it and the items after it. -/
def eachItem (step : Run → Nat → Value → Value → Value → Option Run) :
    Nat → Value → List Value → Run → Option Run
  | _, _, [], r => some r
  | i, previous, v :: vs, r =>
    match step r i previous v (vs.head?.getD .undefined) with
    | some r => eachItem step (i + 1) v vs r
    | none => none

/-- The items for which the condition holds, the target bound in a frame of its own. -/
def keptItems (call : Caller) (r : Run) (target : Target) (condition : Option Expr) :
    List Value → Option (List Value)
  | [] => some []
  | v :: vs =>
    match condition with
    | none => some (v :: vs)
    | some e => do
      let inner ← (r.push []).bindTarget v target
      let c ← evalExpr call inner e
      let rest ← keptItems call r target condition vs
      return if c.isTrue then v :: rest else rest

def filterText (call : Caller) (r : Run) (text : String) : Expr → Option Value
  | .filter name (some inner) args => do
    let v ← filterText call r text inner
    let a ← evalArgs call r args
    applyFilter name v a
  | .filter name none args => do
    let a ← evalArgs call r args
    applyFilter name (.str text) a
  | e => evalExpr call r e

def bindAll (call : Caller) : List (Target × Expr) → Run → Option Run
  | [], r => some r
  | (t, e) :: rest, r => do
    let v ← evalExpr call r e
    let r ← r.bindTarget v t
    bindAll call rest r

mutual

def runStmt (call : Caller) (r : Run) : Stmt → Option Run
  | .text s => some (r.write s)
  | .emit e => (evalExpr call r e).map fun v => r.write v.text
  | .choice condition yes no => do
    let c ← evalExpr call r condition
    if c.isTrue then runStmts call r yes else runStmts call r no
  | .loop target items condition _ body otherwise => do
    let v ← evalExpr call r items
    let all ← v.items?
    let kept ← keptItems call r target condition all
    if kept.isEmpty then runStmts call r otherwise
    else do
      let depth := (r.frames.filter fun f => (Value.lookupName "loop" f).isSome).length
      let step (r : Run) (i : Nat) (previous v next : Value) : Option Run := do
        let r ← (r.assign "loop" (.loop (loopFields kept.length i depth previous next))).bindTarget v target
        runStmts call r body
      let r ← eachItem step 0 .undefined kept (r.push [])
      return r.pop
  | .set target e => do
    let v ← evalExpr call r e
    r.bindTarget v target
  | .setBlock target filter body => do
    let inner ← runStmts call { r with output := "" } body
    let v ← match filter with
      | some f => filterText call inner inner.output f
      | none => some (.str inner.output)
    Run.bindTarget { inner with output := r.output } v target
  | .scope assigned body => do
    let r ← bindAll call assigned (r.push [])
    let r ← runStmts call r body
    return r.pop
  | .filtered filter body => do
    let inner ← runStmts call { r with output := "" } body
    let v ← filterText call inner inner.output filter
    return { inner with output := r.output ++ v.text }
  | .block body => do
    let r ← runStmts call (r.push []) body
    return r.pop
  | .define name params body => some (r.assign name (.macro_ params body r.visible))
  | .perform e => (evalExpr call r e).map fun _ => r
  | .missing e tolerated => do
    let _ ← evalExpr call r e
    if tolerated then some r else none

def runStmts (call : Caller) (r : Run) : List Stmt → Option Run
  | [] => some r
  | s :: ss => do
    let r ← runStmt call r s
    runStmts call r ss

end

/-- Runs macro bodies up to a depth of calls. -/
def callTo : Nat → Caller
  | 0 => fun _ _ => none
  | depth + 1 => fun frame body => (runStmts (callTo depth) { frames := [[], frame] } body).map (·.output)

def callLimit : Nat := 100

def renderStmts (body : List Stmt) (context : Frame) : Option String :=
  (runStmts (callTo callLimit) { frames := [[], context] } body).map (·.output)

/-- The text of a template under the given variables; nothing if it has a syntax error or fails. -/
def render (source : String) (context : Frame) : Option String := do
  let body ← parse source
  renderStmts body context

def isValid (source : String) : Bool := (parse source).isSome

end Template
end SeriesAlarm
