import SeriesAlarm.Template.Lexer

/-!
# Reading templates

Recursive descent over the tokens. From weak to strong: a choice with `if`, `or`, `and`, `not`,
comparisons, sums, `~`, products, powers, a sign; fields, calls, filters and tests bind to what
stands before them.
-/

namespace SeriesAlarm
namespace Template

/-- A reader of tokens: a result and what is left, or a syntax error. -/
abbrev Reader (α : Type) := List Token → Option (α × List Token)

def Token.isMark (m : String) : Token → Bool
  | .mark n => n == m
  | _ => false

def Token.isWord (w : String) : Token → Bool
  | .ident n => n == w
  | _ => false

def takeMark? (m : String) : List Token → Option (List Token)
  | t :: ts => if t.isMark m then some ts else none
  | [] => none

def takeWord? (w : String) : List Token → Option (List Token)
  | t :: ts => if t.isWord w then some ts else none
  | [] => none

def takeIdent? : Reader String
  | .ident n :: ts => some (n, ts)
  | _ => none

def comparison? : List Token → Option (BinaryOp × Bool × List Token)
  | .mark "==" :: ts => some (.eq, false, ts)
  | .mark "!=" :: ts => some (.ne, false, ts)
  | .mark "<" :: ts => some (.lt, false, ts)
  | .mark "<=" :: ts => some (.le, false, ts)
  | .mark ">" :: ts => some (.gt, false, ts)
  | .mark ">=" :: ts => some (.ge, false, ts)
  | .ident "in" :: ts => some (.isIn, false, ts)
  | .ident "not" :: .ident "in" :: ts => some (.isIn, true, ts)
  | _ => none

def sumOp? : List Token → Option (BinaryOp × List Token)
  | .mark "+" :: ts => some (.add, ts)
  | .mark "-" :: ts => some (.sub, ts)
  | _ => none

def concatOp? : List Token → Option (BinaryOp × List Token)
  | .mark "~" :: ts => some (.concat, ts)
  | _ => none

def productOp? : List Token → Option (BinaryOp × List Token)
  | .mark "*" :: ts => some (.mul, ts)
  | .mark "/" :: ts => some (.div, ts)
  | .mark "//" :: ts => some (.floorDiv, ts)
  | .mark "%" :: ts => some (.rem, ts)
  | _ => none

def powerOp? : List Token → Option (BinaryOp × List Token)
  | .mark "**" :: ts => some (.pow, ts)
  | _ => none

/-- Operands joined by operators of one strength, from left to right. -/
def chainWith (operand : Reader Expr) (op? : List Token → Option (BinaryOp × List Token)) :
    Nat → Expr → Reader Expr
  | 0, _, _ => none
  | fuel + 1, left, ts =>
    match op? ts with
    | none => some (left, ts)
    | some (op, ts) =>
      match operand ts with
      | none => none
      | some (right, ts) => chainWith operand op? fuel (.binary op left right) ts

def chained (operand : Reader Expr) (op? : List Token → Option (BinaryOp × List Token)) :
    Reader Expr := fun ts =>
  match operand ts with
  | none => none
  | some (left, rest) => chainWith operand op? (rest.length + 1) left rest

def beginsTestArgument : List Token → Bool
  | .ident n :: _ => !(["and", "or", "else", "is"].contains n)
  | .string _ :: _ | .int _ :: _ | .float _ :: _ => true
  | .mark m :: _ => ["+", "-", "[", "\x7b"].contains m
  | _ => false

mutual

def readExpr : Nat → Reader Expr
  | 0, _ => none
  | fuel + 1, ts => do
    let (e, ts) ← readOr fuel ts
    readChoices fuel e ts

def readChoices : Nat → Expr → Reader Expr
  | 0, _, _ => none
  | fuel + 1, e, ts =>
    match takeWord? "if" ts with
    | none => some (e, ts)
    | some ts => do
      let (condition, ts) ← readOr fuel ts
      match takeWord? "else" ts with
      | some ts =>
        let (no, ts) ← readExpr fuel ts
        readChoices fuel (.choice condition e (some no)) ts
      | none => readChoices fuel (.choice condition e none) ts

def readOr : Nat → Reader Expr
  | 0, _ => none
  | fuel + 1, ts =>
    chained (readAnd fuel) (fun ts => (takeWord? "or" ts).map fun ts => (.or, ts)) ts

def readAnd : Nat → Reader Expr
  | 0, _ => none
  | fuel + 1, ts =>
    chained (readNot fuel) (fun ts => (takeWord? "and" ts).map fun ts => (.and, ts)) ts

def readNot : Nat → Reader Expr
  | 0, _ => none
  | fuel + 1, ts =>
    match takeWord? "not" ts with
    | some ts => (readNot fuel ts).map fun (e, ts) => (.not e, ts)
    | none => do
      let (e, ts) ← readSum fuel ts
      readComparisons fuel e ts

def readComparisons : Nat → Expr → Reader Expr
  | 0, _, _ => none
  | fuel + 1, left, ts =>
    match comparison? ts with
    | none => if (takeWord? "not" ts).isSome then none else some (left, ts)
    | some (op, negated, ts) => do
      let (right, ts) ← readSum fuel ts
      let e := Expr.binary op left right
      readComparisons fuel (if negated then .not e else e) ts

def readSum : Nat → Reader Expr
  | 0, _ => none
  | fuel + 1, ts => chained (readConcat fuel) sumOp? ts

def readConcat : Nat → Reader Expr
  | 0, _ => none
  | fuel + 1, ts => chained (readProduct fuel) concatOp? ts

def readProduct : Nat → Reader Expr
  | 0, _ => none
  | fuel + 1, ts => chained (readPower fuel) productOp? ts

def readPower : Nat → Reader Expr
  | 0, _ => none
  | fuel + 1, ts => chained (readUnary fuel) powerOp? ts

def readUnary : Nat → Reader Expr
  | 0, _ => none
  | fuel + 1, ts => do
    let (e, ts) ← readSigned fuel ts
    let (e, ts) ← readPostfix fuel e ts
    readFilters fuel e ts

def readSigned : Nat → Reader Expr
  | 0, _ => none
  | fuel + 1, ts =>
    match takeMark? "-" ts with
    | some ts => (readSigned fuel ts).map fun (e, ts) => (.neg e, ts)
    | none => readPrimary fuel ts

def readPrimary : Nat → Reader Expr
  | 0, _ => none
  | fuel + 1, ts =>
    match ts with
    | .ident n :: ts =>
      if n = "true" ∨ n = "True" then some (.bool true, ts)
      else if n = "false" ∨ n = "False" then some (.bool false, ts)
      else if n = "none" ∨ n = "None" then some (.null, ts)
      else some (.var n, ts)
    | .string s :: ts => some (.string s, ts)
    | .int n :: ts => some (.int n, ts)
    | .float x :: ts => some (.float x, ts)
    | .mark "(" :: ts =>
      match takeMark? ")" ts with
      | some ts => some (.list [], ts)
      | none => do
        let (e, ts) ← readExpr fuel ts
        match takeMark? "," ts with
        | some ts => (readItems fuel ")" [e] ts).map fun (es, ts) => (.list es, ts)
        | none => (takeMark? ")" ts).map fun ts => (e, ts)
    | .mark "[" :: ts => (readItems fuel "]" [] ts).map fun (es, ts) => (.list es, ts)
    | .mark "\x7b" :: ts => (readPairs fuel [] ts).map fun (es, ts) => (.map es, ts)
    | _ => none

def readItems : Nat → String → List Expr → Reader (List Expr)
  | 0, _, _, _ => none
  | fuel + 1, close, acc, ts =>
    match takeMark? close ts with
    | some ts => some (acc.reverse, ts)
    | none => do
      let (e, ts) ← readExpr fuel ts
      match takeMark? "," ts with
      | some ts => readItems fuel close (e :: acc) ts
      | none => (takeMark? close ts).map fun ts => ((e :: acc).reverse, ts)

def readPairs : Nat → List (Expr × Expr) → Reader (List (Expr × Expr))
  | 0, _, _ => none
  | fuel + 1, acc, ts =>
    match takeMark? "\x7d" ts with
    | some ts => some (acc.reverse, ts)
    | none => do
      let (k, ts) ← readExpr fuel ts
      let ts ← takeMark? ":" ts
      let (v, ts) ← readExpr fuel ts
      match takeMark? "," ts with
      | some ts => readPairs fuel ((k, v) :: acc) ts
      | none => (takeMark? "\x7d" ts).map fun ts => (((k, v) :: acc).reverse, ts)

def readPostfix : Nat → Expr → Reader Expr
  | 0, _, _ => none
  | fuel + 1, e, ts =>
    match ts with
    | .mark "." :: ts => do
      let (n, ts) ← takeIdent? ts
      readPostfix fuel (.attr e n) ts
    | .mark "[" :: ts => do
      let (e, ts) ← readIndex fuel e ts
      readPostfix fuel e ts
    | .mark "(" :: ts => do
      let (args, ts) ← readArgs fuel [] ts
      readPostfix fuel (.call e args) ts
    | ts => some (e, ts)

def readIndex : Nat → Expr → Reader Expr
  | 0, _, _ => none
  | fuel + 1, e, ts => do
    let (start, ts) ←
      if (takeMark? ":" ts).isSome then some (none, ts)
      else (readExpr fuel ts).map fun (i, ts) => (some i, ts)
    match takeMark? ":" ts, start with
    | none, some i => (takeMark? "]" ts).map fun ts => (.item e i, ts)
    | none, none => none
    | some ts, start =>
      let (stop, ts) ← readBound fuel ts
      let (step, ts) ←
        match takeMark? ":" ts with
        | some ts => readBound fuel ts
        | none => some (none, ts)
      (takeMark? "]" ts).map fun ts => (.slice e start stop step, ts)

def readBound : Nat → Reader (Option Expr)
  | 0, _ => none
  | fuel + 1, ts =>
    if (takeMark? ":" ts).isSome || (takeMark? "]" ts).isSome then some (none, ts)
    else (readExpr fuel ts).map fun (e, ts) => (some e, ts)

/-- Arguments after the opening parenthesis; a named one keeps its name, the others an empty one. -/
def readArgs : Nat → List (String × Expr) → Reader (List (String × Expr))
  | 0, _, _ => none
  | fuel + 1, acc, ts =>
    match takeMark? ")" ts with
    | some ts => some (acc.reverse, ts)
    | none => do
      let (arg, ts) ←
        match ts with
        | .ident n :: .mark "=" :: ts => (readExpr fuel ts).map fun (e, ts) => ((n, e), ts)
        | ts =>
          if acc.any fun a => a.1 ≠ "" then none
          else (readExpr fuel ts).map fun (e, ts) => (("", e), ts)
      match takeMark? "," ts with
      | some ts => readArgs fuel (arg :: acc) ts
      | none => (takeMark? ")" ts).map fun ts => ((arg :: acc).reverse, ts)

def readFilters : Nat → Expr → Reader Expr
  | 0, _, _ => none
  | fuel + 1, e, ts =>
    match ts with
    | .mark "|" :: ts => do
      let (name, ts) ← takeIdent? ts
      let (args, ts) ←
        match takeMark? "(" ts with
        | some ts => readArgs fuel [] ts
        | none => some ([], ts)
      readFilters fuel (.filter name (some e) args) ts
    | .ident "is" :: ts => do
      let (negated, ts) :=
        match takeWord? "not" ts with
        | some ts => (true, ts)
        | none => (false, ts)
      let (name, ts) ← takeIdent? ts
      let (args, ts) ←
        match takeMark? "(" ts with
        | some ts => readArgs fuel [] ts
        | none =>
          if beginsTestArgument ts then do
            let (a, ts) ← readSigned fuel ts
            let (a, ts) ← readPostfix fuel a ts
            some ([("", a)], ts)
          else some ([], ts)
      let test := Expr.test name e args
      readFilters fuel (if negated then .not test else test) ts
    | ts => some (e, ts)

end

def reservedNames : List String :=
  ["true", "True", "false", "False", "none", "None", "loop", "self"]

def readName : Reader String := fun ts => do
  let (n, ts) ← takeIdent? ts
  if reservedNames.contains n then none else some (n, ts)

mutual

/-- Targets separated by commas, as they stand after `for`. -/
def readTarget : Nat → Reader Target
  | 0, _ => none
  | fuel + 1, ts => do
    let (t, ts) ← readSingleTarget fuel ts
    match takeMark? "," ts with
    | some ts => (readMoreTargets fuel [t] ts).map fun (ts', ts) => (.tuple ts', ts)
    | none => some (t, ts)

def readMoreTargets : Nat → List Target → Reader (List Target)
  | 0, _, _ => none
  | fuel + 1, acc, ts =>
    match ts with
    | .ident "in" :: _ | .mark "=" :: _ | .mark ")" :: _ | .tagEnd :: _ => some (acc.reverse, ts)
    | ts => do
      let (t, ts) ← readSingleTarget fuel ts
      match takeMark? "," ts with
      | some ts => readMoreTargets fuel (t :: acc) ts
      | none => some ((t :: acc).reverse, ts)

def readSingleTarget : Nat → Reader Target
  | 0, _ => none
  | fuel + 1, ts =>
    match takeMark? "(" ts with
    | some ts => do
      let (t, ts) ← readTarget fuel ts
      let ts ← takeMark? ")" ts
      some (t, ts)
    | none => do
      let (n, ts) ← readName ts
      match ts with
      | .mark "." :: .ident f :: ts => some (.field n f, ts)
      | ts => some (.name n, ts)

end

/-- Filters of a block: names with arguments, joined by bars. -/
def readFilterChain (fuel : Nat) : Reader Expr := fun ts => do
  let (name, ts) ← takeIdent? ts
  let (args, ts) ←
    match takeMark? "(" ts with
    | some ts => readArgs fuel [] ts
    | none => some ([], ts)
  readFilters fuel (.filter name none args) ts

def readAssignments : Nat → Nat → List (Target × Expr) → Reader (List (Target × Expr))
  | _, 0, _, _ => none
  | depth, fuel + 1, acc, ts =>
    match ts with
    | .tagEnd :: _ => some (acc.reverse, ts)
    | ts => do
      let (t, ts) ← readSingleTarget depth ts
      let ts ← takeMark? "=" ts
      let (e, ts) ← readExpr depth ts
      match takeMark? "," ts with
      | some ts => readAssignments depth fuel ((t, e) :: acc) ts
      | none => some (((t, e) :: acc).reverse, ts)

def readParams : Nat → Nat → List (String × Option Expr) → Reader (List (String × Option Expr))
  | _, 0, _, _ => none
  | depth, fuel + 1, acc, ts =>
    match takeMark? ")" ts with
    | some ts => some (acc.reverse, ts)
    | none => do
      let (n, ts) ← readName ts
      let (value, ts) ←
        match takeMark? "=" ts with
        | some ts => (readExpr depth ts).map fun (e, ts) => (some e, ts)
        | none => if acc.any fun p => p.2.isSome then none else some (none, ts)
      match takeMark? "," ts with
      | some ts => readParams depth fuel ((n, value) :: acc) ts
      | none => (takeMark? ")" ts).map fun ts => (((n, value) :: acc).reverse, ts)

def takeTagEnd? : List Token → Option (List Token)
  | .tagEnd :: ts => some ts
  | _ => none

mutual

/-- Statements up to a tag that begins with one of the closing words, and that word; the end of the
template closes only where no word is asked for. -/
def readBody (depth : Nat) : Nat → List String → List Stmt → Reader (List Stmt × String)
  | 0, _, _, _ => none
  | fuel + 1, closers, acc, ts =>
    match ts with
    | [] => if closers.isEmpty then some ((acc.reverse, ""), []) else none
    | .text s :: ts => readBody depth fuel closers (.text s :: acc) ts
    | .exprStart :: ts => do
      let (e, ts) ← readExpr depth ts
      match ts with
      | .exprEnd :: ts => readBody depth fuel closers (.emit e :: acc) ts
      | _ => none
    | .tagStart :: .ident word :: ts =>
      if closers.contains word then some ((acc.reverse, word), ts)
      else do
        let (s, ts) ← readStmt depth fuel word ts
        let ts ← takeTagEnd? ts
        readBody depth fuel closers (s :: acc) ts
    | _ => none

/-- A body closed by one word and the end of its tag left to the caller. -/
def readBlock (depth : Nat) : Nat → String → Reader (List Stmt)
  | 0, _, _ => none
  | fuel + 1, closer, ts => do
    let ts ← takeTagEnd? ts
    let ((body, _), ts) ← readBody depth fuel [closer] [] ts
    some (body, ts)

def readIf (depth : Nat) : Nat → Reader Stmt
  | 0, _ => none
  | fuel + 1, ts => do
    let (condition, ts) ← readExpr depth ts
    let ts ← takeTagEnd? ts
    let ((yes, closer), ts) ← readBody depth fuel ["endif", "else", "elif"] [] ts
    if closer = "elif" then do
      let (more, ts) ← readIf depth fuel ts
      some (.choice condition yes [more], ts)
    else if closer = "else" then do
      let (no, ts) ← readBlock depth fuel "endif" ts
      some (.choice condition yes no, ts)
    else some (.choice condition yes [], ts)

def readFor (depth : Nat) : Nat → Reader Stmt
  | 0, _ => none
  | fuel + 1, ts => do
    let (target, ts) ← readTarget depth ts
    let ts ← takeWord? "in" ts
    let (items, ts) ← readOr depth ts
    let (condition, ts) ←
      match takeWord? "if" ts with
      | some ts => (readExpr depth ts).map fun (e, ts) => (some e, ts)
      | none => some (none, ts)
    let (recursive, ts) :=
      match takeWord? "recursive" ts with
      | some ts => (true, ts)
      | none => (false, ts)
    let ts ← takeTagEnd? ts
    let ((body, closer), ts) ← readBody depth fuel ["endfor", "else"] [] ts
    if closer = "else" then do
      let (otherwise, ts) ← readBlock depth fuel "endfor" ts
      some (.loop target items condition recursive body otherwise, ts)
    else some (.loop target items condition recursive body [], ts)

/-- The rest of a `set` after its word: a value, or a block whose text is the value. -/
def readSet (depth : Nat) : Nat → Reader Stmt
  | 0, _ => none
  | fuel + 1, ts => do
    let (target, ts) ← readTarget depth ts
    match takeMark? "=" ts with
    | some ts => do
      let (e, ts) ← readExpr depth ts
      match takeMark? "," ts with
      | some ts => do
        let (es, ts) ← readTupleTail depth depth [e] ts
        some (.set target (.list es), ts)
      | none => some (.set target e, ts)
    | none => do
      let (filter, ts) ←
        match takeMark? "|" ts with
        | some ts => (readFilterChain depth ts).map fun (e, ts) => (some e, ts)
        | none => some (none, ts)
      let (body, ts) ← readBlock depth fuel "endset" ts
      some (.setBlock target filter body, ts)

/-- More items of a tuple without parentheses. -/
def readTupleTail (depth : Nat) : Nat → List Expr → Reader (List Expr)
  | 0, _, _ => none
  | fuel + 1, acc, ts =>
    match ts with
    | .tagEnd :: _ => some (acc.reverse, ts)
    | ts => do
      let (e, ts) ← readExpr depth ts
      match takeMark? "," ts with
      | some ts => readTupleTail depth fuel (e :: acc) ts
      | none => some ((e :: acc).reverse, ts)

def readStmt (depth : Nat) : Nat → String → Reader Stmt
  | 0, _, _ => none
  | fuel + 1, word, ts =>
    match word with
    | "for" => readFor depth fuel ts
    | "if" => readIf depth fuel ts
    | "set" => readSet depth fuel ts
    | "with" => do
      let (assigned, ts) ← readAssignments depth depth [] ts
      let (body, ts) ← readBlock depth fuel "endwith" ts
      some (.scope assigned body, ts)
    | "autoescape" => do
      let (_, ts) ← readExpr depth ts
      let (body, ts) ← readBlock depth fuel "endautoescape" ts
      some (.scope [] body, ts)
    | "filter" => do
      let (filter, ts) ← readFilterChain depth ts
      let (body, ts) ← readBlock depth fuel "endfilter" ts
      some (.filtered filter body, ts)
    | "block" => do
      let (name, ts) ← takeIdent? ts
      let (body, ts) ← readBlock depth fuel "endblock" ts
      let ts := match takeWord? name ts with
        | some ts => ts
        | none => ts
      some (.block body, ts)
    | "macro" => do
      let (name, ts) ← readName ts
      let ts ← takeMark? "(" ts
      let (params, ts) ← readParams depth depth [] ts
      let (body, ts) ← readBlock depth fuel "endmacro" ts
      some (.define name params body, ts)
    | "do" => do
      let (e, ts) ← readExpr depth ts
      match e with
      | .call .. => some (.perform e, ts)
      | _ => none
    | "include" => do
      let (e, ts) ← readExpr depth ts
      match ts with
      | .ident "ignore" :: .ident "missing" :: ts => some (.missing e true, ts)
      | ts => some (.missing e false, ts)
    | "extends" => (readExpr depth ts).map fun (e, ts) => (.missing e false, ts)
    | "import" => do
      let (e, ts) ← readExpr depth ts
      let ts ← takeWord? "as" ts
      let (_, ts) ← readName ts
      some (.missing e false, ts)
    | _ => none

end

def parse (source : String) : Option (List Stmt) := do
  let ts ← lex source
  let depth := 24 * (ts.length + 1)
  let ((body, _), _) ← readBody depth depth [] [] ts
  return body

end Template
end SeriesAlarm
