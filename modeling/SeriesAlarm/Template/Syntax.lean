/-!
# Templates

The tokens of a template, its expressions and its statements.
-/

namespace SeriesAlarm
namespace Template

/-- Text between tags is one token; tags are split into words, literals and marks. -/
inductive Token
  | text (s : String)
  | exprStart | exprEnd | tagStart | tagEnd
  | ident (name : String)
  | string (s : String)
  | int (n : Int)
  | float (x : Float)
  | mark (m : String)
  deriving Inhabited

inductive BinaryOp
  | eq | ne | lt | le | gt | ge | isIn
  | add | sub | mul | div | floorDiv | rem | pow | concat
  | and | or
  deriving DecidableEq, Repr

inductive Expr
  | null
  | bool (b : Bool)
  | int (n : Int)
  | float (x : Float)
  | string (s : String)
  | var (name : String)
  | list (items : List Expr)
  | map (items : List (Expr × Expr))
  | attr (e : Expr) (name : String)
  | item (e index : Expr)
  | slice (e : Expr) (start stop step : Option Expr)
  | call (f : Expr) (args : List (String × Expr))
  | filter (name : String) (e : Option Expr) (args : List (String × Expr))
  | test (name : String) (e : Expr) (args : List (String × Expr))
  | not (e : Expr)
  | neg (e : Expr)
  | binary (op : BinaryOp) (a b : Expr)
  | choice (condition yes : Expr) (no : Option Expr)
  deriving Inhabited

/-- What a value is assigned to: a name, a field of a namespace, or a tuple of targets. -/
inductive Target
  | name (n : String)
  | field (e n : String)
  | tuple (ts : List Target)
  deriving Inhabited

inductive Stmt
  | text (s : String)
  | emit (e : Expr)
  | loop (target : Target) (items : Expr) (condition : Option Expr) (recursive : Bool)
      (body otherwise : List Stmt)
  | choice (condition : Expr) (yes no : List Stmt)
  | set (target : Target) (e : Expr)
  | setBlock (target : Target) (filter : Option Expr) (body : List Stmt)
  | scope (assigned : List (Target × Expr)) (body : List Stmt)
  | filtered (filter : Expr) (body : List Stmt)
  | block (body : List Stmt)
  | define (name : String) (params : List (String × Option Expr)) (body : List Stmt)
  | perform (e : Expr)
  | missing (name : Expr) (tolerated : Bool)
  deriving Inhabited

end Template
end SeriesAlarm
