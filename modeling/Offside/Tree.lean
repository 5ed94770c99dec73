import Offside.Token.Basic

/-!
# Programs as trees

Expressions, statements and programs of the script language. Blocks are lists of statements. An
`else if` is an `else` block whose only statement is the second `if`, so there is one way to write
each program down.

The binary operators fall into five tiers (`BinaryOp.tier`), from the loosest to the tightest:
`Tier.all` lists them in this order.
-/

namespace Offside

/-! ### Operators -/

/-- Groups of binary operators that bind alike. -/
inductive Tier where
  | disjunction
  | conjunction
  | comparison
  | sum
  | product
deriving DecidableEq

/-- The tiers, the loosest first. -/
def Tier.all : List Tier :=
  [.disjunction, .conjunction, .comparison, .sum, .product]

/-- Operators between two operands. -/
inductive BinaryOp where
  | or
  | and
  | eq
  | ne
  | lt
  | gt
  | le
  | ge
  | add
  | sub
  | mul
  | div
  | mod
deriving DecidableEq

namespace BinaryOp

/-- The tier of an operator. -/
def tier : BinaryOp → Tier
  | or => .disjunction
  | and => .conjunction
  | eq | ne | lt | gt | le | ge => .comparison
  | add | sub => .sum
  | mul | div | mod => .product

/-- The mark with which an operator is written. -/
def mark : BinaryOp → Mark
  | or => .orOr
  | and => .andAnd
  | eq => .equal
  | ne => .notEqual
  | lt => .less
  | gt => .greater
  | le => .lessEqual
  | ge => .greaterEqual
  | add => .plus
  | sub => .minus
  | mul => .star
  | div => .slash
  | mod => .percent

/-- The operator that a mark stands for between two operands. -/
def ofMark? : Mark → Option BinaryOp
  | .orOr => some or
  | .andAnd => some and
  | .equal => some eq
  | .notEqual => some ne
  | .less => some lt
  | .greater => some gt
  | .lessEqual => some le
  | .greaterEqual => some ge
  | .plus => some add
  | .minus => some sub
  | .star => some mul
  | .slash => some div
  | .percent => some mod
  | _ => none

theorem ofMark?_mark (op : BinaryOp) : ofMark? op.mark = some op := by
  cases op <;> rfl

theorem ofMark?_eq_some_iff {mark : Mark} {op : BinaryOp} :
    ofMark? mark = some op ↔ op.mark = mark := by
  refine ⟨fun h => ?_, fun h => h ▸ ofMark?_mark op⟩
  cases mark <;> simp only [ofMark?, Option.some.injEq, reduceCtorEq] at h <;> subst h <;> rfl

end BinaryOp

/-- Operators before one operand. -/
inductive UnaryOp where
  | neg
  | not
deriving DecidableEq

namespace UnaryOp

/-- The mark with which an operator is written. -/
def mark : UnaryOp → Mark
  | neg => .minus
  | not => .bang

/-- The operator that a mark stands for before an operand. -/
def ofMark? : Mark → Option UnaryOp
  | .minus => some neg
  | .bang => some not
  | _ => none

end UnaryOp

/-! ### Trees -/

/-- Expressions. A string keeps its escapes as they are written. -/
inductive Expr where
  | assign (target value : Expr)
  | binary (op : BinaryOp) (left right : Expr)
  | unary (op : UnaryOp) (operand : Expr)
  | call (callee : String) (arguments : List Expr)
  | ident (name : String)
  | number (value : Int)
  | string (raw : String)
  | boolean (value : Bool)
  | array (elements : List Expr)
  | index (object index : Expr)
  | property (object : Expr) (name : String)

/-- Can the expression stand on the left of `=`? -/
def Expr.isTarget : Expr → Bool
  | .ident _ => true
  | .index _ _ => true
  | _ => false

/-- The declaration of a variable, with its first value if it has one. -/
structure Declaration where
  kind : DeclKind
  name : String
  init : Option Expr

/-- Statements. -/
inductive Stmt where
  | declare (declaration : Declaration)
  | function (name : String) (params : List String) (body : List Stmt)
  | ifThen (condition : Expr) (yes : List Stmt)
  | ifElse (condition : Expr) (yes no : List Stmt)
  | whileLoop (condition : Expr) (body : List Stmt)
  | forLoop (init : Declaration) (condition update : Expr) (body : List Stmt)
  | giveBack (value : Option Expr)
  | breakLoop
  | continueLoop
  | expr (value : Expr)

/-- Is the statement an `if`? -/
def Stmt.isBranch : Stmt → Bool
  | .ifThen .. => true
  | .ifElse .. => true
  | _ => false

/-- A whole script. -/
structure Program where
  body : List Stmt

end Offside
