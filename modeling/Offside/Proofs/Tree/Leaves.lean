import Offside.Tree

/-!
# The leaves of a tree

`Program.leaves` lists what a script takes over from its tokens as it is: names, callees, numbers
and strings, each as the token with which it is written, so that one condition on tokens covers them
all. The name of a property is not among them, since no property but one is ever written.
-/

namespace Offside

/-- The token with which a callee is written. -/
def calleeKind (name : String) : Token.Kind :=
  if name = "console.log" then .consoleLog else .identifier name

mutual

/-- The names, callees, numbers and strings of an expression, as tokens. -/
def Expr.leaves : Expr → List Token.Kind
  | .assign target value => target.leaves ++ value.leaves
  | .binary _ left right => left.leaves ++ right.leaves
  | .unary _ operand => operand.leaves
  | .call callee arguments => calleeKind callee :: exprsLeaves arguments
  | .ident name => [.identifier name]
  | .number value => [.number value]
  | .string raw => [.string raw]
  | .boolean _ => []
  | .array elements => exprsLeaves elements
  | .index object index => object.leaves ++ index.leaves
  | .property object _ => object.leaves

/-- The leaves of several expressions. -/
def exprsLeaves : List Expr → List Token.Kind
  | [] => []
  | e :: others => e.leaves ++ exprsLeaves others

end

/-- The leaves of a declaration: the name, and those of the first value. -/
def Declaration.leaves (d : Declaration) : List Token.Kind :=
  .identifier d.name :: (d.init.map Expr.leaves).getD []

mutual

/-- The leaves of a statement. -/
def Stmt.leaves : Stmt → List Token.Kind
  | .declare d => d.leaves
  | .function name params body =>
    .identifier name :: (params.map .identifier ++ stmtsLeaves body)
  | .ifThen condition yes => condition.leaves ++ stmtsLeaves yes
  | .ifElse condition yes no => condition.leaves ++ (stmtsLeaves yes ++ stmtsLeaves no)
  | .whileLoop condition body => condition.leaves ++ stmtsLeaves body
  | .forLoop init condition update body =>
    init.leaves ++ (condition.leaves ++ (update.leaves ++ stmtsLeaves body))
  | .giveBack value => (value.map Expr.leaves).getD []
  | .breakLoop => []
  | .continueLoop => []
  | .expr value => value.leaves

/-- The leaves of several statements. -/
def stmtsLeaves : List Stmt → List Token.Kind
  | [] => []
  | s :: rest => s.leaves ++ stmtsLeaves rest

end

/-- The leaves of a script. -/
def Program.leaves (program : Program) : List Token.Kind :=
  stmtsLeaves program.body

theorem mem_exprsLeaves {kind : Token.Kind} {es : List Expr} :
    kind ∈ exprsLeaves es ↔ ∃ e ∈ es, kind ∈ e.leaves := by
  induction es with
  | nil => simp [exprsLeaves]
  | cons e others ih => simp [exprsLeaves, ih]

theorem mem_stmtsLeaves {kind : Token.Kind} {body : List Stmt} :
    kind ∈ stmtsLeaves body ↔ ∃ s ∈ body, kind ∈ s.leaves := by
  induction body with
  | nil => simp [stmtsLeaves]
  | cons s rest ih => simp [stmtsLeaves, ih]

end Offside
