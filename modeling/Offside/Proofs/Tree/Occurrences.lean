import Offside.Tree

/-!
# Occurrences of constructs

`Program.occurrences` lists all expressions and statements of a script, from the first to the last
in the order in which they are laid out: a construct stands before its parts, the parts of an
expression are listed from left to right, and those of a `for` in the order first part, condition,
body, update.

With each construct comes the way to it: the list of the *slots* in which it stands, the innermost
first. What surrounds a construct is read off this list:

* `isLinePosition`: is it the expression of a whole line, or what is assigned there?
* `inForLoop`: is the innermost loop around it, within the same function, a `for`?
-/

namespace Offside

/-- A part of a construct in which another construct stands. -/
inductive Slot where
  /-- The expression of an expression statement. -/
  | statement
  /-- The first value of a variable. -/
  | initializer
  /-- The update of a `for`. -/
  | update
  /-- The condition of an `if` or of a loop. -/
  | condition
  /-- The value that a `return` gives back. -/
  | returned
  /-- A block of an `if`. -/
  | block
  | functionBody
  | whileBody
  | forBody
  /-- What is assigned to. -/
  | target
  /-- What is assigned. -/
  | assigned
  | operand
  | argument
  | element
  /-- What stands before a suffix. -/
  | object
  | index
deriving DecidableEq

/-- Does what stands here make up a whole line? An assignment on such a line may assign another
one. -/
def isLinePosition : List Slot → Bool
  | .statement :: _ => true
  | .initializer :: _ => true
  | .update :: _ => true
  | .assigned :: around => isLinePosition around
  | _ => false

/-- Is the innermost loop around, within the same function, a `for`? -/
def inForLoop : List Slot → Bool
  | [] => false
  | .forBody :: _ => true
  | .whileBody :: _ => false
  | .functionBody :: _ => false
  | _ :: around => inForLoop around

/-- An expression or a statement. -/
inductive Construct where
  | expr (e : Expr)
  | stmt (s : Stmt)

/-- A construct and the slots in which it stands, the innermost first. -/
structure Occurrence where
  slots : List Slot
  construct : Construct

mutual

/-- The occurrences in an expression that stands in the given slots. -/
def Expr.occurrences (slots : List Slot) (e : Expr) : List Occurrence :=
  ⟨slots, .expr e⟩ ::
    match e with
    | .assign target value =>
      target.occurrences (.target :: slots) ++ value.occurrences (.assigned :: slots)
    | .binary _ left right =>
      left.occurrences (.operand :: slots) ++ right.occurrences (.operand :: slots)
    | .unary _ operand => operand.occurrences (.operand :: slots)
    | .call _ arguments => exprsOccurrences (.argument :: slots) arguments
    | .ident _ => []
    | .number _ => []
    | .string _ => []
    | .boolean _ => []
    | .array elements => exprsOccurrences (.element :: slots) elements
    | .index object index =>
      object.occurrences (.object :: slots) ++ index.occurrences (.index :: slots)
    | .property object _ => object.occurrences (.object :: slots)

/-- The occurrences in several expressions. -/
def exprsOccurrences (slots : List Slot) : List Expr → List Occurrence
  | [] => []
  | e :: others => e.occurrences slots ++ exprsOccurrences slots others

end

/-- The occurrences in the first value of a variable. -/
def Declaration.occurrences (slots : List Slot) (d : Declaration) : List Occurrence :=
  (d.init.map (Expr.occurrences (.initializer :: slots))).getD []

mutual

/-- The occurrences in a statement that stands in the given slots. -/
def Stmt.occurrences (slots : List Slot) (s : Stmt) : List Occurrence :=
  ⟨slots, .stmt s⟩ ::
    match s with
    | .declare d => d.occurrences slots
    | .function _ _ body => stmtsOccurrences (.functionBody :: slots) body
    | .ifThen condition yes =>
      condition.occurrences (.condition :: slots) ++ stmtsOccurrences (.block :: slots) yes
    | .ifElse condition yes no =>
      condition.occurrences (.condition :: slots) ++
        (stmtsOccurrences (.block :: slots) yes ++ stmtsOccurrences (.block :: slots) no)
    | .whileLoop condition body =>
      condition.occurrences (.condition :: slots) ++ stmtsOccurrences (.whileBody :: slots) body
    | .forLoop init condition update body =>
      init.occurrences slots ++ (condition.occurrences (.condition :: slots) ++
        (stmtsOccurrences (.forBody :: slots) body ++ update.occurrences (.update :: slots)))
    | .giveBack value => (value.map (Expr.occurrences (.returned :: slots))).getD []
    | .breakLoop => []
    | .continueLoop => []
    | .expr value => value.occurrences (.statement :: slots)

/-- The occurrences in several statements. -/
def stmtsOccurrences (slots : List Slot) : List Stmt → List Occurrence
  | [] => []
  | s :: rest => s.occurrences slots ++ stmtsOccurrences slots rest

end

/-- The occurrences in a script. -/
def Program.occurrences (program : Program) : List Occurrence :=
  stmtsOccurrences [] program.body

end Offside
