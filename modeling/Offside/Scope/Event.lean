import Offside.Tree

/-!
# What a script does with names

A program is read as a list of *events*, in the order in which a reader meets them: declarations,
values given, uses, calls and jumps. Everything that can be wrong with names can be told from this
list.

The order is that of the text with these rules: a variable is declared before its first value is
looked at and has a value after it; the left side of an assignment comes before the right side, and
an assigned name has a value after the right side; a callee comes before its arguments; the update
of a `for` comes before its body.
-/

namespace Offside

/-- One thing that a script does with a name, or a jump. -/
inductive Event where
  | declareVariable (name : String)
  | declareFunction (name : String) (params : List String)
  | declareParam (name : String)
  /-- From here on the variable has a value. -/
  | gainValue (name : String)
  | use (name : String)
  /-- The name stands on the left of `=`. -/
  | assignTo (name : String)
  | call (name : String) (count : Nat)
  | jump (word : String) (inLoop : Bool)
  | giveBack (inFunction : Bool)
deriving DecidableEq

/-- What surrounds a statement, within the innermost function. -/
structure Surroundings where
  inLoop : Bool
  inFunction : Bool
deriving DecidableEq

namespace Surroundings

/-- Outside of everything. -/
def top : Surroundings := ⟨false, false⟩

/-- Inside a loop. -/
def loop (s : Surroundings) : Surroundings :=
  { s with inLoop := true }

/-- The body of a function: loops around the function do not reach into it. -/
def function : Surroundings := ⟨false, true⟩

end Surroundings

mutual

/-- The events of an expression. -/
def Expr.events : Expr → List Event
  | .ident name => [.use name]
  | .assign (.ident name) value => .assignTo name :: (value.events ++ [.gainValue name])
  | .assign target value => target.events ++ value.events
  | .binary _ left right => left.events ++ right.events
  | .unary _ operand => operand.events
  | .call callee arguments => .call callee arguments.length :: exprsEvents arguments
  | .number _ => []
  | .string _ => []
  | .boolean _ => []
  | .array elements => exprsEvents elements
  | .index object index => object.events ++ index.events
  | .property object _ => object.events

/-- The events of several expressions. -/
def exprsEvents : List Expr → List Event
  | [] => []
  | e :: rest => e.events ++ exprsEvents rest

end

/-- The events of a declaration. -/
def Declaration.events (d : Declaration) : List Event :=
  match d.init with
  | some value => .declareVariable d.name :: (value.events ++ [.gainValue d.name])
  | none => [.declareVariable d.name]

mutual

/-- The events of a statement. -/
def Stmt.events (around : Surroundings) : Stmt → List Event
  | .declare d => d.events
  | .function name params body =>
    .declareFunction name params ::
      (params.map .declareParam ++ stmtsEvents .function body)
  | .ifThen condition yes => condition.events ++ stmtsEvents around yes
  | .ifElse condition yes no =>
    condition.events ++ stmtsEvents around yes ++ stmtsEvents around no
  | .whileLoop condition body => condition.events ++ stmtsEvents around.loop body
  | .forLoop init condition update body =>
    init.events ++ condition.events ++ update.events ++ stmtsEvents around.loop body
  | .giveBack none => [.giveBack around.inFunction]
  | .giveBack (some value) => .giveBack around.inFunction :: value.events
  | .breakLoop => [.jump "break" around.inLoop]
  | .continueLoop => [.jump "continue" around.inLoop]
  | .expr value => value.events

/-- The events of several statements. -/
def stmtsEvents (around : Surroundings) : List Stmt → List Event
  | [] => []
  | s :: rest => s.events around ++ stmtsEvents around rest

end

/-- The events of a whole script. -/
def Program.events (program : Program) : List Event :=
  stmtsEvents .top program.body

end Offside
