import Offside.Scope.Check

/-!
# Checking scripts while walking through them

A `Visitor` goes through a script once and keeps what it knows in a state: the table of what has
been declared, the faults so far, and how many loops and functions are open around the place at
which it is. The loops around a function are put aside while its body is visited, and taken up again
after it.

`Visitor.analyze` is one use of a visitor. What has been declared stays with it for the next script,
and `Visitor.faultsInTurn` checks scripts one after another in this way.
-/

namespace Offside

/-- What a visitor keeps. -/
structure Visitor where
  table : SymbolTable := .builtins
  /-- The faults of the current script so far. -/
  faults : Array SemanticFault := #[]
  /-- The loops that are open within the current function. -/
  loops : Nat := 0
  /-- The functions that are open. -/
  functions : Nat := 0

/-- A step of visiting. -/
abbrev Visit : Type :=
  StateM Visitor Unit

namespace Visit

/-- Looks for a fault from where the visitor is, and reports it. -/
def check (fault? : Visitor → Option SemanticFault) : Visit :=
  modify fun visitor => { visitor with faults := visitor.faults ++ (fault? visitor).toList }

/-- A name is used. -/
def use (name : String) : Visit :=
  check fun visitor => Event.useFault? visitor.table name

/-- A name is about to be assigned to. -/
def assignTo (name : String) : Visit :=
  check fun visitor =>
    if (visitor.table.lookup? name).isNone then some (.undeclaredAssignment name) else none

/-- A function is called. -/
def call (name : String) (count : Nat) : Visit :=
  check fun visitor => Event.callFault? visitor.table name count

/-- A jump needs an open loop. -/
def jump (word : String) : Visit :=
  check fun visitor => if visitor.loops = 0 then some (.jumpOutsideLoop word) else none

/-- A `return` needs an open function. -/
def giveBack : Visit :=
  check fun visitor => if visitor.functions = 0 then some .returnOutsideFunction else none

/-- Declares a name, or reports that it is declared already. -/
def define (symbol : Symbol) : Visit := do
  match (← get).table.define symbol with
  | .ok table => modify fun visitor => { visitor with table }
  | .error fault => check fun _ => some fault

/-- From here on the name has a value. -/
def gainValue (name : String) : Visit :=
  modify fun visitor => { visitor with table := visitor.table.setInitialized name }

/-- Visits the body of a loop. -/
def inLoop (body : Visit) : Visit := fun visitor =>
  let ending := (body { visitor with loops := visitor.loops + 1 }).2
  ((), { ending with loops := ending.loops - 1 })

/-- Visits the body of a function. The loops around it do not reach into it. -/
def inFunction (body : Visit) : Visit := fun visitor =>
  let ending := (body { visitor with loops := 0, functions := visitor.functions + 1 }).2
  ((), { ending with loops := visitor.loops, functions := ending.functions - 1 })

/-- Declares the parameters of a function. They always have a value. -/
def params : List String → Visit
  | [] => pure ()
  | name :: rest => do
    define ⟨name, .variable true⟩
    gainValue name
    params rest

end Visit

mutual

/-- Visits an expression. -/
def Expr.visit : Expr → Visit
  | .ident name => Visit.use name
  | .assign (.ident name) value => do
    Visit.assignTo name
    value.visit
    Visit.gainValue name
  | .assign target value => do
    target.visit
    value.visit
  | .binary _ left right => do
    left.visit
    right.visit
  | .unary _ operand => operand.visit
  | .call callee arguments => do
    Visit.call callee arguments.length
    exprsVisit arguments
  | .number _ => pure ()
  | .string _ => pure ()
  | .boolean _ => pure ()
  | .array elements => exprsVisit elements
  | .index object offset => do
    object.visit
    offset.visit
  | .property object _ => object.visit

/-- Visits several expressions. -/
def exprsVisit : List Expr → Visit
  | [] => pure ()
  | e :: rest => do
    e.visit
    exprsVisit rest

end

/-- Visits a declaration. -/
def Declaration.visit (d : Declaration) : Visit := do
  Visit.define ⟨d.name, .variable false⟩
  match d.init with
  | some value =>
    value.visit
    Visit.gainValue d.name
  | none => pure ()

mutual

/-- Visits a statement. -/
def Stmt.visit : Stmt → Visit
  | .declare d => d.visit
  | .function name params body => do
    Visit.define ⟨name, .function (.fixed params)⟩
    Visit.params params
    Visit.inFunction (stmtsVisit body)
  | .ifThen condition yes => do
    condition.visit
    stmtsVisit yes
  | .ifElse condition yes no => do
    condition.visit
    stmtsVisit yes
    stmtsVisit no
  | .whileLoop condition body => do
    condition.visit
    Visit.inLoop (stmtsVisit body)
  | .forLoop init condition update body => do
    init.visit
    condition.visit
    update.visit
    Visit.inLoop (stmtsVisit body)
  | .giveBack none => Visit.giveBack
  | .giveBack (some value) => do
    Visit.giveBack
    value.visit
  | .breakLoop => Visit.jump "break"
  | .continueLoop => Visit.jump "continue"
  | .expr value => value.visit

/-- Visits several statements. -/
def stmtsVisit : List Stmt → Visit
  | [] => pure ()
  | s :: rest => do
    s.visit
    stmtsVisit rest

end

namespace Visitor

/-- Checks a script: its faults, and the visitor afterwards. -/
def analyze (visitor : Visitor) (program : Program) : List SemanticFault × Visitor :=
  let after := (stmtsVisit program.body visitor).2
  (after.faults.toList, { after with faults := #[] })

/-- Checks scripts one after another and gives the faults of each. -/
def faultsInTurn (visitor : Visitor) : List Program → List (List SemanticFault)
  | [] => []
  | program :: rest =>
    let (faults, after) := visitor.analyze program
    faults :: faultsInTurn after rest

end Visitor

end Offside
