import Offside.Scope.Check

/-!
# What is wrong with the names of a script, without a table

A script is written down as a list of *steps* in the order of its text (`steps`): names are
declared, given a value, used, assigned to and called, and a jump stands somewhere. What is wrong
with a step is told from the steps before it alone (`Faulty`), by where the name was first declared
and what has happened to it since:

* a name is declared from its first declaration on, and built-in names always are;
* what the first declaration makes of a name stays; later ones are at fault and change nothing;
* a variable has no value until it is given one, and a parameter of its name gives it one, too;
* a jump needs a loop as the innermost of the loops and functions around it, and a `return` needs
  some function around it.

`Reading history steps faults` says that `faults` are all the faults of the steps, in their order
and each once, and `ReadingInTurn` says so of scripts that are read one after another.
-/

namespace Offside

namespace Scope

/-! ### Steps -/

/-- What stands around a statement and decides where jumps may go. -/
inductive Encloser where
  | loop
  | function
deriving DecidableEq

/-- What a script does next. A jump comes with what stands around it, the innermost first. -/
inductive Step where
  | declareVariable (name : String)
  | declareFunction (name : String) (params : List String)
  | declareParam (name : String)
  | gainValue (name : String)
  | use (name : String)
  | assignTo (name : String)
  | call (name : String) (count : Nat)
  | jump (word : String) (around : List Encloser)
  | giveBack (around : List Encloser)
deriving DecidableEq

mutual

/-- The steps of an expression. A callee comes before its arguments, and a name that is assigned to
has a value once the right side is done. -/
def exprSteps : Expr → List Step
  | .assign (.ident name) value => .assignTo name :: exprSteps value ++ [.gainValue name]
  | .assign target value => exprSteps target ++ exprSteps value
  | .binary _ left right => exprSteps left ++ exprSteps right
  | .unary _ operand => exprSteps operand
  | .call callee arguments => .call callee arguments.length :: exprsSteps arguments
  | .ident name => [.use name]
  | .array elements => exprsSteps elements
  | .index object index => exprSteps object ++ exprSteps index
  | .property object _ => exprSteps object
  | _ => []

/-- The steps of several expressions. -/
def exprsSteps : List Expr → List Step
  | [] => []
  | e :: others => exprSteps e ++ exprsSteps others

end

/-- The steps of a declaration. The name is declared before its first value is looked at. -/
def declarationSteps (d : Declaration) : List Step :=
  .declareVariable d.name ::
    match d.init with
    | some value => exprSteps value ++ [.gainValue d.name]
    | none => []

mutual

/-- The steps of a statement. The update of a `for` comes before its body. -/
def stmtSteps (around : List Encloser) : Stmt → List Step
  | .declare d => declarationSteps d
  | .function name params body =>
    .declareFunction name params :: params.map .declareParam ++
      stmtsSteps (.function :: around) body
  | .ifThen condition yes => exprSteps condition ++ stmtsSteps around yes
  | .ifElse condition yes no =>
    exprSteps condition ++ stmtsSteps around yes ++ stmtsSteps around no
  | .whileLoop condition body => exprSteps condition ++ stmtsSteps (.loop :: around) body
  | .forLoop init condition update body =>
    declarationSteps init ++ exprSteps condition ++ exprSteps update ++
      stmtsSteps (.loop :: around) body
  | .giveBack none => [.giveBack around]
  | .giveBack (some value) => .giveBack around :: exprSteps value
  | .breakLoop => [.jump "break" around]
  | .continueLoop => [.jump "continue" around]
  | .expr value => exprSteps value

/-- The steps of several statements. -/
def stmtsSteps (around : List Encloser) : List Stmt → List Step
  | [] => []
  | s :: rest => stmtSteps around s ++ stmtsSteps around rest

end

/-- The steps of a script. -/
def steps (program : Program) : List Step :=
  stmtsSteps [] program.body

/-! ### What the steps so far say of a name -/

/-- The name that a step declares. -/
def Step.declared? : Step → Option String
  | declareVariable name => some name
  | declareFunction name _ => some name
  | declareParam name => some name
  | _ => none

/-- The name that has a value after the step, if it stands for a variable. -/
def Step.valued? : Step → Option String
  | gainValue name => some name
  | declareParam name => some name
  | _ => none

/-- The functions that need no declaration, and how many arguments they take, if not any number. -/
def builtinFunctions : List (String × Option Nat) :=
  [("input", some 1), ("prompt", some 1), ("console.log", none)]

/-- The names that need no declaration. -/
def builtinNames : List String :=
  builtinFunctions.map Prod.fst ++ ["true", "false"]

/-- The name is built in, or one of the steps declares it. -/
def IsDeclared (history : List Step) (name : String) : Prop :=
  name ∈ builtinNames ∨ ∃ step ∈ history, step.declared? = some name

/-- The first declaration of the name is `step`, and `after` are the steps since. A built-in name
has been declared before all steps. -/
def FirstDeclared (history : List Step) (name : String) (step : Step) (after : List Step) : Prop :=
  ∃ before, history = before ++ step :: after ∧ step.declared? = some name ∧
    ¬ IsDeclared before name

/-- The name was first declared as a variable and has not been given a value since. -/
def IsUnset (history : List Step) (name : String) : Prop :=
  ∃ after, FirstDeclared history name (.declareVariable name) after ∧
    ∀ step ∈ after, step.valued? ≠ some name

/-- The name is a built-in function or was first declared as a function, and takes that many
arguments, or any number. -/
def IsFunction (history : List Step) (name : String) (count? : Option Nat) : Prop :=
  (name, count?) ∈ builtinFunctions ∨
    ∃ params after, FirstDeclared history name (.declareFunction name params) after ∧
      count? = some params.length

/-! ### Faults -/

/-- What is wrong with a step after the steps of `history`. -/
inductive Faulty (history : List Step) : Step → SemanticFault → Prop where
  | redeclaredVariable {name} (h : IsDeclared history name) :
    Faulty history (.declareVariable name) (.redeclared .variable name)
  | redeclaredFunction {name params} (h : IsDeclared history name) :
    Faulty history (.declareFunction name params) (.redeclared .function name)
  | redeclaredParam {name} (h : IsDeclared history name) :
    Faulty history (.declareParam name) (.redeclared .variable name)
  | undeclaredVariable {name} (h : ¬ IsDeclared history name) :
    Faulty history (.use name) (.undeclaredVariable name)
  | uninitializedVariable {name} (h : IsUnset history name) :
    Faulty history (.use name) (.uninitializedVariable name)
  | undeclaredAssignment {name} (h : ¬ IsDeclared history name) :
    Faulty history (.assignTo name) (.undeclaredAssignment name)
  | undeclaredFunction {name count} (h : ∀ count?, ¬ IsFunction history name count?) :
    Faulty history (.call name count) (.undeclaredFunction name)
  | argumentCount {name expected count} (h : IsFunction history name (some expected))
    (hcount : expected ≠ count) :
    Faulty history (.call name count) (.argumentCount name expected count)
  | jumpOutsideLoop {word around} (h : around.head? ≠ some .loop) :
    Faulty history (.jump word around) (.jumpOutsideLoop word)
  | returnOutsideFunction {around} (h : .function ∉ around) :
    Faulty history (.giveBack around) .returnOutsideFunction

/-- The faults of the steps after those of `history`, in their order and each once. -/
inductive Reading : List Step → List Step → List SemanticFault → Prop where
  | nil {history} : Reading history [] []
  | faulty {history step rest fault faults} (h : Faulty history step fault)
    (hrest : Reading (history ++ [step]) rest faults) :
    Reading history (step :: rest) (fault :: faults)
  | clean {history step rest faults} (h : ∀ fault, ¬ Faulty history step fault)
    (hrest : Reading (history ++ [step]) rest faults) : Reading history (step :: rest) faults

/-- The faults of each of several scripts, read one after another after the steps of `history`. -/
inductive ReadingInTurn : List Step → List Program → List (List SemanticFault) → Prop where
  | nil {history} : ReadingInTurn history [] []
  | cons {history program rest faults others} (h : Reading history (steps program) faults)
    (hrest : ReadingInTurn (history ++ steps program) rest others) :
    ReadingInTurn history (program :: rest) (faults :: others)

/-! ### Steps and events -/

/-- What surrounds a statement, as far as jumps ask. -/
def surroundings (around : List Encloser) : Surroundings :=
  ⟨around.head? = some .loop, .function ∈ around⟩

theorem surroundings_loop (around : List Encloser) :
    surroundings (.loop :: around) = (surroundings around).loop := by
  simp [surroundings, Surroundings.loop]

theorem surroundings_function (around : List Encloser) :
    surroundings (.function :: around) = .function := by
  simp [surroundings, Surroundings.function]

/-- The event that a step is. -/
def Step.event : Step → Event
  | declareVariable name => .declareVariable name
  | declareFunction name params => .declareFunction name params
  | declareParam name => .declareParam name
  | gainValue name => .gainValue name
  | use name => .use name
  | assignTo name => .assignTo name
  | call name count => .call name count
  | jump word around => .jump word (surroundings around).inLoop
  | giveBack around => .giveBack (surroundings around).inFunction

mutual

theorem map_event_exprSteps : (e : Expr) → (exprSteps e).map Step.event = e.events
  | .assign target value => by
    have htarget := map_event_exprSteps target
    have hvalue := map_event_exprSteps value
    cases target with
    | ident name =>
      rw [exprSteps, Expr.events, List.map_append, List.map_cons, hvalue]
      rfl
    | _ => rw [exprSteps, Expr.events, List.map_append, htarget, hvalue] <;> nofun
  | .binary op left right => by
    rw [exprSteps, Expr.events, List.map_append, map_event_exprSteps left,
      map_event_exprSteps right]
  | .unary op operand => by
    rw [exprSteps, Expr.events, map_event_exprSteps operand]
  | .call callee arguments => by
    rw [exprSteps, Expr.events, List.map_cons, map_event_exprsSteps arguments]
    rfl
  | .ident name => rfl
  | .number value => rfl
  | .string raw => rfl
  | .boolean value => rfl
  | .array elements => by
    rw [exprSteps, Expr.events, map_event_exprsSteps elements]
  | .index object index => by
    rw [exprSteps, Expr.events, List.map_append, map_event_exprSteps object,
      map_event_exprSteps index]
  | .property object name => by
    rw [exprSteps, Expr.events, map_event_exprSteps object]

theorem map_event_exprsSteps : (es : List Expr) → (exprsSteps es).map Step.event = exprsEvents es
  | [] => rfl
  | e :: others => by
    rw [exprsSteps, exprsEvents, List.map_append, map_event_exprSteps e,
      map_event_exprsSteps others]

end

theorem map_event_declarationSteps (d : Declaration) :
    (declarationSteps d).map Step.event = d.events := by
  unfold declarationSteps Declaration.events
  cases d.init with
  | none => rfl
  | some value =>
    rw [List.map_cons, List.map_append, map_event_exprSteps value]
    rfl

mutual

theorem map_event_stmtSteps (around : List Encloser) :
    (s : Stmt) → (stmtSteps around s).map Step.event = s.events (surroundings around)
  | .declare d => by
    rw [stmtSteps, Stmt.events, map_event_declarationSteps]
  | .function name params body => by
    rw [stmtSteps, Stmt.events, List.map_append, List.map_cons, List.map_map,
      map_event_stmtsSteps _ body, surroundings_function]
    rfl
  | .ifThen condition yes => by
    rw [stmtSteps, Stmt.events, List.map_append, map_event_exprSteps, map_event_stmtsSteps _ yes]
  | .ifElse condition yes no => by
    rw [stmtSteps, Stmt.events, List.map_append, List.map_append, map_event_exprSteps,
      map_event_stmtsSteps _ yes, map_event_stmtsSteps _ no]
  | .whileLoop condition body => by
    rw [stmtSteps, Stmt.events, List.map_append, map_event_exprSteps, map_event_stmtsSteps _ body,
      surroundings_loop]
  | .forLoop init condition update body => by
    rw [stmtSteps, Stmt.events, List.map_append, List.map_append, List.map_append,
      map_event_declarationSteps, map_event_exprSteps, map_event_exprSteps,
      map_event_stmtsSteps _ body, surroundings_loop]
  | .giveBack none => rfl
  | .giveBack (some value) => by
    rw [stmtSteps, Stmt.events, List.map_cons, map_event_exprSteps]
    rfl
  | .breakLoop => rfl
  | .continueLoop => rfl
  | .expr value => by
    rw [stmtSteps, Stmt.events, map_event_exprSteps]

theorem map_event_stmtsSteps (around : List Encloser) :
    (body : List Stmt) →
      (stmtsSteps around body).map Step.event = stmtsEvents (surroundings around) body
  | [] => rfl
  | s :: rest => by
    rw [stmtsSteps, stmtsEvents, List.map_append, map_event_stmtSteps around s,
      map_event_stmtsSteps around rest]

end

/-- **The steps of a script are its events**, with the places of jumps in place of their flags. -/
theorem map_event_steps (program : Program) :
    (steps program).map Step.event = program.events := by
  exact map_event_stmtsSteps [] program.body

end Scope

end Offside
