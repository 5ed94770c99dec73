import Offside.Scope.Event
import Offside.Scope.Table

/-!
# Checking names, calls and jumps

The events of a script are looked at one after the other, with the table of what has been declared
before. `Event.fault?` says what is wrong with an event, `Event.update` how it changes the table; an
event that is at fault changes nothing but what it changes anyway, and the check goes on.

`Program.check` starts from any table and gives the table that is left, so that scripts can be
checked one after another. `semanticFaults` checks one script by itself.
-/

namespace Offside

namespace Event

/-- The symbol that an event declares. -/
def symbol? : Event → Option Symbol
  | declareVariable name => some ⟨name, .variable false⟩
  | declareFunction name params => some ⟨name, .function (.fixed params)⟩
  | declareParam name => some ⟨name, .variable true⟩
  | _ => none

/-- The name that has a value after the event. A parameter always has one, even if its name was
declared before as a variable without. -/
def valued? : Event → Option String
  | gainValue name => some name
  | declareParam name => some name
  | _ => none

/-- What is wrong with a use of a name. -/
def useFault? (table : SymbolTable) (name : String) : Option SemanticFault :=
  match table.lookup? name with
  | none => some (.undeclaredVariable name)
  | some ⟨_, .variable false⟩ => some (.uninitializedVariable name)
  | some _ => none

/-- What is wrong with a call. -/
def callFault? (table : SymbolTable) (name : String) (count : Nat) : Option SemanticFault :=
  match table.lookup? name with
  | some ⟨_, .function (.fixed params)⟩ =>
    if params.length = count then none else some (.argumentCount name params.length count)
  | some ⟨_, .function .variadic⟩ => none
  | _ => some (.undeclaredFunction name)

/-- What is wrong with an event, given what has been declared before it. -/
def fault? (table : SymbolTable) (event : Event) : Option SemanticFault :=
  match event with
  | use name => useFault? table name
  | assignTo name =>
    if (table.lookup? name).isNone then some (.undeclaredAssignment name) else none
  | call name count => callFault? table name count
  | jump word inLoop => if inLoop then none else some (.jumpOutsideLoop word)
  | giveBack inFunction => if inFunction then none else some .returnOutsideFunction
  | gainValue _ => none
  | declaration =>
    match declaration.symbol? with
    | some symbol =>
      match table.define symbol with
      | .ok _ => none
      | .error fault => some fault
    | none => none

/-- The table after an event. A declaration that is refused leaves it as it is. -/
def update (table : SymbolTable) (event : Event) : SymbolTable :=
  let declared :=
    match event.symbol? with
    | some symbol => (table.define symbol).toOption.getD table
    | none => table
  match event.valued? with
  | some name => declared.setInitialized name
  | none => declared

end Event

/-- What is wrong with a list of events, in their order. -/
def eventFaults : SymbolTable → List Event → List SemanticFault
  | _, [] => []
  | table, event :: rest => (event.fault? table).toList ++ eventFaults (event.update table) rest

/-- The table after a list of events. -/
def tableAfter (table : SymbolTable) (events : List Event) : SymbolTable :=
  events.foldl Event.update table

/-- What checking a script gives. -/
structure Checked where
  faults : List SemanticFault
  /-- What is declared from now on. -/
  table : SymbolTable

/-- Checks a script after those that have left the given table. -/
def Program.check (table : SymbolTable) (program : Program) : Checked :=
  ⟨eventFaults table program.events, tableAfter table program.events⟩

/-- Checks scripts one after another and gives the faults of each. -/
def checkInTurn (table : SymbolTable) : List Program → List (List SemanticFault)
  | [] => []
  | program :: rest =>
    let checked := program.check table
    checked.faults :: checkInTurn checked.table rest

/-- What is wrong with the names, calls and jumps of a script. -/
def semanticFaults (program : Program) : List SemanticFault :=
  (program.check .builtins).faults

end Offside
