import Offside.Diagnostic

/-!
# The symbol table

There is one scope for the whole script, function bodies included. A name keeps the meaning it was
first given: `define` refuses a name that the table holds already, and `setInitialized` only ever
raises the flag of a variable. Nothing removes an entry.
-/

namespace Offside

/-- How many arguments a function takes. -/
inductive Arity where
  /-- Exactly these. -/
  | fixed (params : List String)
  /-- Any number. -/
  | variadic
deriving DecidableEq

/-- What a name stands for. -/
inductive SymbolKind where
  | variable (initialized : Bool)
  | function (arity : Arity)
  /-- A constant of the language. -/
  | literal
deriving DecidableEq

/-- A name and what it stands for. -/
structure Symbol where
  name : String
  kind : SymbolKind
deriving DecidableEq

namespace Symbol

/-- What messages call the symbol: everything that is no function is a variable. -/
def nameKind (symbol : Symbol) : NameKind :=
  match symbol.kind with
  | .function _ => .function
  | .variable _ => .variable
  | .literal => .variable

/-- The symbol once it has been given a value, which only matters to a variable. -/
def withValue (symbol : Symbol) : Symbol :=
  match symbol.kind with
  | .variable _ => { symbol with kind := .variable true }
  | _ => symbol

theorem name_withValue (symbol : Symbol) : symbol.withValue.name = symbol.name := by
  unfold withValue
  split <;> rfl

end Symbol

/-- What every name stands for so far. -/
structure SymbolTable where
  symbols : List Symbol
deriving DecidableEq

namespace SymbolTable

/-- No names at all. -/
def empty : SymbolTable := ⟨[]⟩

/-- The names that every script may use without declaring them. -/
def builtins : SymbolTable :=
  ⟨[⟨"input", .function (.fixed ["message"])⟩,
    ⟨"console.log", .function .variadic⟩,
    ⟨"prompt", .function (.fixed ["message"])⟩,
    ⟨"true", .literal⟩,
    ⟨"false", .literal⟩]⟩

/-- What a name stands for. -/
def lookup? (table : SymbolTable) (name : String) : Option Symbol :=
  table.symbols.find? fun symbol => symbol.name = name

/-- Gives a meaning to a name that has none. -/
def define (table : SymbolTable) (symbol : Symbol) : Except SemanticFault SymbolTable :=
  match table.lookup? symbol.name with
  | some _ => .error (.redeclared symbol.nameKind symbol.name)
  | none => .ok ⟨symbol :: table.symbols⟩

/-- Records that a variable has been given a value. -/
def setInitialized (table : SymbolTable) (name : String) : SymbolTable :=
  ⟨table.symbols.map fun symbol => if symbol.name = name then symbol.withValue else symbol⟩

/-! ### What the operations do to look-up -/

theorem lookup?_name {table : SymbolTable} {name : String} {symbol : Symbol}
    (h : table.lookup? name = some symbol) : symbol.name = name := by
  simpa using List.find?_some (p := fun symbol : Symbol => symbol.name = name) h

theorem lookup?_of_define {table table' : SymbolTable} {symbol : Symbol}
    (h : table.define symbol = .ok table') (name : String) :
    table'.lookup? name = if symbol.name = name then some symbol else table.lookup? name := by
  unfold define at h
  split at h
  · simp at h
  · simp only [Except.ok.injEq] at h
    subst h
    by_cases hname : symbol.name = name <;> simp [lookup?, hname]

theorem lookup?_setInitialized (table : SymbolTable) (name other : String) :
    (table.setInitialized name).lookup? other =
      (table.lookup? other).map fun symbol =>
        if other = name then symbol.withValue else symbol := by
  simp only [lookup?, setInitialized]
  induction table.symbols with
  | nil => rfl
  | cons symbol rest ih =>
    have hname : (if symbol.name = name then symbol.withValue else symbol).name = symbol.name := by
      split
      · exact symbol.name_withValue
      · rfl
    rw [List.map_cons, List.find?_cons, List.find?_cons, hname]
    by_cases hother : symbol.name = other
    · simp [hother]
    · simp [hother, ih]

end SymbolTable

end Offside
