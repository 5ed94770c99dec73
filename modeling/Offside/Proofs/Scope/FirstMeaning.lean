import Offside.Scope.Table

/-!
# A name keeps its first meaning

A symbol table changes by two operations: a name is defined, or a variable is marked as having a
value. Over any sequence of them

* a name stands for what it was given first, by the table at the start or by the first definition;
* all that changes of it is the flag of a variable, which goes up with the first mark that comes
  *after* the definition and never down again (`Symbol.after`);
* a definition of a name that has a meaning is refused and changes nothing.

`SymbolTable.lookup?_apply` says what one operation does to a look-up, `lookup?_applyAll_of_some`
and `lookup?_applyAll_of_none` what a sequence does, and `SymbolTable.first_definition_wins` is the
main statement.
-/

namespace Offside

namespace SymbolTable

/-- An operation on a table. -/
inductive Op where
  | define (symbol : Symbol)
  | setInitialized (name : String)
deriving DecidableEq

/-- The name that an operation asks to define. -/
def Op.defined? : Op → Option String
  | define symbol => some symbol.name
  | setInitialized _ => none

/-- The table after an operation. A definition that is refused leaves it as it is. -/
def apply (table : SymbolTable) : Op → SymbolTable
  | .define symbol => (table.define symbol).toOption.getD table
  | .setInitialized name => table.setInitialized name

/-- The table after several operations. -/
def applyAll (table : SymbolTable) (ops : List Op) : SymbolTable :=
  ops.foldl apply table

end SymbolTable

open SymbolTable (Op)

/-- A symbol after later operations: name, kind and parameters stay, and a variable has a value if
it had one or one of the operations has said so. -/
def Symbol.after (ops : List Op) (symbol : Symbol) : Symbol :=
  match symbol.kind with
  | .variable initialized =>
    { symbol with
      kind := .variable (initialized || decide (.setInitialized symbol.name ∈ ops)) }
  | .function _ => symbol
  | .literal => symbol

namespace Symbol

theorem after_nil (symbol : Symbol) : symbol.after [] = symbol := by
  obtain ⟨name, kind⟩ := symbol
  cases kind <;> simp [after]

theorem after_cons (op : Op) (ops : List Op) (symbol : Symbol) :
    symbol.after (op :: ops) = (symbol.after [op]).after ops := by
  obtain ⟨name, kind⟩ := symbol
  cases kind <;> simp [after, Bool.or_assoc]

theorem after_define (other symbol : Symbol) : symbol.after [.define other] = symbol := by
  obtain ⟨name, kind⟩ := symbol
  cases kind <;> simp [after]

theorem after_setInitialized (name : String) (symbol : Symbol) :
    symbol.after [.setInitialized name] =
      if symbol.name = name then symbol.withValue else symbol := by
  obtain ⟨own, kind⟩ := symbol
  by_cases hname : own = name
  · cases kind <;> simp [after, withValue, hname]
  · cases kind <;> simp [after, hname]

end Symbol

namespace SymbolTable

variable {start table : SymbolTable} {ops before later : List Op} {symbol : Symbol} {name : String}

/-! ### One operation -/

/-- What an operation makes of a name that has no meaning yet. -/
def Op.meaning? (name : String) : Op → Option Symbol
  | define symbol => if symbol.name = name then some symbol else none
  | setInitialized _ => none

theorem define_of_none (h : table.lookup? symbol.name = none) :
    table.define symbol = .ok ⟨symbol :: table.symbols⟩ := by
  rw [define, h]

theorem define_of_some {other : Symbol} (h : table.lookup? symbol.name = some other) :
    table.define symbol = .error (.redeclared symbol.nameKind symbol.name) := by
  rw [define, h]

/-- **A name that has a meaning keeps it**, but for the flag of a variable. -/
theorem lookup?_apply (table : SymbolTable) (op : Op) (name : String) :
    (table.apply op).lookup? name =
      ((table.lookup? name).map (Symbol.after [op])).or (op.meaning? name) := by
  cases op with
  | define symbol =>
    have hkept : (table.lookup? name).map (Symbol.after [.define symbol]) = table.lookup? name := by
      cases table.lookup? name with
      | none => rfl
      | some other => exact congrArg some (Symbol.after_define symbol other)
    rw [hkept, apply, Op.meaning?]
    cases hsymbol : table.lookup? symbol.name with
    | none =>
      rw [define_of_none hsymbol, Except.toOption, Option.getD_some,
        lookup?_of_define (define_of_none hsymbol)]
      split
      · next hname =>
        rw [← hname, hsymbol]
        rfl
      · rw [Option.or_none]
    | some other =>
      rw [define_of_some hsymbol, Except.toOption, Option.getD_none]
      split
      · next hname =>
        rw [← hname, hsymbol]
        rfl
      · rw [Option.or_none]
  | setInitialized other =>
    rw [apply, lookup?_setInitialized, Op.meaning?, Option.or_none]
    cases hname : table.lookup? name with
    | none => rfl
    | some symbol =>
      rw [Option.map_some, Option.map_some, Symbol.after_setInitialized, lookup?_name hname]

/-! ### Sequences of operations -/

theorem applyAll_append (table : SymbolTable) (ops later : List Op) :
    table.applyAll (ops ++ later) = (table.applyAll ops).applyAll later :=
  List.foldl_append

/-- A name that has a meaning at the start. -/
theorem lookup?_applyAll_of_some (h : start.lookup? name = some symbol) (ops : List Op) :
    (start.applyAll ops).lookup? name = some (symbol.after ops) := by
  induction ops generalizing start symbol with
  | nil =>
    rw [symbol.after_nil]
    exact h
  | cons op ops ih =>
    have hstep : (start.apply op).lookup? name = some (symbol.after [op]) := by
      rw [lookup?_apply, h]
      rfl
    rw [symbol.after_cons]
    exact ih hstep

theorem meaning?_eq_none {op : Op} (h : op.defined? ≠ some name) : op.meaning? name = none := by
  cases op with
  | define symbol => exact if_neg fun hname => h (congrArg some hname)
  | setInitialized => rfl

/-- A name that gets no meaning. -/
theorem lookup?_applyAll_of_none (h : start.lookup? name = none)
    (hops : ∀ op ∈ ops, op.defined? ≠ some name) : (start.applyAll ops).lookup? name = none := by
  induction ops generalizing start with
  | nil => exact h
  | cons op ops ih =>
    obtain ⟨hop, hops⟩ := List.forall_mem_cons.mp hops
    have hstep : (start.apply op).lookup? name = none := by
      rw [lookup?_apply, h, meaning?_eq_none hop]
      rfl
    exact ih hstep hops

/-- The name was there at the start, or it has been defined since. -/
def IsKnown (start : SymbolTable) (ops : List Op) (name : String) : Prop :=
  start.lookup? name ≠ none ∨ ∃ op ∈ ops, op.defined? = some name

/-- The first meaning of a name and the operations that come after it: the meaning at the start, or
the first definition. -/
inductive FirstMeaning (start : SymbolTable) (ops : List Op) (name : String) :
    Symbol → List Op → Prop where
  | seeded {symbol : Symbol} (h : start.lookup? name = some symbol) :
      FirstMeaning start ops name symbol ops
  | defined {before later : List Op} {symbol : Symbol} (hstart : start.lookup? name = none)
      (hops : ops = before ++ .define symbol :: later) (hname : symbol.name = name)
      (hfirst : ∀ op ∈ before, op.defined? ≠ some name) :
      FirstMeaning start ops name symbol later

theorem FirstMeaning.lookup? (h : FirstMeaning start ops name symbol later) :
    (start.applyAll ops).lookup? name = some (symbol.after later) := by
  cases h with
  | seeded h => exact lookup?_applyAll_of_some h ops
  | @defined before _ _ hstart hops hname hfirst =>
    have hbefore := lookup?_applyAll_of_none hstart hfirst
    have hdefined :
        ((start.applyAll before).apply (.define symbol)).lookup? name = some symbol := by
      rw [lookup?_apply, hbefore, Op.meaning?, if_pos hname]
      rfl
    rw [hops, applyAll_append]
    exact lookup?_applyAll_of_some hdefined later

/-- What is known has a first meaning. -/
theorem exists_firstMeaning (h : IsKnown start ops name) :
    ∃ symbol later, FirstMeaning start ops name symbol later := by
  cases hstart : start.lookup? name with
  | some symbol => exact ⟨symbol, ops, .seeded hstart⟩
  | none =>
    obtain ⟨op, hmem, hop⟩ := h.resolve_left fun hne => hne hstart
    have hfound : (ops.find? fun op => op.defined? = some name).isSome :=
      List.find?_isSome.mpr ⟨op, hmem, decide_eq_true hop⟩
    obtain ⟨first, hfind⟩ := Option.isSome_iff_exists.mp hfound
    obtain ⟨hfirst, before, later, hops, hbefore⟩ := List.find?_eq_some_iff_append.mp hfind
    cases first with
    | setInitialized => simp [Op.defined?] at hfirst
    | define symbol =>
      refine ⟨symbol, later, .defined hstart hops (by simpa [Op.defined?] using hfirst) ?_⟩
      simpa using hbefore

/-! ### The whole table -/

theorem lookup?_applyAll_eq_none_iff :
    (start.applyAll ops).lookup? name = none ↔ ¬ IsKnown start ops name := by
  constructor
  · intro h hknown
    obtain ⟨first, later, hfirst⟩ := exists_firstMeaning hknown
    cases hfirst.lookup?.symm.trans h
  · intro h
    obtain ⟨hstart, hops⟩ := not_or.mp h
    exact lookup?_applyAll_of_none (Classical.not_not.mp hstart) fun op hmem hop =>
      hops ⟨op, hmem, hop⟩

theorem lookup?_applyAll_eq_some_iff :
    (start.applyAll ops).lookup? name = some symbol ↔
      ∃ first later, FirstMeaning start ops name first later ∧ symbol = first.after later := by
  constructor
  · intro h
    have hknown : IsKnown start ops name := by
      refine Classical.byContradiction fun hnot => ?_
      cases (lookup?_applyAll_eq_none_iff.mpr hnot).symm.trans h
    obtain ⟨first, later, hfirst⟩ := exists_firstMeaning hknown
    exact ⟨first, later, hfirst, Option.some.inj (h.symm.trans hfirst.lookup?)⟩
  · rintro ⟨first, later, hfirst, rfl⟩
    exact hfirst.lookup?

/-- What becomes of a definition after other operations. -/
structure DefineEffect (start : SymbolTable) (before : List Op) (symbol : Symbol) : Prop where
  refused_iff : (start.applyAll before).define symbol =
      .error (.redeclared symbol.nameKind symbol.name) ↔ IsKnown start before symbol.name
  accepted_iff : (∃ table, (start.applyAll before).define symbol = .ok table) ↔
    ¬ IsKnown start before symbol.name
  unchanged : IsKnown start before symbol.name →
    (start.applyAll before).apply (.define symbol) = start.applyAll before

theorem defineEffect (start : SymbolTable) (before : List Op) (symbol : Symbol) :
    DefineEffect start before symbol := by
  by_cases hknown : IsKnown start before symbol.name
  · obtain ⟨first, later, hfirst⟩ := exists_firstMeaning hknown
    have hrefused := define_of_some hfirst.lookup?
    exact {
      refused_iff := iff_of_true hrefused hknown
      accepted_iff := by simp [hrefused, hknown]
      unchanged := fun _ => by rw [apply, hrefused, Except.toOption, Option.getD_none] }
  · have haccepted := define_of_none (lookup?_applyAll_eq_none_iff.mpr hknown)
    exact {
      refused_iff := by simp [haccepted, hknown]
      accepted_iff := iff_of_true ⟨_, haccepted⟩ hknown
      unchanged := fun h => absurd h hknown }

/-- **The first meaning of a name wins.** After any operations on any table, a name that was neither
there at the start nor defined since stands for nothing. Any other name stands for what it was given
first, where the flag of a variable is up if it was defined so or marked after that. And a
definition is refused exactly if its name was there at the start or defined before; then nothing
changes. -/
theorem first_definition_wins (start : SymbolTable) (ops : List Op) :
    (∀ name, (start.applyAll ops).lookup? name = none ↔ ¬ IsKnown start ops name) ∧
      (∀ name symbol, (start.applyAll ops).lookup? name = some symbol ↔
        ∃ first later, FirstMeaning start ops name first later ∧ symbol = first.after later) ∧
      (∀ name symbol, (start.applyAll ops).lookup? name = some symbol → symbol.name = name) ∧
      ∀ before symbol later, ops = before ++ .define symbol :: later →
        DefineEffect start before symbol :=
  ⟨fun _ => lookup?_applyAll_eq_none_iff, fun _ _ => lookup?_applyAll_eq_some_iff,
    fun _ _ => lookup?_name, fun before symbol _ _ => defineEffect start before symbol⟩

/-- A mark that comes too early is lost, a second definition is refused, and a mark on a function
has no effect. -/
theorem first_definition_wins_of_early_mark :
    let ops : List Op := [.setInitialized "x", .define ⟨"x", .variable false⟩,
      .define ⟨"x", .function .variadic⟩, .setInitialized "input"]
    (builtins.applyAll ops).lookup? "x" = some ⟨"x", .variable false⟩ ∧
      (builtins.applyAll ops).lookup? "input" =
        some ⟨"input", .function (.fixed ["message"])⟩ ∧
      (builtins.applyAll ops).lookup? "y" = none ∧
      (builtins.applyAll (ops.take 2)).define ⟨"x", .function .variadic⟩ =
        .error (.redeclared .function "x") := by
  intro ops
  obtain ⟨hnone, hsome, -, heffect⟩ := first_definition_wins builtins ops
  have hops : ops = [.setInitialized "x"] ++ .define ⟨"x", .variable false⟩ ::
      [.define ⟨"x", .function .variadic⟩, .setInitialized "input"] := rfl
  have hsecond : ops = ops.take 2 ++ .define ⟨"x", .function .variadic⟩ ::
      [.setInitialized "input"] := rfl
  refine ⟨(hsome _ _).mpr ⟨_, _, .defined rfl hops rfl (by decide), rfl⟩,
    (hsome _ _).mpr ⟨_, _, .seeded rfl, rfl⟩, (hnone _).mpr ?_,
    (heffect _ _ _ hsecond).refused_iff.mpr (.inr ⟨_, List.mem_of_getElem? (i := 1) rfl, rfl⟩)⟩
  rintro (hstart | ⟨op, hmem, hop⟩)
  · exact hstart rfl
  · revert op
    decide

end SymbolTable

end Offside
