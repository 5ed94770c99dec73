import Offside.Proofs.Scope.Reading

/-!
# The symbol table remembers the history

The check of a script keeps a table and looks at nothing else. `Remembers history table` says what
the table has kept of the steps so far: which names are declared, which of them are variables
without a value, and which are functions. That is all a fault depends on
(`Remembers.fault?_eq_some_iff`), and each step keeps it (`Remembers.step`), so the faults that the
check finds are those of the reading, for any number of scripts that are checked one after another
(`readingInTurn_iff`).
-/

namespace Offside

/-! ### What a table says of a name -/

/-- What a name stands for. -/
def SymbolTable.kind? (table : SymbolTable) (name : String) : Option SymbolKind :=
  (table.lookup? name).map Symbol.kind

/-- What a name stands for once it has been given a value. -/
def SymbolKind.withValue : SymbolKind → SymbolKind
  | .variable _ => .variable true
  | kind => kind

theorem Symbol.kind_withValue (symbol : Symbol) :
    symbol.withValue.kind = symbol.kind.withValue := by
  obtain ⟨name, kind⟩ := symbol
  cases kind <;> rfl

theorem SymbolKind.withValue_ne (kind : SymbolKind) : kind.withValue ≠ .variable false := by
  cases kind <;> simp [SymbolKind.withValue]

theorem SymbolKind.withValue_eq_function {kind : SymbolKind} {arity : Arity} :
    kind.withValue = .function arity ↔ kind = .function arity := by
  cases kind <;> simp [SymbolKind.withValue]

/-- The number of arguments, if not any number is taken. -/
def Arity.count? : Arity → Option Nat
  | .fixed params => some params.length
  | .variadic => none

namespace SymbolTable

theorem kind?_setInitialized (table : SymbolTable) (name other : String) :
    (table.setInitialized name).kind? other =
      (table.kind? other).map fun kind => if other = name then kind.withValue else kind := by
  rw [kind?, kind?, lookup?_setInitialized, Option.map_map, Option.map_map]
  congr 1
  funext symbol
  by_cases hname : other = name
  · simp only [Function.comp_apply, if_pos hname, Symbol.kind_withValue]
  · simp only [Function.comp_apply, if_neg hname]

theorem define_eq (table : SymbolTable) (symbol : Symbol) :
    table.define symbol =
      if (table.kind? symbol.name).isSome then .error (.redeclared symbol.nameKind symbol.name)
      else .ok ⟨symbol :: table.symbols⟩ := by
  unfold define kind?
  cases table.lookup? symbol.name <;> rfl

/-- A name keeps what it stands for, and otherwise takes the meaning it is given. -/
theorem kind?_define (table : SymbolTable) (symbol : Symbol) (name : String) :
    ((table.define symbol).toOption.getD table).kind? name =
      (table.kind? name).or (if symbol.name = name then some symbol.kind else none) := by
  by_cases hname : symbol.name = name
  · rw [define_eq, if_pos hname, hname]
    cases hkind : table.kind? name with
    | some kind => exact hkind
    | none => simp [Except.toOption, kind?, lookup?, hname]
  · rw [define_eq, if_neg hname, Option.or_none]
    split
    · rfl
    · simp [Except.toOption, kind?, lookup?, hname]

end SymbolTable

namespace Scope

variable {history : List Step} {table : SymbolTable}

/-! ### What a step does to a table -/

/-- What a name stands for after the step, if it was not declared before. -/
def Step.kind? (name : String) : Step → Option SymbolKind
  | declareVariable n => if n = name then some (.variable false) else none
  | declareFunction n params => if n = name then some (.function (.fixed params)) else none
  | declareParam n => if n = name then some (.variable true) else none
  | _ => none

theorem Step.isSome_kind? {step : Step} {name : String} :
    (step.kind? name).isSome ↔ step.declared? = some name := by
  cases step <;> simp [Step.kind?, Step.declared?]

theorem Step.kind?_eq_variable {step : Step} {name : String} :
    step.kind? name = some (.variable false) ↔ step = .declareVariable name := by
  cases step <;> simp [Step.kind?]

theorem Step.kind?_eq_function {step : Step} {name : String} {arity : Arity} :
    step.kind? name = some (.function arity) ↔
      ∃ params, step = .declareFunction name params ∧ arity = .fixed params := by
  cases step with
  | declareFunction n params =>
    constructor
    · intro h
      obtain ⟨rfl, rfl⟩ : n = name ∧ Arity.fixed params = arity := by simpa [Step.kind?] using h
      exact ⟨params, rfl, rfl⟩
    · rintro ⟨_, h, rfl⟩
      cases h
      exact if_pos rfl
  | _ => simp [Step.kind?]

/-- A name keeps what it stood for before the step; it may have a value now. -/
theorem kind?_update (table : SymbolTable) (step : Step) (name : String) :
    (step.event.update table).kind? name =
      ((table.kind? name).or (step.kind? name)).map fun kind =>
        if step.valued? = some name then kind.withValue else kind := by
  cases step with
  | declareVariable n =>
    simp [Step.event, Event.update, Event.symbol?, Event.valued?, Step.kind?, Step.valued?,
      SymbolTable.kind?_define]
  | declareFunction n params =>
    simp [Step.event, Event.update, Event.symbol?, Event.valued?, Step.kind?, Step.valued?,
      SymbolTable.kind?_define]
  | declareParam n =>
    simp [Step.event, Event.update, Event.symbol?, Event.valued?, Step.kind?, Step.valued?,
      SymbolTable.kind?_define, SymbolTable.kind?_setInitialized, eq_comm]
  | gainValue n =>
    simp [Step.event, Event.update, Event.symbol?, Event.valued?, Step.kind?, Step.valued?,
      SymbolTable.kind?_setInitialized, eq_comm]
  | _ => simp [Step.event, Event.update, Event.symbol?, Event.valued?, Step.kind?, Step.valued?]

theorem isSome_kind?_update (table : SymbolTable) (step : Step) (name : String) :
    ((step.event.update table).kind? name).isSome ↔
      (table.kind? name).isSome ∨ step.declared? = some name := by
  rw [kind?_update, Option.isSome_map, Option.isSome_or, Bool.or_eq_true, Step.isSome_kind?]

/-- A variable has no value if it had none and gets none, or if it is declared just now. -/
theorem kind?_update_eq_variable (table : SymbolTable) (step : Step) (name : String) :
    (step.event.update table).kind? name = some (.variable false) ↔
      (table.kind? name = some (.variable false) ∧ step.valued? ≠ some name) ∨
        (¬ (table.kind? name).isSome ∧ step = .declareVariable name) := by
  rw [kind?_update]
  by_cases hvalued : step.valued? = some name
  · have hstep : step ≠ .declareVariable name := by
      rintro rfl
      cases hvalued
    simp [hvalued, hstep, SymbolKind.withValue_ne]
  · simp only [hvalued, if_false, Option.map_id', not_false_eq_true, and_true, ne_eq]
    cases table.kind? name with
    | none => simp [Step.kind?_eq_variable]
    | some kind => simp

theorem kind?_update_eq_function (table : SymbolTable) (step : Step) (name : String)
    (arity : Arity) :
    (step.event.update table).kind? name = some (.function arity) ↔
      table.kind? name = some (.function arity) ∨
        (¬ (table.kind? name).isSome ∧
          ∃ params, step = .declareFunction name params ∧ arity = .fixed params) := by
  have hvalue : ∀ kind : SymbolKind,
      (if step.valued? = some name then kind.withValue else kind) = .function arity ↔
        kind = .function arity := by
    intro kind
    split
    · exact SymbolKind.withValue_eq_function
    · rfl
  simp only [kind?_update, Option.map_eq_some_iff, hvalue, exists_eq_right]
  cases table.kind? name with
  | none => simp [Step.kind?_eq_function]
  | some kind => simp

/-! ### What a step does to the history -/

theorem isDeclared_append (history : List Step) (step : Step) (name : String) :
    IsDeclared (history ++ [step]) name ↔
      IsDeclared history name ∨ step.declared? = some name := by
  simp only [IsDeclared, List.mem_append, List.mem_singleton, or_and_right, exists_or,
    exists_eq_left, or_assoc]

theorem firstDeclared_append {history after : List Step} {step first : Step} {name : String} :
    FirstDeclared (history ++ [step]) name first after ↔
      (∃ after', after = after' ++ [step] ∧ FirstDeclared history name first after') ∨
        (first = step ∧ after = [] ∧ step.declared? = some name ∧ ¬ IsDeclared history name) := by
  constructor
  · rintro ⟨before, hsplit, hdeclared, hfirst⟩
    rcases List.eq_nil_or_concat after with rfl | ⟨after', last, rfl⟩
    · obtain ⟨rfl, hstep⟩ := List.append_inj' hsplit rfl
      cases hstep
      exact .inr ⟨rfl, rfl, hdeclared, hfirst⟩
    · have hlast : history ++ [step] = (before ++ first :: after') ++ [last] := by
        simpa using hsplit
      obtain ⟨rfl, hstep⟩ := List.append_inj' hlast rfl
      cases hstep
      exact .inl ⟨after', List.concat_eq_append, before, rfl, hdeclared, hfirst⟩
  · rintro (⟨after', rfl, before, rfl, hdeclared, hfirst⟩ | ⟨rfl, rfl, hdeclared, hfirst⟩)
    · exact ⟨before, by simp, hdeclared, hfirst⟩
    · exact ⟨history, rfl, hdeclared, hfirst⟩

theorem isUnset_append (history : List Step) (step : Step) (name : String) :
    IsUnset (history ++ [step]) name ↔
      (IsUnset history name ∧ step.valued? ≠ some name) ∨
        (¬ IsDeclared history name ∧ step = .declareVariable name) := by
  constructor
  · rintro ⟨after, hfirst, hafter⟩
    rcases firstDeclared_append.mp hfirst with ⟨after', rfl, hold⟩ | ⟨rfl, rfl, -, hnew⟩
    · rw [List.forall_mem_append] at hafter
      exact .inl ⟨⟨after', hold, hafter.1⟩, hafter.2 step (.head _)⟩
    · exact .inr ⟨hnew, rfl⟩
  · rintro (⟨⟨after, hfirst, hafter⟩, hstep⟩ | ⟨hnew, rfl⟩)
    · refine ⟨after ++ [step], firstDeclared_append.mpr (.inl ⟨after, rfl, hfirst⟩), ?_⟩
      exact List.forall_mem_append.mpr ⟨hafter, List.forall_mem_singleton.mpr hstep⟩
    · exact ⟨[], firstDeclared_append.mpr (.inr ⟨rfl, rfl, rfl, hnew⟩), nofun⟩

theorem isFunction_append (history : List Step) (step : Step) (name : String)
    (count? : Option Nat) :
    IsFunction (history ++ [step]) name count? ↔
      IsFunction history name count? ∨ (¬ IsDeclared history name ∧
        ∃ params, step = .declareFunction name params ∧ count? = some params.length) := by
  constructor
  · rintro (hbuiltin | ⟨params, after, hfirst, hcount⟩)
    · exact .inl (.inl hbuiltin)
    · rcases firstDeclared_append.mp hfirst with ⟨after', -, hold⟩ | ⟨rfl, -, -, hnew⟩
      · exact .inl (.inr ⟨params, after', hold, hcount⟩)
      · exact .inr ⟨hnew, params, rfl, hcount⟩
  · rintro ((hbuiltin | ⟨params, after, hfirst, hcount⟩) | ⟨hnew, params, rfl, hcount⟩)
    · exact .inl hbuiltin
    · exact .inr ⟨params, _, firstDeclared_append.mpr (.inl ⟨after, rfl, hfirst⟩), hcount⟩
    · exact .inr ⟨params, [], firstDeclared_append.mpr (.inr ⟨rfl, rfl, rfl, hnew⟩), hcount⟩

/-! ### What the table keeps -/

/-- The table knows of every name what the steps so far say of it. -/
structure Remembers (history : List Step) (table : SymbolTable) : Prop where
  declared : ∀ name, (table.kind? name).isSome ↔ IsDeclared history name
  unset : ∀ name, table.kind? name = some (.variable false) ↔ IsUnset history name
  function : ∀ name count?,
    (∃ arity, table.kind? name = some (.function arity) ∧ arity.count? = count?) ↔
      IsFunction history name count?

theorem not_firstDeclared_nil {name : String} {first : Step} {after : List Step} :
    ¬ FirstDeclared [] name first after := by
  rintro ⟨before, hsplit, -⟩
  simp at hsplit

/-- What the built-in names stand for. -/
theorem kind?_builtins (name : String) :
    SymbolTable.builtins.kind? name =
      if name = "input" ∨ name = "prompt" then some (.function (.fixed ["message"]))
      else if name = "console.log" then some (.function .variadic)
      else if name = "true" ∨ name = "false" then some .literal
      else none := by
  by_cases hname : name ∈ ["input", "console.log", "prompt", "true", "false"]
  · simp only [List.mem_cons, List.not_mem_nil, or_false] at hname
    rcases hname with rfl | rfl | rfl | rfl | rfl <;> rfl
  · simp only [List.mem_cons, List.not_mem_nil, or_false, not_or] at hname
    obtain ⟨hinput, hlog, hprompt, htrue, hfalse⟩ := hname
    simp [SymbolTable.kind?, SymbolTable.lookup?, SymbolTable.builtins, eq_comm, hinput, hlog,
      hprompt, htrue, hfalse]

/-- Before all steps, the table holds the built-in names. -/
theorem remembers_builtins : Remembers [] .builtins where
  declared name := by
    have hdeclared : IsDeclared [] name ↔ name ∈ builtinNames := by simp [IsDeclared]
    rw [kind?_builtins, hdeclared]
    grind [builtinNames, builtinFunctions]
  unset name := by
    have hunset : ¬ IsUnset [] name := fun ⟨_, hfirst, _⟩ => not_firstDeclared_nil hfirst
    rw [kind?_builtins]
    simp only [hunset, iff_false]
    repeat' split
    all_goals nofun
  function name count? := by
    have hfunction : IsFunction [] name count? ↔ (name, count?) ∈ builtinFunctions :=
      or_iff_left fun ⟨_, _, hfirst, _⟩ => not_firstDeclared_nil hfirst
    rw [kind?_builtins, hfunction]
    grind [builtinFunctions, Arity.count?]

/-- **Each step is remembered.** -/
theorem Remembers.step (h : Remembers history table) (step : Step) :
    Remembers (history ++ [step]) (step.event.update table) where
  declared name := by
    rw [isSome_kind?_update, h.declared, isDeclared_append]
  unset name := by
    rw [kind?_update_eq_variable, h.unset, h.declared, isUnset_append]
  function name count? := by
    rw [isFunction_append, ← h.function, ← h.declared]
    simp only [kind?_update_eq_function]
    constructor
    · rintro ⟨arity, hold | ⟨hnew, params, rfl, rfl⟩, rfl⟩
      · exact .inl ⟨arity, hold, rfl⟩
      · exact .inr ⟨hnew, params, rfl, rfl⟩
    · rintro (⟨arity, hold, rfl⟩ | ⟨hnew, params, rfl, rfl⟩)
      · exact ⟨arity, .inl hold, rfl⟩
      · exact ⟨.fixed params, .inr ⟨hnew, params, rfl, rfl⟩, rfl⟩

theorem Remembers.run {steps : List Step} (h : Remembers history table) :
    Remembers (history ++ steps) (tableAfter table (steps.map Step.event)) := by
  induction steps generalizing history table with
  | nil => rwa [List.append_nil]
  | cons step rest ih =>
    have hrest := ih (h.step step)
    rwa [List.append_assoc] at hrest

/-! ### Faults -/

theorem useFault?_eq (table : SymbolTable) (name : String) :
    Event.useFault? table name =
      match table.kind? name with
      | none => some (.undeclaredVariable name)
      | some (.variable false) => some (.uninitializedVariable name)
      | some _ => none := by
  unfold Event.useFault? SymbolTable.kind?
  cases table.lookup? name with
  | none => rfl
  | some symbol =>
    obtain ⟨_, kind⟩ := symbol
    cases kind with
    | «variable» initialized => cases initialized <;> rfl
    | _ => rfl

theorem callFault?_eq (table : SymbolTable) (name : String) (count : Nat) :
    Event.callFault? table name count =
      match table.kind? name with
      | some (.function arity) =>
        arity.count?.bind fun expected =>
          if expected = count then none else some (.argumentCount name expected count)
      | _ => some (.undeclaredFunction name) := by
  unfold Event.callFault? SymbolTable.kind?
  cases table.lookup? name with
  | none => rfl
  | some symbol =>
    obtain ⟨_, kind⟩ := symbol
    cases kind with
    | function arity => cases arity <;> rfl
    | _ => rfl

/-- A declaration is wrong if the table refuses it. -/
theorem fault?_eq_some_iff_of_symbol? {event : Event} {symbol : Symbol} (fault : SemanticFault)
    (hsymbol : event.symbol? = some symbol) :
    event.fault? table = some fault ↔ table.define symbol = .error fault := by
  cases event with
  | declareVariable | declareFunction | declareParam =>
    cases hsymbol
    simp only [Event.fault?, Event.symbol?]
    split
    · next hok => simp [hok]
    · next herror => simp [herror]
  | _ => cases hsymbol

namespace Remembers

variable (h : Remembers history table)

include h

theorem useFault?_eq_some_iff (name : String) (fault : SemanticFault) :
    Event.useFault? table name = some fault ↔ Faulty history (.use name) fault := by
  rw [useFault?_eq]
  constructor
  · intro hfault
    split at hfault
    · next hkind =>
      cases hfault
      refine .undeclaredVariable fun hdeclared => ?_
      rw [← h.declared, hkind] at hdeclared
      cases hdeclared
    · next hkind =>
      cases hfault
      exact .uninitializedVariable ((h.unset name).mp hkind)
    · cases hfault
  · intro hfaulty
    cases hfaulty with
    | undeclaredVariable hnew =>
      rw [← h.declared, Option.not_isSome_iff_eq_none] at hnew
      rw [hnew]
    | uninitializedVariable hunset => rw [(h.unset name).mpr hunset]

theorem callFault?_eq_some_iff (name : String) (count : Nat) (fault : SemanticFault) :
    Event.callFault? table name count = some fault ↔ Faulty history (.call name count) fault := by
  rw [callFault?_eq]
  constructor
  · intro hfault
    split at hfault
    · next arity hkind =>
      obtain ⟨expected, hcount, hfault⟩ := Option.bind_eq_some_iff.mp hfault
      have hfunction := (h.function name (some expected)).mp ⟨arity, hkind, hcount⟩
      split at hfault
      · cases hfault
      · next hne =>
        cases hfault
        exact .argumentCount hfunction hne
    · next hkind =>
      cases hfault
      refine .undeclaredFunction fun count? hfunction => ?_
      obtain ⟨arity, hfound, -⟩ := (h.function name count?).mpr hfunction
      exact hkind arity hfound
  · intro hfaulty
    cases hfaulty with
    | undeclaredFunction hnone =>
      split
      · next arity hkind =>
        exact absurd ((h.function name arity.count?).mp ⟨arity, hkind, rfl⟩) (hnone _)
      · rfl
    | argumentCount hfunction hne =>
      obtain ⟨arity, hkind, hcount⟩ := (h.function name _).mpr hfunction
      rw [hkind]
      simp only [hcount, Option.bind_some, if_neg hne]

/-- A declaration is refused if its name has been declared before. -/
theorem define_eq_error_iff (symbol : Symbol) (fault : SemanticFault) :
    table.define symbol = .error fault ↔
      IsDeclared history symbol.name ∧ fault = .redeclared symbol.nameKind symbol.name := by
  rw [SymbolTable.define_eq, ← h.declared]
  split
  · next hsome => simp [hsome, eq_comm]
  · next hnone => simp [hnone]

/-- **A fault depends on nothing but the history.** -/
theorem fault?_eq_some_iff (step : Step) (fault : SemanticFault) :
    step.event.fault? table = some fault ↔ Faulty history step fault := by
  have hdefine {symbol : Symbol} (hsymbol : step.event.symbol? = some symbol) :=
    (fault?_eq_some_iff_of_symbol? fault hsymbol).trans (h.define_eq_error_iff symbol fault)
  cases step with
  | declareVariable name =>
    refine (hdefine rfl).trans ⟨?_, ?_⟩
    · rintro ⟨hdeclared, rfl⟩
      exact .redeclaredVariable hdeclared
    · intro hfaulty
      cases hfaulty with
      | redeclaredVariable hdeclared => exact ⟨hdeclared, rfl⟩
  | declareFunction name params =>
    refine (hdefine rfl).trans ⟨?_, ?_⟩
    · rintro ⟨hdeclared, rfl⟩
      exact .redeclaredFunction hdeclared
    · intro hfaulty
      cases hfaulty with
      | redeclaredFunction hdeclared => exact ⟨hdeclared, rfl⟩
  | declareParam name =>
    refine (hdefine rfl).trans ⟨?_, ?_⟩
    · rintro ⟨hdeclared, rfl⟩
      exact .redeclaredParam hdeclared
    · intro hfaulty
      cases hfaulty with
      | redeclaredParam hdeclared => exact ⟨hdeclared, rfl⟩
  | gainValue name =>
    constructor
    · intro hfault
      cases hfault
    · intro hfaulty
      cases hfaulty
  | use name => exact h.useFault?_eq_some_iff name fault
  | assignTo name =>
    have hnone : (table.lookup? name).isNone ↔ ¬ IsDeclared history name := by
      rw [← h.declared, SymbolTable.kind?, Option.isSome_map, Option.isNone_iff_eq_none,
        Option.not_isSome_iff_eq_none]
    refine Option.ite_none_right_eq_some.trans ⟨?_, ?_⟩
    · rintro ⟨hnew, ⟨⟩⟩
      exact .undeclaredAssignment (hnone.mp hnew)
    · intro hfaulty
      cases hfaulty with
      | undeclaredAssignment hnew => exact ⟨hnone.mpr hnew, rfl⟩
  | call name count => exact h.callFault?_eq_some_iff name count fault
  | jump word around =>
    refine Option.ite_none_left_eq_some.trans ⟨?_, ?_⟩
    · rintro ⟨hloop, ⟨⟩⟩
      exact .jumpOutsideLoop fun hhead => hloop (decide_eq_true hhead)
    · intro hfaulty
      cases hfaulty with
      | jumpOutsideLoop hloop => exact ⟨fun hhead => hloop (of_decide_eq_true hhead), rfl⟩
  | giveBack around =>
    refine Option.ite_none_left_eq_some.trans ⟨?_, ?_⟩
    · rintro ⟨hfunction, ⟨⟩⟩
      exact .returnOutsideFunction fun hmem => hfunction (decide_eq_true hmem)
    · intro hfaulty
      cases hfaulty with
      | returnOutsideFunction hfunction =>
        exact ⟨fun hmem => hfunction (of_decide_eq_true hmem), rfl⟩

/-- **The check of a list of steps finds exactly the faults of its reading.** -/
theorem reading_iff (steps : List Step) (faults : List SemanticFault) :
    Reading history steps faults ↔ faults = eventFaults table (steps.map Step.event) := by
  induction steps generalizing history table faults with
  | nil =>
    constructor
    · rintro ⟨⟩
      rfl
    · rintro rfl
      exact .nil
  | cons step rest ih =>
    have hrest := ih (h.step step)
    have hfaulty := h.fault?_eq_some_iff step
    rw [List.map_cons, eventFaults]
    cases hfault : step.event.fault? table with
    | none =>
      have hclean : ∀ fault, ¬ Faulty history step fault := by
        intro fault hf
        rw [← hfaulty, hfault] at hf
        cases hf
      constructor
      · rintro (_ | ⟨hf, -⟩ | ⟨-, hreading⟩)
        · exact absurd hf (hclean _)
        · exact (hrest _).mp hreading
      · intro hfaults
        exact .clean hclean ((hrest _).mpr hfaults)
    | some fault =>
      have hf := (hfaulty fault).mp hfault
      constructor
      · rintro (_ | ⟨hf', hreading⟩ | ⟨hclean, -⟩)
        · rw [← hfaulty, hfault] at hf'
          cases hf'
          rw [(hrest _).mp hreading]
          rfl
        · exact absurd hf (hclean fault)
      · rintro rfl
        exact .faulty hf ((hrest _).mpr rfl)

theorem readingInTurn_iff_checkInTurn (programs : List Program)
    (faults : List (List SemanticFault)) :
    ReadingInTurn history programs faults ↔ faults = checkInTurn table programs := by
  induction programs generalizing history table faults with
  | nil =>
    constructor
    · rintro ⟨⟩
      rfl
    · rintro rfl
      exact .nil
  | cons program rest ih =>
    have hrun : Remembers (history ++ steps program) (tableAfter table program.events) := by
      rw [← map_event_steps]
      exact h.run
    have hfirst := h.reading_iff (steps program)
    rw [map_event_steps] at hfirst
    constructor
    · rintro (_ | ⟨hreading, hrest⟩)
      rw [(hfirst _).mp hreading, (ih hrun _).mp hrest]
      rfl
    · rintro rfl
      exact .cons ((hfirst _).mpr rfl) ((ih hrun _).mpr rfl)

end Remembers

/-- The faults that are found in a script are those of its reading. -/
theorem reading_semanticFaults (program : Program) :
    Reading [] (steps program) (semanticFaults program) := by
  rw [remembers_builtins.reading_iff, map_event_steps]
  rfl

/-- The faults that are found in scripts checked one after another are those of their reading, in
the order of the text, with none left out, added or repeated. -/
theorem readingInTurn_iff (programs : List Program) (faults : List (List SemanticFault)) :
    ReadingInTurn [] programs faults ↔ faults = checkInTurn .builtins programs := by
  exact remembers_builtins.readingInTurn_iff_checkInTurn programs faults

end Scope

end Offside
