import Offside.Proofs.Conversion.Shape
import Offside.Proofs.Parser.Source
import Offside.Proofs.Scope.History

/-!
# The names that a script declares

`Program.declaredNames` lists the variables, functions and parameters of a script. Two things
decide what such a name can be: it is written as a token, so it is an identifier and no keyword of
the script language; and no name is declared twice, where the built-in names count as declared.

* `declaredBy_steps`: these are the names that the steps of the script declare.
* `not_mem_builtinNames_of_reading`: where nothing is at fault, none of them is built in.
* `declaredNames_of_clean` puts both together for a script that is converted without a word. Among
  the names that the output takes for itself this covers `input`, which is built in, and the
  reserved words that are keywords of the script language, too. Other names are not kept free: the
  other reserved words, `print` and `len` can be declared (`taken_names_declared`).
-/

namespace Offside

/-! ### Declared names -/

mutual

/-- The names that a statement declares, in the order of the text. -/
def Stmt.declaredNames : Stmt → List String
  | .declare d => [d.name]
  | .function name params body => name :: (params ++ stmtsDeclaredNames body)
  | .ifThen _ yes => stmtsDeclaredNames yes
  | .ifElse _ yes no => stmtsDeclaredNames yes ++ stmtsDeclaredNames no
  | .whileLoop _ body => stmtsDeclaredNames body
  | .forLoop init _ _ body => init.name :: stmtsDeclaredNames body
  | _ => []

/-- The names that several statements declare. -/
def stmtsDeclaredNames : List Stmt → List String
  | [] => []
  | s :: rest => s.declaredNames ++ stmtsDeclaredNames rest

end

/-- The names that a script declares. -/
def Program.declaredNames (program : Program) : List String :=
  stmtsDeclaredNames program.body

/-! ### They are leaves -/

mutual

theorem Stmt.mem_leaves_of_mem_declaredNames {name : String} :
    (s : Stmt) → name ∈ s.declaredNames → Token.Kind.identifier name ∈ s.leaves
  | .declare d, h => by
    obtain rfl := List.mem_singleton.mp h
    exact List.mem_cons_self
  | .function _ params body, h => by
    rw [Stmt.leaves]
    rcases List.mem_cons.mp h with rfl | h
    · exact List.mem_cons_self
    · refine List.mem_cons_of_mem _ (List.mem_append.mpr ?_)
      rcases List.mem_append.mp h with h | h
      · exact .inl (List.mem_map_of_mem h)
      · exact .inr (mem_stmtsLeaves_of_mem_declaredNames body h)
  | .ifThen condition yes, h =>
    List.mem_append_right _ (mem_stmtsLeaves_of_mem_declaredNames yes h)
  | .ifElse condition yes no, h => by
    refine List.mem_append_right _ (List.mem_append.mpr ?_)
    rcases List.mem_append.mp h with h | h
    · exact .inl (mem_stmtsLeaves_of_mem_declaredNames yes h)
    · exact .inr (mem_stmtsLeaves_of_mem_declaredNames no h)
  | .whileLoop condition body, h =>
    List.mem_append_right _ (mem_stmtsLeaves_of_mem_declaredNames body h)
  | .forLoop init condition update body, h => by
    rw [Stmt.leaves]
    rcases List.mem_cons.mp h with rfl | h
    · exact List.mem_append_left _ List.mem_cons_self
    · have hbody := mem_stmtsLeaves_of_mem_declaredNames body h
      exact List.mem_append_right _ (List.mem_append_right _ (List.mem_append_right _ hbody))

theorem mem_stmtsLeaves_of_mem_declaredNames {name : String} :
    (body : List Stmt) → name ∈ stmtsDeclaredNames body →
      Token.Kind.identifier name ∈ stmtsLeaves body
  | s :: rest, h => by
    refine List.mem_append.mpr ?_
    rcases List.mem_append.mp h with h | h
    · exact .inl (s.mem_leaves_of_mem_declaredNames h)
    · exact .inr (mem_stmtsLeaves_of_mem_declaredNames rest h)

end

namespace Scope

/-! ### They are declared by the steps -/

/-- The names that the steps declare, in their order. -/
def declaredBy (steps : List Step) : List String :=
  steps.filterMap Step.declared?

@[simp]
theorem declaredBy_nil : declaredBy [] = [] := rfl

@[simp]
theorem declaredBy_cons (step : Step) (rest : List Step) :
    declaredBy (step :: rest) = step.declared?.toList ++ declaredBy rest := by
  rw [declaredBy, List.filterMap_cons]
  cases step.declared? <;> rfl

@[simp]
theorem declaredBy_append (steps others : List Step) :
    declaredBy (steps ++ others) = declaredBy steps ++ declaredBy others :=
  List.filterMap_append

mutual

/-- Expressions declare nothing. -/
theorem declaredBy_exprSteps : (e : Expr) → declaredBy (exprSteps e) = []
  | .assign target value => by
    have htarget := declaredBy_exprSteps target
    have hvalue := declaredBy_exprSteps value
    cases target with
    | ident name => simp [exprSteps, hvalue, Step.declared?]
    | _ => rw [exprSteps, declaredBy_append, htarget, hvalue] <;> simp
  | .binary op left right => by
    simp [exprSteps, declaredBy_exprSteps left, declaredBy_exprSteps right]
  | .unary op operand => by
    rw [exprSteps, declaredBy_exprSteps operand]
  | .call callee arguments => by
    simp [exprSteps, declaredBy_exprsSteps arguments, Step.declared?]
  | .ident name => rfl
  | .number value => rfl
  | .string raw => rfl
  | .boolean value => rfl
  | .array elements => by
    rw [exprSteps, declaredBy_exprsSteps elements]
  | .index object index => by
    simp [exprSteps, declaredBy_exprSteps object, declaredBy_exprSteps index]
  | .property object name => by
    rw [exprSteps, declaredBy_exprSteps object]

theorem declaredBy_exprsSteps : (es : List Expr) → declaredBy (exprsSteps es) = []
  | [] => rfl
  | e :: others => by
    simp [exprsSteps, declaredBy_exprSteps e, declaredBy_exprsSteps others]

end

theorem declaredBy_declarationSteps (d : Declaration) :
    declaredBy (declarationSteps d) = [d.name] := by
  unfold declarationSteps
  cases d.init with
  | none => rfl
  | some value => simp [declaredBy_exprSteps, Step.declared?]

theorem declaredBy_params (params : List String) :
    declaredBy (params.map .declareParam) = params := by
  rw [declaredBy, List.filterMap_map]
  exact List.filterMap_some

mutual

theorem declaredBy_stmtSteps (around : List Encloser) :
    (s : Stmt) → declaredBy (stmtSteps around s) = s.declaredNames
  | .declare d => declaredBy_declarationSteps d
  | .function name params body => by
    simp [stmtSteps, Stmt.declaredNames, Step.declared?, declaredBy_params,
      declaredBy_stmtsSteps _ body]
  | .ifThen condition yes => by
    simp [stmtSteps, Stmt.declaredNames, declaredBy_exprSteps, declaredBy_stmtsSteps _ yes]
  | .ifElse condition yes no => by
    simp [stmtSteps, Stmt.declaredNames, declaredBy_exprSteps, declaredBy_stmtsSteps _ yes,
      declaredBy_stmtsSteps _ no]
  | .whileLoop condition body => by
    simp [stmtSteps, Stmt.declaredNames, declaredBy_exprSteps, declaredBy_stmtsSteps _ body]
  | .forLoop init condition update body => by
    simp [stmtSteps, Stmt.declaredNames, declaredBy_declarationSteps, declaredBy_exprSteps,
      declaredBy_stmtsSteps _ body]
  | .giveBack none => rfl
  | .giveBack (some value) => by
    simp [stmtSteps, Stmt.declaredNames, declaredBy_exprSteps, Step.declared?]
  | .breakLoop => rfl
  | .continueLoop => rfl
  | .expr value => declaredBy_exprSteps value

theorem declaredBy_stmtsSteps (around : List Encloser) :
    (body : List Stmt) → declaredBy (stmtsSteps around body) = stmtsDeclaredNames body
  | [] => rfl
  | s :: rest => by
    rw [stmtsSteps, stmtsDeclaredNames, declaredBy_append, declaredBy_stmtSteps around s,
      declaredBy_stmtsSteps around rest]

end

theorem declaredBy_steps (program : Program) :
    declaredBy (steps program) = program.declaredNames :=
  declaredBy_stmtsSteps [] program.body

/-- It is a fault to declare what is declared. -/
theorem exists_faulty_of_isDeclared {history : List Step} {step : Step} {name : String}
    (hstep : step.declared? = some name) (h : IsDeclared history name) :
    ∃ fault, Faulty history step fault := by
  cases step with
  | declareVariable _ =>
    cases hstep
    exact ⟨_, .redeclaredVariable h⟩
  | declareFunction _ _ =>
    cases hstep
    exact ⟨_, .redeclaredFunction h⟩
  | declareParam _ =>
    cases hstep
    exact ⟨_, .redeclaredParam h⟩
  | _ => cases hstep

/-- Steps without a fault declare no built-in name. -/
theorem not_mem_builtinNames_of_reading {history : List Step} {steps : List Step}
    (h : Reading history steps []) :
    ∀ name ∈ declaredBy steps, name ∉ builtinNames := by
  induction steps generalizing history with
  | nil => exact fun _ hname => absurd hname List.not_mem_nil
  | cons step rest ih =>
    cases h with
    | clean hclean hrest =>
      intro name hname
      rw [declaredBy_cons] at hname
      rcases List.mem_append.mp hname with hname | hname
      · intro hbuiltin
        have hdeclared := Option.mem_toList.mp hname
        obtain ⟨fault, hfault⟩ := exists_faulty_of_isDeclared hdeclared (.inl hbuiltin)
        exact hclean fault hfault
      · exact ih hrest name hname

/-- Steps without a fault declare no name twice, and none that is declared. -/
theorem nodup_declaredBy_of_reading {history steps : List Step} (h : Reading history steps []) :
    (declaredBy steps).Nodup ∧ ∀ name ∈ declaredBy steps, ¬ IsDeclared history name := by
  induction steps generalizing history with
  | nil => exact ⟨.nil, fun _ hname => absurd hname List.not_mem_nil⟩
  | cons step rest ih =>
    cases h with
    | clean hclean hrest =>
      obtain ⟨hnodup, hnew⟩ := ih hrest
      have hlater : ∀ name ∈ declaredBy rest,
          ¬ IsDeclared history name ∧ step.declared? ≠ some name := by
        intro name hname
        have hnot := hnew name hname
        rwa [isDeclared_append, not_or] at hnot
      rw [declaredBy_cons]
      cases hstep : step.declared? with
      | none => exact ⟨hnodup, fun name hname => (hlater name hname).1⟩
      | some first =>
        have hfirst : ¬ IsDeclared history first := fun hdeclared =>
          let ⟨fault, hfault⟩ := exists_faulty_of_isDeclared hstep hdeclared
          hclean fault hfault
        refine ⟨List.nodup_cons.mpr ⟨fun hmem => (hlater first hmem).2 hstep, hnodup⟩, ?_⟩
        exact List.forall_mem_cons.mpr ⟨hfirst, fun name hname => (hlater name hname).1⟩

theorem nodup_declaredNames_of_semanticFaults {program : Program}
    (h : semanticFaults program = []) : program.declaredNames.Nodup := by
  have hreading : Reading [] (steps program) [] := h ▸ reading_semanticFaults program
  rw [← declaredBy_steps]
  exact (nodup_declaredBy_of_reading hreading).1

theorem not_mem_builtinNames_of_semanticFaults {program : Program}
    (h : semanticFaults program = []) : ∀ name ∈ program.declaredNames, name ∉ builtinNames := by
  have hreading : Reading [] (steps program) [] := h ▸ reading_semanticFaults program
  rw [← declaredBy_steps]
  exact not_mem_builtinNames_of_reading hreading

end Scope

/-! ### Scripts that are converted without a word -/

/-- Without a diagnostic there is a program without semantic faults, and its lines are made. -/
theorem exists_program_of_clean {settings : Settings} {source : String}
    (h : (convert settings source).diagnostics = []) :
    ∃ program, parse (tokens source) = .ok program ∧ semanticFaults program = [] ∧
      (convert settings source).output.isSome := by
  obtain ⟨verdict, hleads⟩ := exists_leadsTo settings source
  have hverdict : verdict.diagnostics = [] := by
    rw [hleads.diagnostics_convert] at h
    exact (List.append_eq_nil_iff.mp h).2
  cases hleads with
  | refused hparse => cases hverdict
  | withheld hparse hwithheld =>
    have hfaults := List.map_eq_nil_iff.mp (List.append_eq_nil_iff.mp hverdict).1
    exact absurd hfaults hwithheld.2
  | made hparse hmade hlayout =>
    have hfaults := List.map_eq_nil_iff.mp (List.append_eq_nil_iff.mp hverdict).1
    refine ⟨_, hparse, hfaults, ?_⟩
    rw [convert_of_layout_ok settings hparse hmade hlayout]
    rfl
  | stopped hparse hmade hlayout => cases (List.append_eq_nil_iff.mp hverdict).2

/-- **What a declared name can be.** If nothing is wrong with a script, each name that it declares
is an identifier of the output language, no keyword of the script language and not built in. So it
is never the name under which `prompt` is called. -/
theorem declaredNames_of_clean {width : Nat} {source : String}
    (h : (convert ⟨.strict, width⟩ source).diagnostics = []) :
    ∃ program, parse (tokens source) = .ok program ∧
      (convert ⟨.strict, width⟩ source).output.isSome ∧
      ∀ name ∈ program.declaredNames,
        Python.isIdentifier name.toList ∧ (∀ keyword : Keyword, keyword.spelling ≠ name) ∧
          name ∉ Scope.builtinNames ∧ name ≠ calleeName "prompt" := by
  obtain ⟨program, hparse, hfaults, houtput⟩ := exists_program_of_clean h
  refine ⟨program, hparse, houtput, fun name hname => ?_⟩
  have hleaf := mem_stmtsLeaves_of_mem_declaredNames program.body hname
  obtain ⟨hidentifier, hkeyword⟩ := isProper_of_mem_leaves hparse _ hleaf
  have hbuiltin := Scope.not_mem_builtinNames_of_semanticFaults hfaults name hname
  have hprompt : calleeName "prompt" ∈ Scope.builtinNames := by decide
  exact ⟨hidentifier, hkeyword, hbuiltin, fun hname => hbuiltin (hname ▸ hprompt)⟩

/-- A function, a parameter and a variable that takes what `prompt` gives. -/
theorem declaredNames_of_clean_of_function :
    let source := "function f(a) \x7b var b = prompt(a); return b; \x7d"
    (convert ⟨.strict, 4⟩ source).diagnostics = [] ∧
      ∃ program, parse (tokens source) = .ok program ∧ program.declaredNames = ["f", "a", "b"] ∧
        ∀ name ∈ ["f", "a", "b"],
          Python.isIdentifier name.toList ∧ (∀ keyword : Keyword, keyword.spelling ≠ name) ∧
            name ∉ Scope.builtinNames ∧ name ≠ calleeName "prompt" := by
  intro source
  have hclean : (convert ⟨.strict, 4⟩ source).diagnostics = [] := by decide +kernel
  have hdeclared : (parse (tokens source)).toOption.map Program.declaredNames =
      some ["f", "a", "b"] := by decide +kernel
  obtain ⟨program, hparse, -, hnames⟩ := declaredNames_of_clean hclean
  rw [hparse] at hdeclared
  have hdeclared : program.declaredNames = ["f", "a", "b"] := Option.some.inj hdeclared
  exact ⟨hclean, program, hparse, hdeclared, hdeclared ▸ hnames⟩

/-- Names that the output takes for itself are declared, and nothing is said about it: a word that
is reserved there, and the names under which it prints and takes a length. The calls that are
written for `console.log` and `length` are then calls of what the script declares. -/
theorem taken_names_declared :
    let reserved := "var def = 1;"
    let printing := "var print = 1; console.log(2);"
    let measuring := "function len(a) \x7b return 7; \x7d var v = [1]; console.log(v.length);"
    let declared := fun source => (parse (tokens source)).toOption.map Program.declaredNames
    let output := fun source => (convert ⟨.strict, 4⟩ source).output
    "def" ∈ Python.reservedWords ∧ calleeName "console.log" = "print" ∧
      (∀ source ∈ [reserved, printing, measuring],
        (convert ⟨.strict, 4⟩ source).diagnostics = []) ∧
      declared reserved = some ["def"] ∧ output reserved = some "def = 1" ∧
      declared printing = some ["print"] ∧ output printing = some "print = 1\nprint(2)" ∧
      declared measuring = some ["len", "a", "v"] ∧
      output measuring = some "def len(a):\n    return 7\nv = [1]\nprint(len(v))" := by
  decide +kernel

end Offside
