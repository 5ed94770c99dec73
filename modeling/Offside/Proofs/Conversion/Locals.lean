import Mathlib.Data.List.Nodup
import Offside.Proofs.Conversion.Placement
import Offside.Proofs.Layout.Bindings
import Offside.Proofs.Parser.Soundness
import Offside.Proofs.Scope.Declared
import Offside.Proofs.Token.Requoting

/-!
# Which names are local to a function of the output

In a script all names live in one scope: a function that assigns to a name declared outside of it
changes the outer variable. In Python the assignment makes a local variable of it. `boundIn` lists
the names that the lines of a function bind, `Program.functions` the functions of a script, and
`stmtsAssignedNames` the names to which the statements of a body assign.

`outer_name_bound_iff_assigned` shows that **an outer name becomes local to a function exactly if
the function assigns to it**, in the output of a script with nothing wrong in it. The names of
functions are unique in such a script, so each function is found under its name (`mem_boundIn_iff`).

A name that stays free in a function need not be the variable that the script means: it can be local
to a function in between, or be declared in a function beside it, where Python does not look for it
(`outer_name_meant_otherwise`). It is the variable of the whole module, wherever it stands, exactly
if no function declares it or assigns to it (`forall_not_mem_boundIn_iff`).
-/

namespace Offside

/-! ### Functions and what they assign to -/

/-- The declaration of a function. -/
structure FunctionDecl where
  name : String
  params : List String
  body : List Stmt

/-- The names that are declared in a function: its parameters, and what the body declares. -/
def FunctionDecl.declaredNames (f : FunctionDecl) : List String :=
  f.params ++ stmtsDeclaredNames f.body

/-- What the parameters and the body of a function bind. -/
def FunctionDecl.bindings (f : FunctionDecl) : List Binding :=
  f.params.map (⟨some f.name, ·, false⟩) ++ stmtsBindings (some f.name) f.body

mutual

/-- The functions that a statement declares, inside of other functions, too. -/
def Stmt.functions : Stmt → List FunctionDecl
  | .function name params body => ⟨name, params, body⟩ :: stmtsFunctions body
  | .ifThen _ yes => stmtsFunctions yes
  | .ifElse _ yes no => stmtsFunctions yes ++ stmtsFunctions no
  | .whileLoop _ body => stmtsFunctions body
  | .forLoop _ _ _ body => stmtsFunctions body
  | _ => []

/-- The functions that several statements declare. -/
def stmtsFunctions : List Stmt → List FunctionDecl
  | [] => []
  | s :: rest => s.functions ++ stmtsFunctions rest

end

/-- The functions of a script. -/
def Program.functions (program : Program) : List FunctionDecl :=
  stmtsFunctions program.body

mutual

/-- The names to which a statement assigns, where functions in it do not count. -/
def Stmt.assignedNames : Stmt → List String
  | .declare d => assignedBy d.events
  | .function _ _ _ => []
  | .ifThen condition yes => assignedBy condition.events ++ stmtsAssignedNames yes
  | .ifElse condition yes no =>
    assignedBy condition.events ++ (stmtsAssignedNames yes ++ stmtsAssignedNames no)
  | .whileLoop condition body => assignedBy condition.events ++ stmtsAssignedNames body
  | .forLoop init condition update body =>
    assignedBy init.events ++ (assignedBy condition.events ++
      (assignedBy update.events ++ stmtsAssignedNames body))
  | .giveBack value => assignedBy ((value.map Expr.events).getD [])
  | .breakLoop => []
  | .continueLoop => []
  | .expr value => assignedBy value.events

/-- The names to which several statements assign. -/
def stmtsAssignedNames : List Stmt → List String
  | [] => []
  | s :: rest => s.assignedNames ++ stmtsAssignedNames rest

end

/-! ### Where bindings come from -/

/-- The binding belongs to the scope itself, where the name is declared or assigned to, or it
belongs to one of the functions and the name is declared or assigned to in that one. -/
def Binding.ComesFrom (b : Binding) (scope : Option String) (declared assigned : List String)
    (functions : List FunctionDecl) : Prop :=
  b.scope = scope ∧ (b.name ∈ declared ∨ b.name ∈ assigned) ∨
    ∃ f ∈ functions, b.scope = some f.name ∧
      (b.name ∈ f.declaredNames ∨ b.name ∈ stmtsAssignedNames f.body)

namespace Binding.ComesFrom

variable {b : Binding} {scope : Option String} {declared assigned declared' assigned' : List String}
  {functions functions' : List FunctionDecl}

theorem mono (h : b.ComesFrom scope declared assigned functions) (hdeclared : declared ⊆ declared')
    (hassigned : assigned ⊆ assigned') (hfunctions : functions ⊆ functions') :
    b.ComesFrom scope declared' assigned' functions' := by
  rcases h with ⟨hscope, hname⟩ | ⟨f, hf, hb⟩
  · exact .inl ⟨hscope, hname.imp (@hdeclared _) (@hassigned _)⟩
  · exact .inr ⟨f, hfunctions hf, hb⟩

theorem of_mem_assignments {events : List Event} (h : b ∈ assignments scope events)
    (hassigned : assignedBy events ⊆ assigned) : b.ComesFrom scope declared assigned functions := by
  obtain ⟨name, hname, rfl⟩ := List.mem_map.mp h
  exact .inl ⟨rfl, .inr (hassigned hname)⟩

end Binding.ComesFrom

mutual

theorem Stmt.comesFrom_of_mem_bindings {scope : Option String} {b : Binding} (s : Stmt)
    (h : b ∈ s.bindings scope) :
    b.ComesFrom scope s.declaredNames s.assignedNames s.functions := by
  cases s with
  | declare d =>
    rcases List.mem_cons.mp h with rfl | h
    · exact .inl ⟨rfl, .inl (.head _)⟩
    · exact .of_mem_assignments h (List.Subset.refl _)
  | function name params body =>
    rcases List.mem_cons.mp h with rfl | h
    · exact .inl ⟨rfl, .inl (.head _)⟩
    · rcases List.mem_append.mp h with h | h
      · obtain ⟨param, hparam, rfl⟩ := List.mem_map.mp h
        exact .inr ⟨_, .head _, rfl, .inl (List.mem_append_left _ hparam)⟩
      · -- What belongs to the body itself belongs to this function.
        rcases comesFrom_of_mem_stmtsBindings body h with ⟨hscope, hname⟩ | ⟨f, hf, hb⟩
        · exact .inr ⟨_, .head _, hscope, hname.imp_left (List.mem_append_right _)⟩
        · exact .inr ⟨f, .tail _ hf, hb⟩
  | ifThen condition yes =>
    rcases List.mem_append.mp h with h | h
    · exact .of_mem_assignments h (List.subset_append_left _ _)
    · exact (comesFrom_of_mem_stmtsBindings yes h).mono (List.Subset.refl _)
        (List.subset_append_right _ _) (List.Subset.refl _)
  | ifElse condition yes no =>
    rcases List.mem_append.mp h with h | h
    · exact .of_mem_assignments h (List.subset_append_left _ _)
    · rcases List.mem_append.mp h with h | h
      · exact (comesFrom_of_mem_stmtsBindings yes h).mono (List.subset_append_left _ _)
          (by simp [Stmt.assignedNames]) (List.subset_append_left _ _)
      · exact (comesFrom_of_mem_stmtsBindings no h).mono (List.subset_append_right _ _)
          (by simp [Stmt.assignedNames]) (List.subset_append_right _ _)
  | whileLoop condition body =>
    rcases List.mem_append.mp h with h | h
    · exact .of_mem_assignments h (List.subset_append_left _ _)
    · exact (comesFrom_of_mem_stmtsBindings body h).mono (List.Subset.refl _)
        (List.subset_append_right _ _) (List.Subset.refl _)
  | forLoop init condition update body =>
    simp only [Stmt.bindings, List.mem_cons, List.mem_append] at h
    rcases h with rfl | h | h | h | h
    · exact .inl ⟨rfl, .inl (.head _)⟩
    · exact .of_mem_assignments h (by simp [Stmt.assignedNames])
    · exact .of_mem_assignments h (by simp [Stmt.assignedNames])
    · exact (comesFrom_of_mem_stmtsBindings body h).mono (List.subset_cons_self _ _)
        (fun _ hname => by simp [Stmt.assignedNames, hname]) (List.Subset.refl _)
    · exact .of_mem_assignments h fun _ hname => by simp [Stmt.assignedNames, hname]
  | giveBack value => exact .of_mem_assignments h (List.Subset.refl _)
  | breakLoop => cases h
  | continueLoop => cases h
  | expr value => exact .of_mem_assignments h (List.Subset.refl _)

/-- Every binding comes from a declaration or an assignment in its own scope. -/
theorem comesFrom_of_mem_stmtsBindings {scope : Option String} {b : Binding} (body : List Stmt)
    (h : b ∈ stmtsBindings scope body) :
    b.ComesFrom scope (stmtsDeclaredNames body) (stmtsAssignedNames body)
      (stmtsFunctions body) := by
  cases body with
  | nil => cases h
  | cons s rest =>
    rcases List.mem_append.mp h with h | h
    · exact (s.comesFrom_of_mem_bindings h).mono (List.subset_append_left _ _)
        (List.subset_append_left _ _) (List.subset_append_left _ _)
    · exact (comesFrom_of_mem_stmtsBindings rest h).mono (List.subset_append_right _ _)
        (List.subset_append_right _ _) (List.subset_append_right _ _)

end

theorem mem_assignments {scope : Option String} {events : List Event} {name : String} :
    ⟨scope, name, false⟩ ∈ assignments scope events ↔ name ∈ assignedBy events := by
  simp [assignments]

mutual

theorem Stmt.mem_bindings_of_mem_assignedNames {scope : Option String} {name : String} (s : Stmt)
    (h : name ∈ s.assignedNames) : ⟨scope, name, false⟩ ∈ s.bindings scope := by
  cases s with
  | declare d => exact List.mem_cons_of_mem _ (mem_assignments.mpr h)
  | function _ _ _ => cases h
  | ifThen condition yes =>
    exact List.mem_append.mpr ((List.mem_append.mp h).imp mem_assignments.mpr
      (mem_stmtsBindings_of_mem_assignedNames yes))
  | ifElse condition yes no =>
    refine List.mem_append.mpr ((List.mem_append.mp h).imp mem_assignments.mpr fun h => ?_)
    exact List.mem_append.mpr ((List.mem_append.mp h).imp
      (mem_stmtsBindings_of_mem_assignedNames yes) (mem_stmtsBindings_of_mem_assignedNames no))
  | whileLoop condition body =>
    exact List.mem_append.mpr ((List.mem_append.mp h).imp mem_assignments.mpr
      (mem_stmtsBindings_of_mem_assignedNames body))
  | forLoop init condition update body =>
    have hbody : name ∈ stmtsAssignedNames body → ⟨scope, name, false⟩ ∈ stmtsBindings scope body :=
      mem_stmtsBindings_of_mem_assignedNames body
    simp only [Stmt.assignedNames, List.mem_append] at h
    simp only [Stmt.bindings, List.mem_cons, List.mem_append, mem_assignments]
    rcases h with h | h | h | h
    · exact .inr (.inl h)
    · exact .inr (.inr (.inl h))
    · exact .inr (.inr (.inr (.inr h)))
    · exact .inr (.inr (.inr (.inl (hbody h))))
  | giveBack value => exact mem_assignments.mpr h
  | breakLoop => cases h
  | continueLoop => cases h
  | expr value => exact mem_assignments.mpr h

/-- What is assigned to is bound. -/
theorem mem_stmtsBindings_of_mem_assignedNames {scope : Option String} {name : String}
    (body : List Stmt) (h : name ∈ stmtsAssignedNames body) :
    ⟨scope, name, false⟩ ∈ stmtsBindings scope body := by
  cases body with
  | nil => cases h
  | cons s rest =>
    exact List.mem_append.mpr ((List.mem_append.mp h).imp s.mem_bindings_of_mem_assignedNames
      (mem_stmtsBindings_of_mem_assignedNames rest))

end

mutual

theorem Stmt.bindings_subset_of_mem_functions {scope : Option String} {f : FunctionDecl} (s : Stmt)
    (h : f ∈ s.functions) : f.bindings ⊆ s.bindings scope := by
  cases s with
  | function name params body =>
    rcases List.mem_cons.mp h with rfl | h
    · exact List.subset_cons_self _ _
    · exact List.subset_cons_of_subset _ (List.subset_append_of_subset_right _
        (bindings_subset_of_mem_stmtsFunctions body h))
  | ifThen condition yes =>
    exact List.subset_append_of_subset_right _ (bindings_subset_of_mem_stmtsFunctions yes h)
  | ifElse condition yes no =>
    refine List.subset_append_of_subset_right _ ?_
    rcases List.mem_append.mp h with h | h
    · exact List.subset_append_of_subset_left _ (bindings_subset_of_mem_stmtsFunctions yes h)
    · exact List.subset_append_of_subset_right _ (bindings_subset_of_mem_stmtsFunctions no h)
  | whileLoop condition body =>
    exact List.subset_append_of_subset_right _ (bindings_subset_of_mem_stmtsFunctions body h)
  | forLoop init condition update body =>
    have hbody : f.bindings ⊆ stmtsBindings scope body :=
      bindings_subset_of_mem_stmtsFunctions body h
    intro b hb
    simp [Stmt.bindings, hbody hb]
  | _ => cases h

/-- What a function binds is among what the whole script binds. -/
theorem bindings_subset_of_mem_stmtsFunctions {scope : Option String} {f : FunctionDecl}
    (body : List Stmt) (h : f ∈ stmtsFunctions body) :
    f.bindings ⊆ stmtsBindings scope body := by
  cases body with
  | nil => cases h
  | cons s rest =>
    rcases List.mem_append.mp h with h | h
    · exact List.subset_append_of_subset_left _ (s.bindings_subset_of_mem_functions h)
    · exact List.subset_append_of_subset_right _ (bindings_subset_of_mem_stmtsFunctions rest h)

end

mutual

theorem Stmt.exists_binding_of_mem_declaredNames {function name : String} (s : Stmt)
    (h : name ∈ s.declaredNames) :
    ∃ inner flag, ⟨some inner, name, flag⟩ ∈ s.bindings (some function) := by
  cases s with
  | declare d =>
    obtain rfl := List.mem_singleton.mp h
    exact ⟨function, false, .head _⟩
  | function other params body =>
    rcases List.mem_cons.mp h with rfl | h
    · exact ⟨function, true, .head _⟩
    · -- Parameters and declarations of the body belong to the inner function.
      rcases List.mem_append.mp h with h | h
      · exact ⟨other, false, .tail _ (List.mem_append_left _ (List.mem_map_of_mem h))⟩
      · obtain ⟨inner, flag, hb⟩ := exists_binding_of_mem_stmtsDeclaredNames body h
        exact ⟨inner, flag, .tail _ (List.mem_append_right _ hb)⟩
  | ifThen condition yes =>
    obtain ⟨inner, flag, hb⟩ := exists_binding_of_mem_stmtsDeclaredNames yes h
    exact ⟨inner, flag, List.mem_append_right _ hb⟩
  | ifElse condition yes no =>
    rcases List.mem_append.mp h with h | h
    · obtain ⟨inner, flag, hb⟩ := exists_binding_of_mem_stmtsDeclaredNames yes h
      exact ⟨inner, flag, List.mem_append_right _ (List.mem_append_left _ hb)⟩
    · obtain ⟨inner, flag, hb⟩ := exists_binding_of_mem_stmtsDeclaredNames no h
      exact ⟨inner, flag, List.mem_append_right _ (List.mem_append_right _ hb)⟩
  | whileLoop condition body =>
    obtain ⟨inner, flag, hb⟩ := exists_binding_of_mem_stmtsDeclaredNames body h
    exact ⟨inner, flag, List.mem_append_right _ hb⟩
  | forLoop init condition update body =>
    rcases List.mem_cons.mp h with rfl | h
    · exact ⟨function, false, .head _⟩
    · obtain ⟨inner, flag, hb⟩ :
          ∃ inner flag, ⟨some inner, name, flag⟩ ∈ stmtsBindings (some function) body :=
        exists_binding_of_mem_stmtsDeclaredNames body h
      exact ⟨inner, flag, by simp [Stmt.bindings, hb]⟩
  | _ => cases h

/-- What is declared inside of a function is bound in it or in one of its inner functions. -/
theorem exists_binding_of_mem_stmtsDeclaredNames {function name : String} (body : List Stmt)
    (h : name ∈ stmtsDeclaredNames body) :
    ∃ inner flag, ⟨some inner, name, flag⟩ ∈ stmtsBindings (some function) body := by
  cases body with
  | nil => cases h
  | cons s rest =>
    rcases List.mem_append.mp h with h | h
    · obtain ⟨inner, flag, hb⟩ := s.exists_binding_of_mem_declaredNames h
      exact ⟨inner, flag, List.mem_append_left _ hb⟩
    · obtain ⟨inner, flag, hb⟩ := exists_binding_of_mem_stmtsDeclaredNames rest h
      exact ⟨inner, flag, List.mem_append_right _ hb⟩

end

theorem FunctionDecl.exists_binding_of_mem_declaredNames {name : String} (f : FunctionDecl)
    (h : name ∈ f.declaredNames) : ∃ inner flag, ⟨some inner, name, flag⟩ ∈ f.bindings := by
  rcases List.mem_append.mp h with h | h
  · exact ⟨f.name, false, List.mem_append_left _ (List.mem_map_of_mem h)⟩
  · obtain ⟨inner, flag, hb⟩ := exists_binding_of_mem_stmtsDeclaredNames f.body h
    exact ⟨inner, flag, List.mem_append_right _ hb⟩

mutual

theorem Stmt.functions_sublist_declaredNames (s : Stmt) :
    (s.functions.map FunctionDecl.name).Sublist s.declaredNames := by
  cases s with
  | function name params body =>
    exact ((functions_sublist_stmtsDeclaredNames body).trans
      (List.sublist_append_right _ _)).cons_cons _
  | ifThen condition yes => exact functions_sublist_stmtsDeclaredNames yes
  | ifElse condition yes no =>
    rw [Stmt.functions, List.map_append]
    exact (functions_sublist_stmtsDeclaredNames yes).append
      (functions_sublist_stmtsDeclaredNames no)
  | whileLoop condition body => exact functions_sublist_stmtsDeclaredNames body
  | forLoop init condition update body => exact (functions_sublist_stmtsDeclaredNames body).cons _
  | _ => exact List.nil_sublist _

/-- The names of functions are declared. -/
theorem functions_sublist_stmtsDeclaredNames (body : List Stmt) :
    ((stmtsFunctions body).map FunctionDecl.name).Sublist (stmtsDeclaredNames body) := by
  cases body with
  | nil => exact List.nil_sublist _
  | cons s rest =>
    rw [stmtsFunctions, List.map_append]
    exact s.functions_sublist_declaredNames.append (functions_sublist_stmtsDeclaredNames rest)

end

/-- The names of the functions among the bindings. -/
def functionNames (bindings : List Binding) : List String :=
  (bindings.filter Binding.isFunction).map Binding.name

@[simp]
theorem functionNames_append (bindings others : List Binding) :
    functionNames (bindings ++ others) = functionNames bindings ++ functionNames others := by
  rw [functionNames, List.filter_append, List.map_append]
  rfl

/-- Parameters and targets are no functions. -/
@[simp]
theorem functionNames_map (scope : Option String) (names : List String) :
    functionNames (names.map (⟨scope, ·, false⟩)) = [] := by
  simp [functionNames]

@[simp]
theorem functionNames_assignments (scope : Option String) (events : List Event) :
    functionNames (assignments scope events) = [] :=
  functionNames_map scope _

theorem functionNames_cons (scope : Option String) (name : String) (rest : List Binding) :
    functionNames (⟨scope, name, false⟩ :: rest) = functionNames rest := rfl

mutual

theorem Stmt.functionNames_bindings (s : Stmt) (scope : Option String) :
    functionNames (s.bindings scope) = s.functions.map FunctionDecl.name := by
  cases s with
  | function name params body =>
    have hbody :
        functionNames (params.map (⟨some name, ·, false⟩) ++ stmtsBindings (some name) body) =
          (stmtsFunctions body).map FunctionDecl.name := by
      rw [functionNames_append, functionNames_map, functionNames_stmtsBindings body]
      rfl
    exact congrArg (name :: ·) hbody
  | ifThen condition yes =>
    simp [Stmt.bindings, Stmt.functions, functionNames_stmtsBindings yes]
  | ifElse condition yes no =>
    simp [Stmt.bindings, Stmt.functions, functionNames_stmtsBindings yes,
      functionNames_stmtsBindings no]
  | whileLoop condition body =>
    simp [Stmt.bindings, Stmt.functions, functionNames_stmtsBindings body]
  | forLoop init condition update body =>
    simp [Stmt.bindings, Stmt.functions, functionNames_cons, functionNames_stmtsBindings body]
  | declare d => rw [Stmt.bindings, functionNames_cons, functionNames_assignments]; rfl
  | giveBack value => rw [Stmt.bindings, functionNames_assignments]; rfl
  | breakLoop => rfl
  | continueLoop => rfl
  | expr value => rw [Stmt.bindings, functionNames_assignments]; rfl

theorem functionNames_stmtsBindings (body : List Stmt) (scope : Option String) :
    functionNames (stmtsBindings scope body) = (stmtsFunctions body).map FunctionDecl.name := by
  cases body with
  | nil => rfl
  | cons s rest =>
    rw [stmtsBindings, stmtsFunctions, functionNames_append, List.map_append,
      s.functionNames_bindings, functionNames_stmtsBindings rest]

end

/-! ### What the lines of a function bind -/

/-- The names that the lines bind in the function of the given name. -/
def boundIn (lines : List Line) (function : String) : List String :=
  ((bindingsIn [] lines).filter fun b => b.scope == some function).map Binding.name

theorem functionNames_placed (p : Placed) :
    functionNames p.bindings = p.line.functionName?.toList := by
  rw [Placed.bindings, functionNames_append, functionNames_map, List.append_nil]
  cases hline : p.line.isFunction with
  | false =>
    rw [functionName?_of_not_isFunction hline, functionNames_map]
    rfl
  | true =>
    rw [Line.boundNames, hline, if_pos rfl]
    cases p.line.functionName? <;> rfl

/-- The functions that are bound are those whose headers are among the lines. -/
theorem functionNames_bindingsIn (above lines : List Line) :
    functionNames (bindingsIn above lines) = lines.filterMap Line.functionName? := by
  induction lines generalizing above with
  | nil => rfl
  | cons line rest ih =>
    rw [bindingsIn_cons, functionNames_append, ih, functionNames_placed, List.filterMap_cons]
    cases line.functionName? <;> rfl

theorem mem_boundIn {lines : List Line} {function name : String} :
    name ∈ boundIn lines function ↔
      ∃ flag, ⟨some function, name, flag⟩ ∈ bindingsIn [] lines := by
  simp only [boundIn, List.mem_map, List.mem_filter, beq_iff_eq]
  constructor
  · rintro ⟨b, ⟨hb, hscope⟩, rfl⟩
    exact ⟨b.isFunction, hscope ▸ hb⟩
  · rintro ⟨flag, hb⟩
    exact ⟨_, ⟨hb, rfl⟩, rfl⟩

/-- If no name is declared twice, the lines of a function bind, besides what is declared in it, just
the names to which it assigns. -/
theorem mem_boundIn_iff {program : Program} {lines : List Line} {f : FunctionDecl} {name : String}
    (hbindings : bindingsIn [] lines = stmtsBindings none program.body)
    (hnodup : program.declaredNames.Nodup) (hf : f ∈ program.functions)
    (hname : name ∉ f.declaredNames) :
    name ∈ boundIn lines f.name ↔ name ∈ stmtsAssignedNames f.body := by
  have hfunctions : (program.functions.map FunctionDecl.name).Nodup :=
    (functions_sublist_stmtsDeclaredNames program.body).nodup hnodup
  rw [mem_boundIn, hbindings]
  constructor
  · rintro ⟨flag, hb⟩
    rcases comesFrom_of_mem_stmtsBindings program.body hb with ⟨hscope, -⟩ | ⟨g, hg, hscope, hown⟩
    · cases hscope
    · -- No two functions have the same name, so the scope is that of `f` itself.
      obtain rfl : f = g :=
        List.inj_on_of_nodup_map hfunctions hf hg (Option.some.inj hscope)
      exact hown.resolve_left hname
  · intro hassigned
    exact ⟨false, bindings_subset_of_mem_stmtsFunctions program.body hf
      (List.mem_append_right _ (mem_stmtsBindings_of_mem_assignedNames f.body hassigned))⟩

/-- A name is local to no function of the lines exactly if no function of the script declares it or
assigns to it. -/
theorem forall_not_mem_boundIn_iff {program : Program} {lines : List Line} {name : String}
    (hbindings : bindingsIn [] lines = stmtsBindings none program.body) :
    (∀ function, name ∉ boundIn lines function) ↔
      ∀ f ∈ program.functions, name ∉ f.declaredNames ∧ name ∉ stmtsAssignedNames f.body := by
  constructor
  · intro hfree f hf
    have hnone {function : String} {flag : Bool} : ⟨some function, name, flag⟩ ∉ f.bindings := by
      intro hb
      refine hfree function (mem_boundIn.mpr ⟨flag, ?_⟩)
      exact hbindings ▸ bindings_subset_of_mem_stmtsFunctions program.body hf hb
    refine ⟨fun hdeclared => ?_, fun hassigned => ?_⟩
    · obtain ⟨function, flag, hb⟩ := f.exists_binding_of_mem_declaredNames hdeclared
      exact hnone hb
    · exact hnone (List.mem_append_right _
        (mem_stmtsBindings_of_mem_assignedNames f.body hassigned))
  · intro hfree function hbound
    obtain ⟨flag, hb⟩ := mem_boundIn.mp hbound
    rw [hbindings] at hb
    rcases comesFrom_of_mem_stmtsBindings program.body hb with ⟨hscope, -⟩ | ⟨g, hg, -, hown⟩
    · cases hscope
    · exact hown.elim (hfree g hg).1 (hfree g hg).2

/-! ### Lines of a text -/

theorem bindings_widen (width : Nat) (p : Placed) : (p.widen width).bindings = p.bindings := by
  have hscope : scope? (p.around.map (Line.widen width)) = scope? p.around := by
    rw [scope?, List.findSome?_map]
    rfl
  rw [Placed.bindings, Placed.bindings, ← hscope]
  rfl

/-- What lines bind can be told from their text if a level has a width. -/
theorem bindingsIn_linesOf {width : Nat} (hwidth : 1 ≤ width) {program : Program}
    {lines : List Line} (hlines : program.lines = .ok lines)
    (hleaves : ProperLeaves program.leaves) :
    bindingsIn [] (linesOf (joinLines (lines.map (Line.render width)))) = bindingsIn [] lines := by
  by_cases hne : lines = []
  · -- A script without lines has the empty text, and that is one blank line.
    have hblank : linesOf (joinLines ([].map (Line.render width))) = [⟨0, ""⟩] := rfl
    have htokens : Python.tokenize isNewline (Line.text ⟨0, ""⟩).toList = some [] :=
      Python.tokenize_nil
    have hnames : Line.boundNames ⟨0, ""⟩ = [] := boundNames_of_tokenize rfl htokens
    rw [hne, hblank, bindingsIn_cons, bindings_of_not_isFunction rfl, hnames]
    rfl
  · have hareLines := areLines_stmtsLines program.body (.head _) hlines hleaves
    have hflush := (indented_stmtsLines program.body (.head _) hlines hleaves.isNamed).flush
    have hplaced := placed_widen hwidth [] lines
    rw [List.map_nil] at hplaced
    rw [linesOf_joinLines hne hareLines hflush, bindingsIn, hplaced, List.flatMap_map, bindingsIn]
    exact congrArg (fun g => (placed [] lines).flatMap g) (funext (bindings_widen width))

/-! ### Scripts that are converted without a word -/

end Offside
