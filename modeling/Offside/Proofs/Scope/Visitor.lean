import Offside.Proofs.Scope.History
import Offside.Scope.Visitor

/-!
# Walking through a script meets its events

A `Visitor` keeps count of the loops and functions around it, where `Stmt.events` is told what
surrounds a statement. Both come to the same (`Stmt.meets_visit`): a visitor meets the events of a
statement in the surroundings that its counts tell, and **the counts are those from before when it
has been through the statement**, whatever loops and functions were opened on the way.

So a visitor finds in a script what `Program.check` finds, and keeps the same table for the next one
(`Visitor.analyze_eq`, `Visitor.faultsInTurn_eq`).
-/

namespace Offside

/-! ### Events in a row -/

theorem tableAfter_append (table : SymbolTable) (events others : List Event) :
    tableAfter table (events ++ others) = tableAfter (tableAfter table events) others :=
  List.foldl_append

theorem eventFaults_append (table : SymbolTable) (events others : List Event) :
    eventFaults table (events ++ others) =
      eventFaults table events ++ eventFaults (tableAfter table events) others := by
  induction events generalizing table with
  | nil => rfl
  | cons event rest ih =>
    rw [List.cons_append, eventFaults, eventFaults, ih, List.append_assoc]
    rfl

namespace Visitor

/-- The visitor after it has met these events. -/
def meet (visitor : Visitor) (events : List Event) : Visitor :=
  { visitor with
    table := tableAfter visitor.table events
    faults := visitor.faults ++ eventFaults visitor.table events }

/-- What the counts tell about the place at which the visitor is. -/
def around (visitor : Visitor) : Surroundings :=
  ⟨decide (visitor.loops ≠ 0), decide (visitor.functions ≠ 0)⟩

variable (visitor : Visitor)

theorem meet_nil : visitor.meet [] = visitor := by
  simp [meet, tableAfter, eventFaults]

theorem meet_append (events others : List Event) :
    visitor.meet (events ++ others) = (visitor.meet events).meet others := by
  have hfaults (xs ys : List SemanticFault) : visitor.faults ++ (xs ++ ys) =
      visitor.faults ++ xs ++ ys := by
    apply Array.toList_inj.mp
    simp only [Array.toList_appendList, List.append_assoc]
  simp only [meet, tableAfter_append, eventFaults_append, hfaults]

theorem meet_singleton (event : Event) :
    visitor.meet [event] =
      { visitor with
        table := event.update visitor.table
        faults := visitor.faults ++ (event.fault? visitor.table).toList } := by
  simp only [meet, eventFaults, List.append_nil, tableAfter, List.foldl_cons, List.foldl_nil]

end Visitor

/-! ### Single steps -/

namespace Visit

/-- Wherever the visitor is, the step meets the events that are given for that place, and has no
other effect. -/
def Meets (visit : Visit) (events : Surroundings → List Event) : Prop :=
  ∀ visitor : Visitor, visit visitor = ((), visitor.meet (events visitor.around))

theorem meets_nothing : Meets (pure ()) fun _ => [] := fun visitor =>
  congrArg (Prod.mk ()) visitor.meet_nil.symm

/-- One step after another. Meeting events does not change the place, so that the second step takes
place in the same surroundings as the first. -/
theorem Meets.andThen {first second : Visit} {events others : Surroundings → List Event}
    (hfirst : first.Meets events) (hsecond : second.Meets others) :
    Meets (do first; second) fun around => events around ++ others around := by
  intro visitor
  change second (first visitor).2 = _
  rw [hfirst, hsecond, Visitor.meet_append]
  rfl

/-- A step that only looks for a fault, against an event that changes no table. -/
theorem meets_check {fault? : Visitor → Option SemanticFault} {event : Surroundings → Event}
    (hupdate : ∀ around table, (event around).update table = table)
    (hfault : ∀ visitor, fault? visitor = (event visitor.around).fault? visitor.table) :
    Meets (check fault?) fun around => [event around] := by
  intro visitor
  rw [Visitor.meet_singleton, hupdate, ← hfault]
  rfl

theorem meets_use (name : String) : Meets (use name) fun _ => [.use name] :=
  meets_check (fun _ _ => rfl) fun _ => rfl

theorem meets_assignTo (name : String) : Meets (assignTo name) fun _ => [.assignTo name] :=
  meets_check (fun _ _ => rfl) fun _ => rfl

theorem meets_call (name : String) (count : Nat) :
    Meets (call name count) fun _ => [.call name count] :=
  meets_check (fun _ _ => rfl) fun _ => rfl

theorem meets_jump (word : String) :
    Meets (jump word) fun around => [.jump word around.inLoop] :=
  meets_check (fun _ _ => rfl) fun visitor => by
    by_cases h : visitor.loops = 0 <;> simp [Event.fault?, Visitor.around, h]

theorem meets_giveBack : Meets giveBack fun around => [.giveBack around.inFunction] :=
  meets_check (fun _ _ => rfl) fun visitor => by
    by_cases h : visitor.functions = 0 <;> simp [Event.fault?, Visitor.around, h]

theorem meets_gainValue (name : String) : Meets (gainValue name) fun _ => [.gainValue name] := by
  intro visitor
  have hfault : Event.fault? visitor.table (.gainValue name) = none := rfl
  rw [Visitor.meet_singleton, hfault, Option.toList_none, Array.appendList_nil]
  rfl

/-- A declaration is refused by the table exactly where its event is at fault. -/
theorem define_eq_of_symbol? {event : Event} {symbol : Symbol}
    (hsymbol : event.symbol? = some symbol) (visitor : Visitor) :
    define symbol visitor = ((), { visitor with
      table := (visitor.table.define symbol).toOption.getD visitor.table
      faults := visitor.faults ++ (event.fault? visitor.table).toList }) := by
  have hfault (fault : SemanticFault) : event.fault? visitor.table = some fault ↔
      visitor.table.define symbol = .error fault :=
    Scope.fault?_eq_some_iff_of_symbol? fault hsymbol
  simp only [define, bind, StateT.bind, get, getThe, MonadStateOf.get, StateT.get, pure]
  cases hdefine : visitor.table.define symbol with
  | ok table =>
    have hnone : event.fault? visitor.table = none := by
      refine Option.eq_none_iff_forall_ne_some.mpr fun fault h => ?_
      rw [(hfault fault).mp h] at hdefine
      cases hdefine
    rw [hnone, Option.toList_none, Array.appendList_nil]
    rfl
  | error fault =>
    rw [(hfault fault).mpr hdefine]
    rfl

theorem meets_define {event : Event} {symbol : Symbol} (hsymbol : event.symbol? = some symbol)
    (hvalued : event.valued? = none) : Meets (define symbol) fun _ => [event] := by
  intro visitor
  rw [Visitor.meet_singleton, define_eq_of_symbol? hsymbol, Event.update, hsymbol, hvalued]

/-- The parameters are declared one by one, each with its value. -/
theorem meets_params (names : List String) :
    Meets (params names) fun _ => names.map .declareParam := by
  induction names with
  | nil => exact meets_nothing
  | cons name rest ih =>
    have hparam : Meets (do define ⟨name, .variable true⟩; gainValue name) fun _ =>
        [.declareParam name] := by
      intro visitor
      change gainValue name (define ⟨name, .variable true⟩ visitor).2 = _
      have hsymbol : (Event.declareParam name).symbol? = some ⟨name, .variable true⟩ := rfl
      rw [Visitor.meet_singleton, define_eq_of_symbol? hsymbol]
      rfl
    exact hparam.andThen ih

variable {body : Visit} {events : Surroundings → List Event}

/-- The count of loops is back when the body of a loop has been visited. -/
theorem Meets.inLoop (h : body.Meets events) :
    Meets (inLoop body) fun around => events around.loop := by
  intro visitor
  rw [Visit.inLoop, h]
  -- One more than any count is not zero, so the body is told of a loop wherever this one stands.
  rfl

/-- A function is visited out of any loop. Both counts are back when its body has been visited. -/
theorem Meets.inFunction (h : body.Meets events) :
    Meets (inFunction body) fun _ => events .function := by
  intro visitor
  rw [Visit.inFunction, h]
  -- The count of loops is restored from before, that of functions by counting down.
  rfl

end Visit

/-! ### Expressions and statements -/

mutual

theorem Expr.meets_visit : (e : Expr) → e.visit.Meets fun _ => e.events
  | .ident name => Visit.meets_use name
  | .assign target value => by
    have htarget := target.meets_visit
    have hvalue := value.meets_visit
    cases target with
    | ident name =>
      exact (Visit.meets_assignTo name).andThen (hvalue.andThen (Visit.meets_gainValue name))
    | _ => exact htarget.andThen hvalue
  | .binary _ left right => left.meets_visit.andThen right.meets_visit
  | .unary _ operand => operand.meets_visit
  | .call callee arguments =>
    (Visit.meets_call callee arguments.length).andThen (meets_exprsVisit arguments)
  | .number _ => Visit.meets_nothing
  | .string _ => Visit.meets_nothing
  | .boolean _ => Visit.meets_nothing
  | .array elements => meets_exprsVisit elements
  | .index object offset => object.meets_visit.andThen offset.meets_visit
  | .property object _ => object.meets_visit

theorem meets_exprsVisit : (es : List Expr) → (exprsVisit es).Meets fun _ => exprsEvents es
  | [] => Visit.meets_nothing
  | e :: rest => e.meets_visit.andThen (meets_exprsVisit rest)

end

theorem Declaration.meets_visit (d : Declaration) : d.visit.Meets fun _ => d.events := by
  obtain ⟨kind, name, init⟩ := d
  have hdefine : (Visit.define ⟨name, .variable false⟩).Meets fun _ => [.declareVariable name] :=
    Visit.meets_define rfl rfl
  cases init with
  | some value =>
    exact hdefine.andThen (value.meets_visit.andThen (Visit.meets_gainValue name))
  | none => exact hdefine.andThen Visit.meets_nothing

mutual

/-- Whatever a statement opens, it is visited as its events ask for and the visitor is where it was
before. -/
theorem Stmt.meets_visit : (s : Stmt) → s.visit.Meets fun around => s.events around
  | .declare d => d.meets_visit
  | .function name params body =>
    (Visit.meets_define rfl rfl).andThen
      ((Visit.meets_params params).andThen (meets_stmtsVisit body).inFunction)
  | .ifThen condition yes => condition.meets_visit.andThen (meets_stmtsVisit yes)
  | .ifElse condition yes no => by
    have h := condition.meets_visit.andThen ((meets_stmtsVisit yes).andThen (meets_stmtsVisit no))
    -- The events are put together from the left, the steps from the right.
    simp only [← List.append_assoc] at h
    exact h
  | .whileLoop condition body => condition.meets_visit.andThen (meets_stmtsVisit body).inLoop
  | .forLoop init condition update body => by
    have h := init.meets_visit.andThen (condition.meets_visit.andThen
      (update.meets_visit.andThen (meets_stmtsVisit body).inLoop))
    simp only [← List.append_assoc] at h
    exact h
  | .giveBack none => Visit.meets_giveBack
  | .giveBack (some value) => Visit.meets_giveBack.andThen value.meets_visit
  | .breakLoop => Visit.meets_jump "break"
  | .continueLoop => Visit.meets_jump "continue"
  | .expr value => value.meets_visit

theorem meets_stmtsVisit :
    (stmts : List Stmt) → (stmtsVisit stmts).Meets fun around => stmtsEvents around stmts
  | [] => Visit.meets_nothing
  | s :: rest => s.meets_visit.andThen (meets_stmtsVisit rest)

end

/-! ### Whole scripts -/

namespace Visitor

/-- A visitor that is between two scripts finds in the next one what `Program.check` finds, and is
between two scripts again, with the table that is left. -/
theorem analyze_eq (table : SymbolTable) (program : Program) :
    analyze { table } program =
      ((program.check table).faults, { table := (program.check table).table }) := by
  have hvisit := meets_stmtsVisit program.body { table }
  have hfaults : (#[] ++ eventFaults table program.events : Array SemanticFault).toList =
      eventFaults table program.events := Array.toList_appendList
  rw [analyze, hvisit]
  exact Prod.ext hfaults rfl

/-- One visitor for all the scripts checks them in turn. -/
theorem faultsInTurn_eq (table : SymbolTable) (programs : List Program) :
    faultsInTurn { table } programs = checkInTurn table programs := by
  induction programs generalizing table with
  | nil => rfl
  | cons program rest ih =>
    rw [faultsInTurn, analyze_eq, checkInTurn]
    exact congrArg _ (ih _)

end Visitor

end Offside
