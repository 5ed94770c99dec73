import Offside.Tree

/-!
# What a script does

An `Interpretation` says what expressions and declarations do to a state, of whatever kind the
state is; running a list of statements is then a relation between the state before, the way the run
ends (`Exit`) and the state after (`stmtsRun`). A run that never ends relates to nothing.

* **Loops** follow one rule (`Loop`): test, body, update, and again. A `while` has no update. A
  body that ends by `continue` still has its update run before the next test, one that ends by
  `break` leaves without it, and a `return` passes through.
* **Functions** are opaque: their declaration is some effect on the state, which may depend on what
  the body does, but on nothing else of the body.
-/

namespace Offside

/-! ### Behaviours -/

/-- How a run ends. -/
inductive Exit (Value : Type) where
  | normal
  | broken
  | continued
  | returned (value : Option Value)

/-- The state before, the way a run ends, and the state after. -/
abbrev Behaviour (State Value : Type) : Type :=
  State → Exit Value → State → Prop

namespace Behaviour

variable {State Value : Type}

/-- Change the state and go on. -/
def effect (change : State → State) : Behaviour State Value :=
  fun before outcome after => outcome = .normal ∧ after = change before

/-- End in the given way without a change. -/
def leave (ending : Exit Value) : Behaviour State Value :=
  fun before outcome after => outcome = ending ∧ after = before

/-- One after the other; the second only runs if the first ends normally. -/
def andThen (first second : Behaviour State Value) : Behaviour State Value :=
  fun before outcome after =>
    (∃ between, first before .normal between ∧ second between outcome after) ∨
      outcome ≠ .normal ∧ first before outcome after

/-- One of two, by a test that may change the state. -/
def branch (test : State → Bool × State) (yes no : Behaviour State Value) :
    Behaviour State Value :=
  fun before outcome after =>
    if (test before).1 then yes (test before).2 outcome after else no (test before).2 outcome after

/-- The rule for loops. -/
inductive Loop (test : State → Bool × State) (update : State → State)
    (body : Behaviour State Value) : Behaviour State Value
  | done {before after : State} :
      test before = (false, after) → Loop test update body before .normal after
  | broken {before inside after : State} :
      test before = (true, inside) → body inside .broken after →
      Loop test update body before .normal after
  | returned {before inside after : State} {value : Option Value} :
      test before = (true, inside) → body inside (.returned value) after →
      Loop test update body before (.returned value) after
  | next {before inside round after : State} {ending outcome : Exit Value} :
      test before = (true, inside) → body inside ending round →
      ending = .normal ∨ ending = .continued →
      Loop test update body (update round) outcome after →
      Loop test update body before outcome after

/-! ### Sequences -/

theorem andThen_effect_normal {first : Behaviour State Value} {change : State → State}
    {before after : State} :
    first.andThen (effect change) before .normal after ↔
      ∃ between, first before .normal between ∧ after = change between := by
  constructor
  · rintro (⟨between, hfirst, -, rfl⟩ | ⟨hne, -⟩)
    · exact ⟨between, hfirst, rfl⟩
    · exact absurd rfl hne
  · rintro ⟨between, hfirst, rfl⟩
    exact .inl ⟨between, hfirst, rfl, rfl⟩

theorem andThen_effect_of_ne_normal {first : Behaviour State Value} {change : State → State}
    {before after : State} {outcome : Exit Value} (houtcome : outcome ≠ .normal) :
    first.andThen (effect change) before outcome after ↔ first before outcome after := by
  constructor
  · rintro (⟨between, -, h, -⟩ | ⟨-, hfirst⟩)
    · exact absurd h houtcome
    · exact hfirst
  · exact fun hfirst => .inr ⟨houtcome, hfirst⟩

theorem leave_normal_andThen (b : Behaviour State Value) : (leave .normal).andThen b = b := by
  funext before outcome after
  refine propext ⟨?_, fun h => .inl ⟨before, ⟨rfl, rfl⟩, h⟩⟩
  rintro (⟨between, ⟨-, rfl⟩, h⟩ | ⟨hne, rfl, -⟩)
  · exact h
  · exact absurd rfl hne

theorem andThen_leave_normal (b : Behaviour State Value) : b.andThen (leave .normal) = b := by
  funext before outcome after
  refine propext ⟨?_, fun h => ?_⟩
  · rintro (⟨between, h, rfl, rfl⟩ | ⟨-, h⟩)
    · exact h
    · exact h
  · cases outcome with
    | normal => exact .inl ⟨after, h, rfl, rfl⟩
    | broken => exact .inr ⟨nofun, h⟩
    | continued => exact .inr ⟨nofun, h⟩
    | returned value => exact .inr ⟨nofun, h⟩

theorem andThen_assoc (a b c : Behaviour State Value) :
    (a.andThen b).andThen c = a.andThen (b.andThen c) := by
  funext before outcome after
  refine propext ⟨?_, ?_⟩
  · rintro (⟨s, ⟨t, ha, hb⟩ | ⟨hne, -⟩, hc⟩ | ⟨hne, ⟨t, ha, hb⟩ | ⟨-, ha⟩⟩)
    · exact .inl ⟨t, ha, .inl ⟨s, hb, hc⟩⟩
    · exact absurd rfl hne
    · exact .inl ⟨t, ha, .inr ⟨hne, hb⟩⟩
    · exact .inr ⟨hne, ha⟩
  · rintro (⟨t, ha, ⟨s, hb, hc⟩ | ⟨hne, hb⟩⟩ | ⟨hne, ha⟩)
    · exact .inl ⟨s, .inl ⟨t, ha, hb⟩, hc⟩
    · exact .inr ⟨hne, .inl ⟨t, ha, hb⟩⟩
    · exact .inr ⟨hne, .inr ⟨hne, ha⟩⟩

/-! ### The update as part of the body -/

/-- No run ends by `continue`. -/
def NeverContinues (b : Behaviour State Value) : Prop :=
  ∀ before after, ¬ b before .continued after

theorem NeverContinues.andThen {a b : Behaviour State Value} (ha : a.NeverContinues)
    (hb : b.NeverContinues) : (a.andThen b).NeverContinues := by
  rintro before after (⟨between, -, h⟩ | ⟨-, h⟩)
  · exact hb between after h
  · exact ha before after h

theorem NeverContinues.branch {test : State → Bool × State} {yes no : Behaviour State Value}
    (hyes : yes.NeverContinues) (hno : no.NeverContinues) :
    (branch test yes no).NeverContinues := by
  intro before after h
  rw [Behaviour.branch] at h
  split at h
  · exact hyes _ _ h
  · exact hno _ _ h

theorem neverContinues_effect (change : State → State) :
    (effect change : Behaviour State Value).NeverContinues :=
  fun _ _ h => nomatch h.1

theorem neverContinues_leave {ending : Exit Value} (h : ending ≠ .continued) :
    (leave ending : Behaviour State Value).NeverContinues :=
  fun _ _ hleave => h hleave.1.symm

/-- A loop takes up the `continue`s of its body. -/
theorem neverContinues_loop (test : State → Bool × State) (update : State → State)
    (body : Behaviour State Value) : (Loop test update body).NeverContinues := by
  intro before after h
  generalize houtcome : (Exit.continued : Exit Value) = outcome at h
  induction h with
  | done => cases houtcome
  | broken => cases houtcome
  | returned => cases houtcome
  | next _ _ _ _ ih => exact ih houtcome

/-- **The update can be the last thing that the body does**, if the body never ends by `continue`:
every other end of the body goes past an update in the body just as it goes past the loop's own. -/
theorem loop_eq_loop_id {test : State → Bool × State} {update : State → State}
    {body : Behaviour State Value} (hbody : body.NeverContinues) :
    Loop test update body = Loop test id (body.andThen (effect update)) := by
  funext before outcome after
  refine propext ⟨fun h => ?_, fun h => ?_⟩
  · induction h with
    | done htest => exact .done htest
    | broken htest hrun => exact .broken htest ((andThen_effect_of_ne_normal (by nofun)).mpr hrun)
    | returned htest hrun => exact .returned htest ((andThen_effect_of_ne_normal (by nofun)).mpr hrun)
    | next htest hrun hending _ ih =>
      obtain rfl | rfl := hending
      · exact .next htest (andThen_effect_normal.mpr ⟨_, hrun, rfl⟩) (.inl rfl) ih
      · -- The one end of the body that would go past the update inside it and not past the loop's.
        exact absurd hrun (hbody _ _)
  · induction h with
    | done htest => exact .done htest
    | broken htest hrun => exact .broken htest ((andThen_effect_of_ne_normal (by nofun)).mp hrun)
    | returned htest hrun => exact .returned htest ((andThen_effect_of_ne_normal (by nofun)).mp hrun)
    | next htest hrun hending _ ih =>
      obtain rfl | rfl := hending
      · obtain ⟨between, hbetween, rfl⟩ := andThen_effect_normal.mp hrun
        exact .next htest hbetween (.inl rfl) ih
      · exact absurd ((andThen_effect_of_ne_normal (by nofun)).mp hrun) (hbody _ _)

end Behaviour

/-! ### Statements -/

/-- What expressions and declarations do. -/
structure Interpretation (State Value : Type) where
  /-- The value of an expression and the state after it. -/
  eval : Expr → State → Value × State
  /-- Does the value let a condition pass? -/
  isTrue : Value → Bool
  /-- The effect of a variable's declaration. -/
  declare : Declaration → State → State
  /-- The effect of a function's declaration, from its name, its parameters and what its body
  does. -/
  define : String → List String → Behaviour State Value → State → State

namespace Interpretation

variable {State Value : Type} (I : Interpretation State Value)

/-- An expression as a condition. -/
def test (condition : Expr) (state : State) : Bool × State :=
  (I.isTrue (I.eval condition state).1, (I.eval condition state).2)

/-- An expression for its effect alone. -/
def perform (e : Expr) (state : State) : State :=
  (I.eval e state).2

end Interpretation

section Run

open Behaviour

variable {State Value : Type} (I : Interpretation State Value)

mutual

/-- What a statement does. -/
def Stmt.run : Stmt → Behaviour State Value
  | .declare d => effect (I.declare d)
  | .function name params body => effect (I.define name params (stmtsRun body))
  | .ifThen condition yes => branch (I.test condition) (stmtsRun yes) (leave .normal)
  | .ifElse condition yes no => branch (I.test condition) (stmtsRun yes) (stmtsRun no)
  | .whileLoop condition body => Loop (I.test condition) id (stmtsRun body)
  | .forLoop init condition update body =>
    (effect (I.declare init)).andThen
      (Loop (I.test condition) (I.perform update) (stmtsRun body))
  | .giveBack none => leave (.returned none)
  | .giveBack (some value) => fun before outcome after =>
    outcome = .returned (some (I.eval value before).1) ∧ after = (I.eval value before).2
  | .breakLoop => leave .broken
  | .continueLoop => leave .continued
  | .expr value => effect (I.perform value)

/-- What several statements do, one after the other. -/
def stmtsRun : List Stmt → Behaviour State Value
  | [] => leave .normal
  | s :: rest => (s.run).andThen (stmtsRun rest)

end

theorem stmtsRun_singleton (s : Stmt) : stmtsRun I [s] = s.run I := by
  rw [stmtsRun, stmtsRun, andThen_leave_normal]

theorem stmtsRun_append (a b : List Stmt) :
    stmtsRun I (a ++ b) = (stmtsRun I a).andThen (stmtsRun I b) := by
  induction a with
  | nil => rw [List.nil_append, stmtsRun, leave_normal_andThen]
  | cons s rest ih => rw [List.cons_append, stmtsRun, stmtsRun, ih, andThen_assoc]

end Run

end Offside
