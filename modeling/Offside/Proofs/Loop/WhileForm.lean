import Offside.Proofs.Layout.Lines
import Offside.Proofs.Loop.Behaviour

/-!
# A `for` as a `while`

`Program.whileForm` replaces every `for`, at any depth, by the declaration of its first part and a
`while` whose body ends with the update. A script that can be laid out and its `while` form have

* **the same lines** (`stmtsLines_whileForm`), and
* **the same behaviour** under every interpretation (`stmtsRun_whileForm`).

The second needs that the first is accepted. A `continue` that belongs to a `for` would reach the
update under the rule for loops, and skip it in the `while` form; it is refused, though, so the
body of a `for` that is laid out never ends by `continue` (`neverContinues_stmtsRun`), and its
update can be the last part of the body (`Behaviour.loop_eq_loop_id`).
-/

namespace Offside

/-! ### The rewriting -/

mutual

/-- The statements that stand for a statement once no `for` is left in it. -/
def Stmt.whileForm : Stmt → List Stmt
  | .function name params body => [.function name params (stmtsWhileForm body)]
  | .ifThen condition yes => [.ifThen condition (stmtsWhileForm yes)]
  | .ifElse condition yes no => [.ifElse condition (stmtsWhileForm yes) (stmtsWhileForm no)]
  | .whileLoop condition body => [.whileLoop condition (stmtsWhileForm body)]
  | .forLoop init condition update body =>
    [.declare init, .whileLoop condition (stmtsWhileForm body ++ [.expr update])]
  | .declare d => [.declare d]
  | .giveBack value => [.giveBack value]
  | .breakLoop => [.breakLoop]
  | .continueLoop => [.continueLoop]
  | .expr value => [.expr value]

/-- The same for several statements. -/
def stmtsWhileForm : List Stmt → List Stmt
  | [] => []
  | s :: rest => s.whileForm ++ stmtsWhileForm rest

end

/-- The script without a `for`. -/
def Program.whileForm (program : Program) : Program :=
  ⟨stmtsWhileForm program.body⟩

mutual

/-- Is there no `for` in the statement? -/
def Stmt.isForFree : Stmt → Bool
  | .function _ _ body => stmtsForFree body
  | .ifThen _ yes => stmtsForFree yes
  | .ifElse _ yes no => stmtsForFree yes && stmtsForFree no
  | .whileLoop _ body => stmtsForFree body
  | .forLoop .. => false
  | _ => true

/-- Is there no `for` in the statements? -/
def stmtsForFree : List Stmt → Bool
  | [] => true
  | s :: rest => s.isForFree && stmtsForFree rest

end

theorem stmtsForFree_append (a b : List Stmt) :
    stmtsForFree (a ++ b) = (stmtsForFree a && stmtsForFree b) := by
  induction a with
  | nil => rfl
  | cons s rest ih => rw [List.cons_append, stmtsForFree, stmtsForFree, ih, Bool.and_assoc]

mutual

theorem Stmt.isForFree_whileForm : (s : Stmt) → stmtsForFree s.whileForm = true
  | .function _ _ body => by
    simp [Stmt.whileForm, stmtsForFree, Stmt.isForFree, stmtsForFree_whileForm body]
  | .ifThen _ yes => by
    simp [Stmt.whileForm, stmtsForFree, Stmt.isForFree, stmtsForFree_whileForm yes]
  | .ifElse _ yes no => by
    simp [Stmt.whileForm, stmtsForFree, Stmt.isForFree, stmtsForFree_whileForm yes,
      stmtsForFree_whileForm no]
  | .whileLoop _ body => by
    simp [Stmt.whileForm, stmtsForFree, Stmt.isForFree, stmtsForFree_whileForm body]
  | .forLoop _ _ _ body => by
    simp [Stmt.whileForm, stmtsForFree, Stmt.isForFree, stmtsForFree_append,
      stmtsForFree_whileForm body]
  | .declare _ => rfl
  | .giveBack _ => rfl
  | .breakLoop => rfl
  | .continueLoop => rfl
  | .expr _ => rfl

theorem stmtsForFree_whileForm : (body : List Stmt) → stmtsForFree (stmtsWhileForm body) = true
  | [] => rfl
  | s :: rest => by
    rw [stmtsWhileForm, stmtsForFree_append, s.isForFree_whileForm, stmtsForFree_whileForm rest]
    rfl

end

/-! ### The same lines -/

theorem Stmt.whileForm_ne_nil (s : Stmt) : s.whileForm ≠ [] := by
  cases s <;> simp [Stmt.whileForm]

theorem isElseIf_eq_false_of_length {body : List Stmt} (h : 2 ≤ body.length) :
    isElseIf body = false := by
  match body, h with
  | _ :: _ :: _, _ => rfl

/-- Blocks that continue an `if` still do, and no other block starts to: a `for` becomes two
statements. -/
theorem isElseIf_whileForm (body : List Stmt) : isElseIf (stmtsWhileForm body) = isElseIf body := by
  match body with
  | [] => rfl
  | [s] => cases s <;> rfl
  | s :: t :: rest =>
    refine isElseIf_eq_false_of_length ?_
    have hs := List.length_pos_iff.mpr s.whileForm_ne_nil
    have ht := List.length_pos_iff.mpr t.whileForm_ne_nil
    simp only [stmtsWhileForm, List.length_append]
    omega

section Lines

open Stmt

mutual

-- No `for` is left around the statements of a `while` form, so they are laid out with `inFor` off.
theorem Stmt.lines_whileForm {opening : String} {inFor : Bool} {level : Nat} {lines : List Line}
    (s : Stmt) (h : s.lines opening inFor level = .ok lines) :
    stmtsLines opening false level s.whileForm = .ok lines := by
  cases s with
  | function name params body =>
    obtain ⟨inner, hbody, rfl⟩ := lines_function_eq_ok.mp h
    rw [Stmt.whileForm, stmtsLines_singleton_eq_ok]
    exact lines_function_eq_ok.mpr ⟨inner, stmtsLines_whileForm body hbody, rfl⟩
  | ifThen condition yes =>
    obtain ⟨test, inner, htest, hyes, rfl⟩ := lines_ifThen_eq_ok.mp h
    rw [Stmt.whileForm, stmtsLines_singleton_eq_ok]
    exact lines_ifThen_eq_ok.mpr ⟨test, inner, htest, stmtsLines_whileForm yes hyes, rfl⟩
  | ifElse condition yes no =>
    rw [Stmt.whileForm, stmtsLines_singleton_eq_ok]
    cases helse : isElseIf no with
    | true =>
      obtain ⟨test, inner, rest, htest, hyes, hno, rfl⟩ :=
        (lines_ifElse_eq_ok_of_isElseIf helse).mp h
      exact (lines_ifElse_eq_ok_of_isElseIf ((isElseIf_whileForm no).trans helse)).mpr
        ⟨test, inner, rest, htest, stmtsLines_whileForm yes hyes, stmtsLines_whileForm no hno, rfl⟩
    | false =>
      obtain ⟨test, inner, rest, htest, hyes, hno, rfl⟩ :=
        (lines_ifElse_eq_ok_of_not_isElseIf helse).mp h
      exact (lines_ifElse_eq_ok_of_not_isElseIf ((isElseIf_whileForm no).trans helse)).mpr
        ⟨test, inner, rest, htest, stmtsLines_whileForm yes hyes, stmtsLines_whileForm no hno, rfl⟩
  | whileLoop condition body =>
    obtain ⟨test, inner, htest, hbody, rfl⟩ := lines_whileLoop_eq_ok.mp h
    rw [Stmt.whileForm, stmtsLines_singleton_eq_ok]
    exact lines_whileLoop_eq_ok.mpr ⟨test, inner, htest, stmtsLines_whileForm body hbody, rfl⟩
  | forLoop init condition update body =>
    obtain ⟨first, test, inner, last, hinit, htest, hbody, hupdate, rfl⟩ :=
      lines_forLoop_eq_ok.mp h
    have hlast : stmtsLines "if" false (level + 1) [.expr update] = .ok [⟨level + 1, last⟩] :=
      stmtsLines_singleton_eq_ok.mpr (lines_expr_eq_ok.mpr ⟨last, hupdate, rfl⟩)
    -- The update makes the body non-empty, so no `pass` is written for it.
    have hinner : bodyLines (level + 1) (inner ++ [⟨level + 1, last⟩]) =
        inner ++ [⟨level + 1, last⟩] := bodyLines_of_ne_nil (by simp)
    refine stmtsLines_cons_eq_ok.mpr
      ⟨[⟨level, first⟩], _, lines_declare_eq_ok.mpr ⟨first, hinit, rfl⟩, ?_, rfl⟩
    rw [stmtsLines_singleton_eq_ok, lines_whileLoop_eq_ok]
    exact ⟨test, _, htest, stmtsLines_append (stmtsLines_whileForm body hbody) hlast, by rw [hinner]⟩
  | continueLoop =>
    rw [Stmt.whileForm, stmtsLines_singleton_eq_ok, lines_continueLoop_eq_ok]
    exact ⟨rfl, (lines_continueLoop_eq_ok.mp h).2⟩
  | declare d => exact stmtsLines_singleton_eq_ok.mpr h
  | giveBack value =>
    rw [Stmt.whileForm, stmtsLines_singleton_eq_ok]
    cases value <;> exact h
  | breakLoop => exact stmtsLines_singleton_eq_ok.mpr h
  | expr value => exact stmtsLines_singleton_eq_ok.mpr h

/-- What can be laid out has the same lines without its `for`s. -/
theorem stmtsLines_whileForm {opening : String} {inFor : Bool} {level : Nat} {lines : List Line}
    (body : List Stmt) (h : stmtsLines opening inFor level body = .ok lines) :
    stmtsLines opening false level (stmtsWhileForm body) = .ok lines := by
  cases body with
  | nil => exact h
  | cons s rest =>
    obtain ⟨first, others, hs, hrest, rfl⟩ := stmtsLines_cons_eq_ok.mp h
    exact stmtsLines_append (s.lines_whileForm hs) (stmtsLines_whileForm rest hrest)

end

end Lines

/-! ### The same behaviour -/

section Run

open Behaviour Stmt

variable {State Value : Type} (I : Interpretation State Value)

mutual

-- Loops and functions take up the `continue`s in them; the flag goes down through the `if`s only.
theorem Stmt.neverContinues_run {opening : String} {level : Nat} {lines : List Line} (s : Stmt)
    (h : s.lines opening true level = .ok lines) : (s.run I).NeverContinues := by
  cases s with
  | declare d => exact neverContinues_effect _
  | function name params body => exact neverContinues_effect _
  | ifThen condition yes =>
    obtain ⟨test, inner, -, hyes, -⟩ := lines_ifThen_eq_ok.mp h
    exact (neverContinues_stmtsRun yes hyes).branch (neverContinues_leave nofun)
  | ifElse condition yes no =>
    obtain ⟨⟨inner, hyes⟩, word, depth, rest, hno⟩ := lines_blocks_of_ifElse h
    exact (neverContinues_stmtsRun yes hyes).branch (neverContinues_stmtsRun no hno)
  | whileLoop condition body => exact neverContinues_loop _ _ _
  | forLoop init condition update body =>
    exact (neverContinues_effect _).andThen (neverContinues_loop _ _ _)
  | giveBack value =>
    cases value with
    | none => exact neverContinues_leave nofun
    | some value => exact fun _ _ h => nomatch h.1
  | breakLoop => exact neverContinues_leave nofun
  | continueLoop => cases (lines_continueLoop_eq_ok.mp h).1
  | expr value => exact neverContinues_effect _

/-- The body of a `for` that is laid out never ends by `continue`. -/
theorem neverContinues_stmtsRun {opening : String} {level : Nat} {lines : List Line}
    (body : List Stmt) (h : stmtsLines opening true level body = .ok lines) :
    (stmtsRun I body).NeverContinues := by
  cases body with
  | nil => exact neverContinues_leave nofun
  | cons s rest =>
    obtain ⟨first, others, hs, hrest, -⟩ := stmtsLines_cons_eq_ok.mp h
    exact (s.neverContinues_run hs).andThen (neverContinues_stmtsRun rest hrest)

end

mutual

theorem Stmt.run_whileForm {opening : String} {inFor : Bool} {level : Nat} {lines : List Line}
    (s : Stmt) (h : s.lines opening inFor level = .ok lines) :
    stmtsRun I s.whileForm = s.run I := by
  cases s with
  | function name params body =>
    obtain ⟨inner, hbody, -⟩ := lines_function_eq_ok.mp h
    rw [Stmt.whileForm, stmtsRun_singleton, Stmt.run, Stmt.run, stmtsRun_whileForm body hbody]
  | ifThen condition yes =>
    obtain ⟨test, inner, -, hyes, -⟩ := lines_ifThen_eq_ok.mp h
    rw [Stmt.whileForm, stmtsRun_singleton, Stmt.run, Stmt.run, stmtsRun_whileForm yes hyes]
  | ifElse condition yes no =>
    obtain ⟨⟨inner, hyes⟩, word, depth, rest, hno⟩ := lines_blocks_of_ifElse h
    rw [Stmt.whileForm, stmtsRun_singleton, Stmt.run, Stmt.run, stmtsRun_whileForm yes hyes,
      stmtsRun_whileForm no hno]
  | whileLoop condition body =>
    obtain ⟨test, inner, -, hbody, -⟩ := lines_whileLoop_eq_ok.mp h
    rw [Stmt.whileForm, stmtsRun_singleton, Stmt.run, Stmt.run, stmtsRun_whileForm body hbody]
  | forLoop init condition update body =>
    obtain ⟨first, test, inner, last, -, -, hbody, -, -⟩ := lines_forLoop_eq_ok.mp h
    have hnever := neverContinues_stmtsRun I body hbody
    calc stmtsRun I (Stmt.forLoop init condition update body).whileForm
        = (effect (I.declare init)).andThen
            (Loop (I.test condition) id ((stmtsRun I (stmtsWhileForm body)).andThen
              (effect (I.perform update)))) := by
          rw [Stmt.whileForm, stmtsRun, stmtsRun_singleton, Stmt.run, Stmt.run, stmtsRun_append,
            stmtsRun_singleton, Stmt.run]
      _ = (effect (I.declare init)).andThen
            (Loop (I.test condition) (I.perform update) (stmtsRun I body)) := by
          rw [stmtsRun_whileForm body hbody, loop_eq_loop_id hnever]
      _ = (Stmt.forLoop init condition update body).run I := by rw [Stmt.run]
  | declare d => exact stmtsRun_singleton I _
  | giveBack value => exact stmtsRun_singleton I _
  | breakLoop => exact stmtsRun_singleton I _
  | continueLoop => exact stmtsRun_singleton I _
  | expr value => exact stmtsRun_singleton I _

/-- What can be laid out does the same without its `for`s. -/
theorem stmtsRun_whileForm {opening : String} {inFor : Bool} {level : Nat} {lines : List Line}
    (body : List Stmt) (h : stmtsLines opening inFor level body = .ok lines) :
    stmtsRun I (stmtsWhileForm body) = stmtsRun I body := by
  cases body with
  | nil => rfl
  | cons s rest =>
    obtain ⟨first, others, hs, hrest, -⟩ := stmtsLines_cons_eq_ok.mp h
    rw [stmtsWhileForm, stmtsRun_append, s.run_whileForm hs, stmtsRun_whileForm rest hrest, stmtsRun]

end

end Run

/-! ### Function bodies -/

mutual

/-- The bodies of the functions declared in a statement, at any depth. -/
def Stmt.functionBodies : Stmt → List (List Stmt)
  | .function _ _ body => body :: stmtsFunctionBodies body
  | .ifThen _ yes => stmtsFunctionBodies yes
  | .ifElse _ yes no => stmtsFunctionBodies yes ++ stmtsFunctionBodies no
  | .whileLoop _ body => stmtsFunctionBodies body
  | .forLoop _ _ _ body => stmtsFunctionBodies body
  | _ => []

/-- The bodies of the functions declared in several statements. -/
def stmtsFunctionBodies : List Stmt → List (List Stmt)
  | [] => []
  | s :: rest => s.functionBodies ++ stmtsFunctionBodies rest

end

section FunctionBodies

open Stmt

variable {b : List Stmt}

mutual

theorem Stmt.lines_of_mem_functionBodies {opening : String} {inFor : Bool} {level : Nat}
    {lines : List Line} (s : Stmt) (h : s.lines opening inFor level = .ok lines)
    (hb : b ∈ s.functionBodies) : ∃ depth inner, stmtsLines "if" false depth b = .ok inner := by
  cases s with
  | function name params body =>
    obtain ⟨inner, hbody, -⟩ := lines_function_eq_ok.mp h
    rcases List.mem_cons.mp hb with rfl | hb
    · exact ⟨_, inner, hbody⟩
    · exact stmtsLines_of_mem_functionBodies body hbody hb
  | ifThen condition yes =>
    obtain ⟨test, inner, -, hyes, -⟩ := lines_ifThen_eq_ok.mp h
    exact stmtsLines_of_mem_functionBodies yes hyes hb
  | ifElse condition yes no =>
    obtain ⟨⟨inner, hyes⟩, word, depth, rest, hno⟩ := lines_blocks_of_ifElse h
    rcases List.mem_append.mp hb with hb | hb
    · exact stmtsLines_of_mem_functionBodies yes hyes hb
    · exact stmtsLines_of_mem_functionBodies no hno hb
  | whileLoop condition body =>
    obtain ⟨test, inner, -, hbody, -⟩ := lines_whileLoop_eq_ok.mp h
    exact stmtsLines_of_mem_functionBodies body hbody hb
  | forLoop init condition update body =>
    obtain ⟨first, test, inner, last, -, -, hbody, -, -⟩ := lines_forLoop_eq_ok.mp h
    exact stmtsLines_of_mem_functionBodies body hbody hb
  | declare d => cases hb
  | giveBack value => cases hb
  | breakLoop => cases hb
  | continueLoop => cases hb
  | expr value => cases hb

/-- In what can be laid out, so can the body of every function. -/
theorem stmtsLines_of_mem_functionBodies {opening : String} {inFor : Bool} {level : Nat}
    {lines : List Line} (body : List Stmt) (h : stmtsLines opening inFor level body = .ok lines)
    (hb : b ∈ stmtsFunctionBodies body) :
    ∃ depth inner, stmtsLines "if" false depth b = .ok inner := by
  cases body with
  | nil => cases hb
  | cons s rest =>
    obtain ⟨first, others, hs, hrest, -⟩ := stmtsLines_cons_eq_ok.mp h
    rcases List.mem_append.mp hb with hb | hb
    · exact s.lines_of_mem_functionBodies hs hb
    · exact stmtsLines_of_mem_functionBodies rest hrest hb

end

end FunctionBodies

/-! ### Whole scripts -/

/-- **Nothing is lost with the `for`s.** The `while` form of a script that can be laid out has no
`for` left and exactly the same lines, at any width, and under every interpretation it runs from the
same states to the same states with the same outcomes, as does the body of each of its functions. -/
theorem whileForm_same_lines_same_behaviour {program : Program} {width : Nat}
    {texts : List String} (htexts : program.layout width = .ok texts) :
    stmtsForFree program.whileForm.body ∧
      program.whileForm.layout width = .ok texts ∧
      ∀ {State Value : Type} (I : Interpretation State Value),
        (∀ before outcome after,
          stmtsRun I program.whileForm.body before outcome after ↔
            stmtsRun I program.body before outcome after) ∧
        ∀ body ∈ stmtsFunctionBodies program.body, ∀ before outcome after,
          stmtsRun I (stmtsWhileForm body) before outcome after ↔
            stmtsRun I body before outcome after := by
  obtain ⟨lines, hlines, hrender⟩ := bind_eq_ok.mp htexts
  refine ⟨stmtsForFree_whileForm program.body, ?_, fun I => ⟨?_, ?_⟩⟩
  · exact bind_eq_ok.mpr ⟨lines, stmtsLines_whileForm program.body hlines, hrender⟩
  · intro before outcome after
    rw [Program.whileForm, stmtsRun_whileForm I program.body hlines]
  · intro body hbody before outcome after
    obtain ⟨depth, inner, hinner⟩ := stmtsLines_of_mem_functionBodies program.body hlines hbody
    rw [stmtsRun_whileForm I body hinner]

/-- A `continue` that belongs to a `while` inside the `for` is no obstacle, and neither is a
`break`. -/
theorem whileForm_same_lines_same_behaviour_of_nested :
    let step : Expr := .assign (.ident "i") (.binary .add (.ident "i") (.number 1))
    let loop : Stmt := .forLoop ⟨.letDecl, "i", some (.number 0)⟩
      (.binary .lt (.ident "i") (.ident "n")) step
      [.whileLoop (.ident "w") [.continueLoop], .ifThen (.ident "i") [.breakLoop]]
    let program : Program := ⟨[.function "f" ["n"] [loop]]⟩
    let texts : List String :=
      ["def f(n):", "  i = 0", "  while i < n:", "    while w:", "      continue", "    if i:",
        "      break", "    i = i + 1"]
    program.layout 2 = .ok texts ∧ program.whileForm.layout 2 = .ok texts ∧
      ∀ (I : Interpretation Nat Nat) (before : Nat) (outcome : Exit Nat) (after : Nat),
        stmtsRun I (stmtsWhileForm [loop]) before outcome after ↔
          stmtsRun I [loop] before outcome after := by
  intro step loop program texts
  have htexts : program.layout 2 = .ok texts := rfl
  obtain ⟨-, hsame, hruns⟩ := whileForm_same_lines_same_behaviour htexts
  exact ⟨htexts, hsame, fun I => (hruns I).2 [loop] (.head _)⟩

end Offside
