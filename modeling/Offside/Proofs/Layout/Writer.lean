import Offside.Layout.Writer
import Offside.Proofs.Layout.Lines
import Offside.Proofs.Layout.Refusal

/-!
# A writer that is used again

A `Writer` goes through a script line by line and keeps its place in a state. What it gives for a
script is the script's layout (`Writer.generate_eq`), whatever lines and loops an earlier use has
left behind, and its width never changes. With `Program.faultOf_layout`, **a writer refuses exactly
the scripts in which one of three constructs occurs, for the first of them, at any width and after
any earlier uses** (`Writer.generate_eq_error_iff_first_refused`).

The invariant of a step is `Writer.Ends`: a step that should give certain lines appends them or is
refused as they are, and either way leaves the loops as it has found them.
-/

namespace Offside

namespace Writer

/-- Writing from the state `writer` ends as the lines `result` ask for: the lines are appended, or
it is refused for the same reason. Either way the width and the loops are those from before. -/
structure Ends (writer : Writer) (result : Except LayoutFault (List Line))
    (ending : Except LayoutFault Unit × Writer) : Prop where
  width : ending.2.width = writer.width
  loops : ending.2.loops = writer.loops
  outcome : ending.1 = result.map fun _ => ()
  lines : ∀ lines, result = .ok lines →
    ending.2.lines.toList = writer.lines.toList ++ lines.map (Line.render writer.width)

variable {writer : Writer}

/-! ### Parts of a step -/

theorem ends_nil : writer.Ends (.ok []) ((pure () : Writing Unit) writer) where
  width := rfl
  loops := rfl
  outcome := rfl
  lines := by
    intro lines h
    cases h
    exact (List.append_nil _).symm

theorem ends_line (level : Nat) (text : String) :
    writer.Ends (.ok [⟨level, text⟩]) (Writing.line level text writer) where
  width := rfl
  loops := rfl
  outcome := rfl
  lines := by
    intro lines h
    cases h
    exact Array.toList_push

theorem ends_throw (fault : LayoutFault) :
    writer.Ends (.error fault) ((throw fault : Writing Unit) writer) where
  width := rfl
  loops := rfl
  outcome := rfl
  lines := by
    intro lines h
    cases h

/-- A text that is refused refuses the step; otherwise the rest of the step decides. -/
theorem ends_ofText {text : Except LayoutFault String} {next : String → Writing Unit}
    {result : String → Except LayoutFault (List Line)}
    (h : ∀ t, writer.Ends (result t) (next t writer)) :
    writer.Ends (text >>= result) ((Writing.ofText text >>= next) writer) := by
  cases text with
  | error fault => exact ends_throw fault
  | ok t => exact h t

section AndThen

variable {first second : Writing Unit} {middle : Writer}

theorem run_andThen_of_ok (h : first writer = (.ok (), middle)) :
    (do first; second : Writing Unit) writer = second middle := by
  change (first >>= fun _ => second) writer = second middle
  simp only [bind, ExceptT.bind, ExceptT.mk, StateT.bind, h]
  rfl

theorem run_andThen_of_error {fault : LayoutFault} (h : first writer = (.error fault, middle)) :
    (do first; second : Writing Unit) writer = (.error fault, middle) := by
  change (first >>= fun _ => second) writer = (.error fault, middle)
  simp only [bind, ExceptT.bind, ExceptT.mk, StateT.bind, h]
  rfl

/-- One step after another. The second one may start from any state with the same width and loops,
as these are what its lines depend on. -/
theorem Ends.andThen {front back : Except LayoutFault (List Line)}
    (hfirst : writer.Ends front (first writer))
    (hsecond : ∀ middle : Writer, middle.width = writer.width → middle.loops = writer.loops →
      middle.Ends back (second middle)) :
    writer.Ends (do let a ← front; let b ← back; return a ++ b)
      ((do first; second : Writing Unit) writer) := by
  obtain ⟨hwidth, hloops, houtcome, hlines⟩ := hfirst
  -- The state between the two steps, which the second one starts from.
  rcases hend : first writer with ⟨outcome, middle⟩
  rw [hend] at hwidth hloops houtcome hlines
  cases front with
  | error fault =>
    cases houtcome
    rw [run_andThen_of_error hend]
    exact ⟨hwidth, hloops, rfl, fun lines h => by cases h⟩
  | ok a =>
    cases houtcome
    rw [run_andThen_of_ok hend]
    obtain ⟨hwidth', hloops', houtcome', hlines'⟩ := hsecond middle hwidth hloops
    refine ⟨hwidth'.trans hwidth, hloops'.trans hloops, ?_, ?_⟩
    · rw [houtcome']
      cases back <;> rfl
    · intro lines h
      cases back with
      | error fault => cases h
      | ok b =>
        cases h
        rw [hlines' b rfl, hlines a rfl, hwidth, List.map_append, List.append_assoc]

end AndThen

/-- A line and what is written below it. -/
theorem ends_line_andThen {level : Nat} {text : String} {next : Writing Unit}
    {below : Except LayoutFault (List Line)}
    (h : ∀ middle : Writer, middle.width = writer.width → middle.loops = writer.loops →
      middle.Ends below (next middle)) :
    writer.Ends (do let rest ← below; return ⟨level, text⟩ :: rest)
      ((do Writing.line level text; next : Writing Unit) writer) :=
  (ends_line level text).andThen h

/-- A loop is gone from the state when its body has been written, also if the body is refused. -/
theorem Ends.inLoop {kind : LoopKind} {body : Writing Unit}
    {result : Except LayoutFault (List Line)}
    (h : Ends { writer with loops := kind :: writer.loops } result
      (body { writer with loops := kind :: writer.loops })) :
    writer.Ends result (Writing.inLoop kind body writer) where
  width := h.width
  loops := congrArg List.tail h.loops
  outcome := h.outcome
  lines := h.lines

/-- The loops around a function are there again behind it, also if its body is refused. -/
theorem Ends.inFunction {body : Writing Unit} {result : Except LayoutFault (List Line)}
    (h : Ends { writer with loops := [] } result (body { writer with loops := [] })) :
    writer.Ends result (Writing.inFunction body writer) where
  width := h.width
  loops := rfl
  outcome := h.outcome
  lines := h.lines

end Writer

/-! ### Statements -/

/-- A statement has a line at least. -/
theorem Stmt.lines_ne_nil {s : Stmt} {opening : String} {inFor : Bool} {level : Nat}
    {lines : List Line} (h : s.lines opening inFor level = .ok lines) : lines ≠ [] := by
  rintro rfl
  cases s with
  | declare d =>
    obtain ⟨text, -, hlines⟩ := lines_declare_eq_ok.mp h
    cases hlines
  | function name params body =>
    obtain ⟨inner, -, hlines⟩ := lines_function_eq_ok.mp h
    cases hlines
  | ifThen condition yes =>
    obtain ⟨test, inner, -, -, hlines⟩ := lines_ifThen_eq_ok.mp h
    cases hlines
  | ifElse condition yes no =>
    cases hno : isElseIf no with
    | true =>
      obtain ⟨test, inner, rest, -, -, -, hlines⟩ := (lines_ifElse_eq_ok_of_isElseIf hno).mp h
      cases hlines
    | false =>
      obtain ⟨test, inner, rest, -, -, -, hlines⟩ :=
        (lines_ifElse_eq_ok_of_not_isElseIf hno).mp h
      cases hlines
  | whileLoop condition body =>
    obtain ⟨test, inner, -, -, hlines⟩ := lines_whileLoop_eq_ok.mp h
    cases hlines
  | forLoop init condition update body =>
    obtain ⟨first, test, inner, last, -, -, -, -, hlines⟩ := lines_forLoop_eq_ok.mp h
    cases hlines
  | giveBack value =>
    cases value with
    | none => cases lines_giveBack_none_eq_ok.mp h
    | some value =>
      obtain ⟨text, -, hlines⟩ := lines_giveBack_some_eq_ok.mp h
      cases hlines
  | breakLoop => cases lines_breakLoop_eq_ok.mp h
  | continueLoop => cases (lines_continueLoop_eq_ok.mp h).2
  | expr value =>
    obtain ⟨text, -, hlines⟩ := lines_expr_eq_ok.mp h
    cases hlines

namespace Writer

variable {writer : Writer}

/-- The line `pass` stands for a body without statements exactly where a body has no lines. -/
theorem Ends.orPass {level : Nat} {inFor : Bool} {body : List Stmt} {written : Writing Unit}
    (h : writer.Ends (stmtsLines "if" inFor level body) (written writer)) :
    writer.Ends (do let inner ← stmtsLines "if" inFor level body; return bodyLines level inner)
      (Writing.orPass level body written writer) := by
  cases body with
  | nil =>
    rw [stmtsLines]
    exact ends_line level "pass"
  | cons s rest =>
    have hlines : (do let inner ← stmtsLines "if" inFor level (s :: rest)
                      return bodyLines level inner) = stmtsLines "if" inFor level (s :: rest) := by
      cases hall : stmtsLines "if" inFor level (s :: rest) with
      | error fault => rfl
      | ok lines =>
        obtain ⟨first, others, hfirst, -, rfl⟩ := stmtsLines_cons_eq_ok.mp hall
        exact congrArg Except.ok
          (bodyLines_of_ne_nil (List.append_ne_nil_of_left_ne_nil (Stmt.lines_ne_nil hfirst) _))
    rw [hlines]
    exact h

theorem inFor_congr {middle : Writer} (h : middle.loops = writer.loops) :
    middle.inFor = writer.inFor := by
  rw [inFor, inFor, h]

end Writer

mutual

/-- **A statement is written as it is laid out**, from any state: what the writer has to know about
the place is whether the innermost loop is a `for`. -/
theorem Stmt.ends_write (s : Stmt) (opening : String) (level : Nat) (writer : Writer) :
    writer.Ends (s.lines opening writer.inFor level) (s.write opening level writer) := by
  cases s with
  | declare d =>
    rw [Stmt.lines, Stmt.write]
    exact Writer.ends_ofText fun text => Writer.ends_line level text
  | function name params body =>
    have hbody (middle : Writer) :
        middle.Ends (do let inner ← stmtsLines "if" false (level + 1) body
                        return bodyLines (level + 1) inner)
          (Writing.inFunction
            (Writing.orPass (level + 1) body (stmtsWrite "if" (level + 1) body)) middle) :=
      .inFunction (ends_block body (level + 1) { middle with loops := [] } rfl)
    rw [Stmt.lines, Stmt.write]
    simpa only [bind_assoc, pure_bind] using Writer.ends_line_andThen fun middle _ _ => hbody middle
  | ifThen condition yes =>
    rw [Stmt.lines, Stmt.write]
    refine Writer.ends_ofText fun test => ?_
    simpa only [bind_assoc, pure_bind] using Writer.ends_line_andThen fun middle _ hloops =>
      ends_block yes (level + 1) middle (Writer.inFor_congr hloops)
  | ifElse condition yes no =>
    rw [Stmt.lines, Stmt.write]
    refine Writer.ends_ofText fun test => ?_
    -- Either the chain goes on at this level, or a line `else:` stands between the blocks.
    cases hno : isElseIf no with
    | true =>
      simpa only [bind_assoc, pure_bind, if_true, List.cons_append] using
        Writer.ends_line_andThen fun middle _ hloops =>
          (ends_block yes (level + 1) middle (Writer.inFor_congr hloops)).andThen
            fun last _ hloops' =>
              Writer.inFor_congr (hloops'.trans hloops) ▸ ends_stmtsWrite no "elif" level last
    | false =>
      simpa only [bind_assoc, pure_bind, Bool.false_eq_true, if_false, List.cons_append] using
        Writer.ends_line_andThen fun middle _ hloops =>
          (ends_block yes (level + 1) middle (Writer.inFor_congr hloops)).andThen
            fun last _ hloops' => Writer.ends_line_andThen fun below _ hloops'' =>
              ends_block no (level + 1) below
                (Writer.inFor_congr (hloops''.trans (hloops'.trans hloops)))
  | whileLoop condition body =>
    have hbody (middle : Writer) :
        middle.Ends (do let inner ← stmtsLines "if" false (level + 1) body
                        return bodyLines (level + 1) inner)
          (Writing.inLoop .whileLoop
            (Writing.orPass (level + 1) body (stmtsWrite "if" (level + 1) body)) middle) :=
      .inLoop (ends_block body (level + 1) { middle with loops := .whileLoop :: middle.loops } rfl)
    rw [Stmt.lines, Stmt.write]
    refine Writer.ends_ofText fun test => ?_
    simpa only [bind_assoc, pure_bind] using Writer.ends_line_andThen fun middle _ _ => hbody middle
  | forLoop init condition update body =>
    have hbody (middle : Writer) :
        middle.Ends (stmtsLines "if" true (level + 1) body)
          (Writing.inLoop .forLoop (stmtsWrite "if" (level + 1) body) middle) :=
      .inLoop (ends_stmtsWrite body "if" (level + 1)
        { middle with loops := .forLoop :: middle.loops })
    -- The update stands below the body, so a body without statements needs no `pass`.
    have hupdate (middle : Writer) :
        middle.Ends (do let last ← update.lineText; return [⟨level + 1, last⟩])
          ((do let last ← Writing.ofText update.lineText
               Writing.line (level + 1) last : Writing Unit) middle) :=
      Writer.ends_ofText fun last => Writer.ends_line (level + 1) last
    rw [Stmt.lines, Stmt.write]
    refine Writer.ends_ofText fun first => ?_
    simpa only [bind_assoc, pure_bind] using Writer.ends_line_andThen fun middle _ _ =>
      Writer.ends_ofText fun test => Writer.ends_line_andThen fun last _ _ =>
        (hbody last).andThen fun below _ _ => hupdate below
  | giveBack value =>
    cases value with
    | none =>
      rw [Stmt.lines, Stmt.write]
      exact Writer.ends_line level "return"
    | some value =>
      rw [Stmt.lines, Stmt.write]
      exact Writer.ends_ofText fun text => Writer.ends_line level _
  | breakLoop =>
    rw [Stmt.lines, Stmt.write]
    exact Writer.ends_line level "break"
  | continueLoop =>
    rw [Stmt.lines, Stmt.write]
    change writer.Ends _ ((if writer.inFor then throw _ else _ : Writing Unit) writer)
    cases writer.inFor with
    | true => exact Writer.ends_throw _
    | false => exact Writer.ends_line level "continue"
  | expr value =>
    rw [Stmt.lines, Stmt.write]
    exact Writer.ends_ofText fun text => Writer.ends_line level text

theorem ends_block (body : List Stmt) (level : Nat) (writer : Writer) {inFor : Bool}
    (h : writer.inFor = inFor) :
    writer.Ends (do let inner ← stmtsLines "if" inFor level body; return bodyLines level inner)
      (Writing.orPass level body (stmtsWrite "if" level body) writer) :=
  .orPass (h ▸ ends_stmtsWrite body "if" level writer)

theorem ends_stmtsWrite (body : List Stmt) (opening : String) (level : Nat) (writer : Writer) :
    writer.Ends (stmtsLines opening writer.inFor level body)
      (stmtsWrite opening level body writer) := by
  cases body with
  | nil =>
    rw [stmtsLines, stmtsWrite]
    exact Writer.ends_nil
  | cons s rest =>
    rw [stmtsLines, stmtsWrite]
    exact (s.ends_write opening level writer).andThen fun middle _ hloops =>
      Writer.inFor_congr hloops ▸ ends_stmtsWrite rest opening level middle

end

/-! ### Scripts -/

namespace Writer

/-- **One use of a writer gives the layout of the script and keeps the width**, whatever lines and
loops the writer has kept. -/
theorem generate_eq (writer : Writer) (program : Program) :
    (writer.generate program).1 = program.layout writer.width ∧
      (writer.generate program).2.width = writer.width := by
  -- Lines and loops of the last script are dropped first, so the run starts outside of all loops.
  have hend := ends_stmtsWrite program.body "if" 0 { writer with lines := #[], loops := [] }
  rw [generate, Program.layout, Program.lines]
  generalize stmtsWrite "if" 0 program.body { writer with lines := #[], loops := [] } = ending
    at hend ⊢
  obtain ⟨outcome, after⟩ := ending
  obtain ⟨hwidth, -, houtcome, hlines⟩ := hend
  cases hresult : stmtsLines "if" false 0 program.body with
  | error fault =>
    cases houtcome.trans (congrArg _ hresult)
    exact ⟨rfl, hwidth⟩
  | ok lines =>
    cases houtcome.trans (congrArg _ hresult)
    exact ⟨congrArg Except.ok (hlines lines hresult), hwidth⟩

/-- Any earlier uses keep the width. -/
theorem width_afterAll (writer : Writer) (programs : List Program) :
    (writer.afterAll programs).width = writer.width := by
  induction programs generalizing writer with
  | nil => rfl
  | cons program rest ih =>
    exact (ih (writer.generate program).2).trans (generate_eq writer program).2

/-- **A writer gives the layout of a script exactly if no refused construct occurs in it, and
otherwise the fault of the first one**, at any width and after any earlier uses, whether these gave
lines or were refused. -/
theorem generate_eq_error_iff_first_refused (writer : Writer) (earlier : List Program)
    (program : Program) :
    let result := ((writer.afterAll earlier).generate program).1
    result = program.layout writer.width ∧
      ((∃ fault, result = .error fault) ↔
        ∃ o ∈ program.occurrences, ∃ fault, o.Refused fault) ∧
      ∀ fault, result = .error fault ↔
        ∃ front o back, program.occurrences = front ++ o :: back ∧ o.Refused fault ∧
          ∀ other ∈ front, ∀ reason, ¬ other.Refused reason := by
  intro result
  have hresult : result = program.layout writer.width :=
    (generate_eq _ program).1.trans
      (congrArg (Program.layout · program) (width_afterAll writer earlier))
  have hfault (fault : LayoutFault) :
      result = .error fault ↔ firstFault? program.occurrences = some fault := by
    rw [hresult, ← faultOf_eq_some_iff, Program.faultOf_layout]
  refine ⟨hresult, ?_, fun fault => ?_⟩
  · rw [exists_congr hfault, exists_firstFault?_iff]
  · rw [hfault, firstFault?_eq_some_iff]

end Writer

end Offside
