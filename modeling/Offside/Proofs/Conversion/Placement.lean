import Offside.Proofs.Conversion.Shape
import Offside.Proofs.Layout.Outline
import Offside.Proofs.Layout.Placement
import Offside.Proofs.Scope.History

/-!
# Misplaced jumps in the output

Two parts of the work know where jumps and returns stand. Checking a script follows its statements
and reports a jump outside of all loops and a `return` outside of all functions; the layout only
puts lines below each other. `misplaced_eq_reported` shows that they agree on every script that has
output: reading the text of the output line by line and by indentation, as many jumps and returns
are out of place as were reported. In strict mode there are none.

* `linesOf_joinLines`: the lines of a layout can be told from its text.
* `countP_placed_widen`: how wide a level is does not matter.
* `SameKind.countP_lines`: as many lines are out of place as faults are found, for jumps and for
  returns alike.
-/

namespace Offside

/-! ### Lines of a text -/

/-- A line of text as its indentation and what stands behind it. -/
def Line.ofChars (chars : List Char) : Line :=
  ⟨(chars.takeWhile (· == ' ')).length, String.ofList (chars.dropWhile (· == ' '))⟩

/-- The lines of a text. -/
def linesOf (output : String) : List Line :=
  (output.toList.splitOn '\n').map Line.ofChars

/-- The line with its level counted in blanks. -/
def Line.widen (width : Nat) (line : Line) : Line :=
  ⟨line.level * width, line.text⟩

theorem Line.toList_render (width : Nat) (line : Line) :
    (line.render width).toList =
      List.replicate (line.level * width) ' ' ++ line.text.toList := by
  rw [Line.render_eq, String.toList_append, String.toList_ofList]

theorem Line.ofChars_render {width : Nat} {line : Line} (h : IsFlush line.text) :
    Line.ofChars (line.render width).toList = line.widen width := by
  obtain ⟨c, hhead, hc⟩ := h
  obtain ⟨rest, hrest⟩ := List.head?_eq_some_iff.mp hhead
  have hblank : ∀ d ∈ List.replicate (line.level * width) ' ', (d == ' ') = true := by
    intro d hd
    rw [List.eq_of_mem_replicate hd]
    rfl
  have hstop : (c == ' ') = false := beq_false_of_ne hc
  rw [Line.toList_render, Line.ofChars, List.takeWhile_append_of_pos hblank,
    List.dropWhile_append_of_pos hblank, hrest, List.takeWhile_cons, List.dropWhile_cons, hstop,
    ← hrest]
  simp [Line.widen]

theorem isOneLine_render {line : Line} (h : IsOneLine line.text) (width : Nat) :
    IsOneLine (line.render width) := by
  rw [IsOneLine, Line.toList_render]
  intro hmem
  rcases List.mem_append.mp hmem with hmem | hmem
  · exact absurd (List.eq_of_mem_replicate hmem) (by decide)
  · exact h hmem

/-- Texts without newlines can be told apart again once they are put one below the other. -/
theorem splitOn_joinLines {texts : List String} (hne : texts ≠ [])
    (h : ∀ text ∈ texts, IsOneLine text) :
    (joinLines texts).toList.splitOn '\n' = texts.map String.toList := by
  have hnewline : "\n".toList = ['\n'] := rfl
  rw [joinLines, String.toList_intercalate, hnewline, List.splitOn_intercalate]
  · exact List.forall_mem_map.mpr h
  · simpa using hne

/-- **The text of a layout shows its lines.** -/
theorem linesOf_joinLines {width : Nat} {lines : List Line} (hne : lines ≠ [])
    (hlines : AreLines lines) (hflush : ∀ line ∈ lines, IsFlush line.text) :
    linesOf (joinLines (lines.map (Line.render width))) = lines.map (Line.widen width) := by
  have hone : ∀ text ∈ lines.map (Line.render width), IsOneLine text :=
    List.forall_mem_map.mpr fun line hline => isOneLine_render (hlines line hline) width
  rw [linesOf, splitOn_joinLines (by simpa using hne) hone, List.map_map, List.map_map]
  exact List.map_congr_left fun line hline => Line.ofChars_render (hflush line hline)

/-! ### The width of a level -/

section Widen

variable {width : Nat}

theorem enclosers_widen (hwidth : 0 < width) (level : Nat) (above : List Line) :
    enclosers (level * width) (above.map (Line.widen width)) =
      (enclosers level above).map (Line.widen width) := by
  induction above generalizing level with
  | nil => rfl
  | cons line rest ih =>
    have hlt : (line.widen width).level < level * width ↔ line.level < level :=
      Nat.mul_lt_mul_right hwidth
    rw [List.map_cons, enclosers, enclosers]
    by_cases hless : line.level < level
    · rw [if_pos hless, if_pos (hlt.mpr hless), List.map_cons]
      exact congrArg _ (ih line.level)
    · rw [if_neg hless, if_neg (mt hlt.mp hless), ih]

/-- A line and those around it with their levels counted in blanks. -/
def Placed.widen (width : Nat) (p : Placed) : Placed :=
  ⟨p.line.widen width, p.around.map (Line.widen width)⟩

theorem placed_widen (hwidth : 0 < width) (above lines : List Line) :
    placed (above.map (Line.widen width)) (lines.map (Line.widen width)) =
      (placed above lines).map (Placed.widen width) := by
  induction lines generalizing above with
  | nil => rfl
  | cons line rest ih =>
    have haround := enclosers_widen hwidth line.level above
    have hrest := ih (line :: above)
    rw [List.map_cons, placed, placed, List.map_cons, ← hrest]
    exact congrArg (· :: _) (congrArg (Placed.mk _) haround)

theorem inLoop_widen (around : List Line) :
    inLoop (around.map (Line.widen width)) = inLoop around := by
  rw [inLoop, List.takeWhile_map, List.any_map]
  rfl

theorem inFunction_widen (around : List Line) :
    inFunction (around.map (Line.widen width)) = inFunction around := by
  rw [inFunction, List.any_map]
  rfl

/-- How wide a level is does not matter. -/
theorem countP_placed_widen (hwidth : 0 < width) {p : Placed → Bool}
    (h : ∀ line, p (line.widen width) = p line) (lines : List Line) :
    (placed [] (lines.map (Line.widen width))).countP p = (placed [] lines).countP p := by
  have hplaced := placed_widen hwidth [] lines
  rw [List.map_nil] at hplaced
  rw [hplaced, List.countP_map]
  exact congrArg (fun q => (placed [] lines).countP q) (funext h)

end Widen

/-! ### Misplaced lines, events and faults -/

namespace Event

/-- Is this a jump outside of all loops? -/
def isMisplacedJump : Event → Bool
  | jump _ inLoop => !inLoop
  | _ => false

/-- Is this a `return` outside of all functions? -/
def isMisplacedReturn : Event → Bool
  | giveBack inFunction => !inFunction
  | _ => false

end Event

namespace SemanticFault

/-- Is a jump reported that is outside of all loops? -/
def isJumpOutsideLoop : SemanticFault → Bool
  | jumpOutsideLoop _ => true
  | _ => false

/-- Is a `return` reported that is outside of all functions? -/
def isReturnOutsideFunction : SemanticFault → Bool
  | returnOutsideFunction => true
  | _ => false

end SemanticFault

/-- The same kind of misplacement among lines, among events and among faults. -/
structure SameKind (p : Placed → Bool) (q : Event → Bool) (r : SemanticFault → Bool) : Prop where
  line_eq : ∀ line : Placed, p line = line.event?.any q
  widen_eq : ∀ (width : Nat) (line : Placed), p (line.widen width) = p line
  isJump : ∀ event : Event, q event → event.isJump
  faulty : ∀ {history step fault}, Scope.Faulty history step fault → r fault = q step.event
  clean : ∀ {history step}, (∀ fault, ¬ Scope.Faulty history step fault) → q step.event = false

theorem isReturn_eq_false_of_isJump {line : Line} (h : line.isJump) : line.isReturn = false := by
  simp only [Line.isJump, Bool.or_eq_true, decide_eq_true_eq] at h
  rcases h with h | h
  · rw [Line.isReturn, h]
    decide
  · rw [Line.isReturn, h]
    decide

theorem sameKind_jump : SameKind Placed.isMisplacedJump Event.isMisplacedJump
    SemanticFault.isJumpOutsideLoop where
  line_eq := by
    intro line
    rw [Placed.isMisplacedJump, Placed.event?]
    cases line.line.isJump with
    | true => rfl
    | false => cases line.line.isReturn <;> rfl
  widen_eq := by
    intro width line
    exact congrArg (fun found => line.line.isJump && !found) (inLoop_widen line.around)
  isJump := by
    intro event hevent
    cases event with
    | jump word inLoop => rfl
    | _ => cases hevent
  faulty := by
    intro history step fault h
    cases h with
    | jumpOutsideLoop hloop => simp [Scope.Step.event, Scope.surroundings, Event.isMisplacedJump,
        SemanticFault.isJumpOutsideLoop, hloop]
    | _ => rfl
  clean := by
    intro history step h
    cases step with
    | jump word around =>
      have hloop : around.head? = some .loop :=
        Decidable.byContradiction fun hloop => h _ (.jumpOutsideLoop hloop)
      simp [Scope.Step.event, Scope.surroundings, Event.isMisplacedJump, hloop]
    | _ => rfl

theorem sameKind_return : SameKind Placed.isMisplacedReturn Event.isMisplacedReturn
    SemanticFault.isReturnOutsideFunction where
  line_eq := by
    intro line
    rw [Placed.isMisplacedReturn, Placed.event?]
    cases hjump : line.line.isJump with
    | true =>
      rw [isReturn_eq_false_of_isJump hjump]
      rfl
    | false => cases line.line.isReturn <;> rfl
  widen_eq := by
    intro width line
    exact congrArg (fun found => line.line.isReturn && !found) (inFunction_widen line.around)
  isJump := by
    intro event hevent
    cases event with
    | giveBack inFunction => rfl
    | _ => cases hevent
  faulty := by
    intro history step fault h
    cases h with
    | returnOutsideFunction hfunction => simp [Scope.Step.event, Scope.surroundings,
        Event.isMisplacedReturn, SemanticFault.isReturnOutsideFunction, hfunction]
    | _ => rfl
  clean := by
    intro history step h
    cases step with
    | giveBack around =>
      have hfunction : .function ∈ around :=
        Decidable.byContradiction fun hfunction => h _ (.returnOutsideFunction hfunction)
      simp [Scope.Step.event, Scope.surroundings, Event.isMisplacedReturn, hfunction]
    | _ => rfl

namespace SameKind

variable {p : Placed → Bool} {q : Event → Bool} {r : SemanticFault → Bool}

/-- As many faults are found as events are out of place. -/
theorem countP_reading (h : SameKind p q r) {history steps : List Scope.Step}
    {faults : List SemanticFault} (hreading : Scope.Reading history steps faults) :
    faults.countP r = (steps.map Scope.Step.event).countP q := by
  induction hreading with
  | nil => rfl
  | faulty hfaulty _ ih =>
    rw [List.map_cons, List.countP_cons, List.countP_cons, ih, h.faulty hfaulty]
  | clean hclean _ ih =>
    rw [List.map_cons, List.countP_cons_of_neg (ne_true_of_eq_false (h.clean hclean)), ih]

theorem countP_semanticFaults (h : SameKind p q r) (program : Program) :
    (semanticFaults program).countP r = program.events.countP q := by
  rw [h.countP_reading (Scope.reading_semanticFaults program), Scope.map_event_steps]

/-- As many lines are out of place as jumps and returns among them. -/
theorem countP_placed (h : SameKind p q r) (lines : List Line) :
    (placed [] lines).countP p = (jumpsIn [] lines).countP q := by
  rw [jumpsIn, List.countP_filterMap]
  congr 1
  funext line
  rw [h.line_eq]
  cases line.event? <;> rfl

/-- As many lines are out of place as faults are found. -/
theorem countP_lines (h : SameKind p q r) {program : Program} {lines : List Line}
    (hlines : program.lines = .ok lines) (hleaves : ProperLeaves program.leaves) :
    (placed [] lines).countP p = (semanticFaults program).countP r := by
  have hjumps : jumpsIn [] lines = program.events.filter Event.isJump :=
    jumpsIn_stmtsLines program.body (.head _) hlines hleaves .top
  have hfilter : (program.events.filter Event.isJump).countP q = program.events.countP q := by
    rw [List.countP_filter]
    congr 1
    funext event
    cases hevent : q event with
    | true => rw [h.isJump event hevent]; rfl
    | false => rfl
  rw [h.countP_placed, hjumps, h.countP_semanticFaults]
  exact hfilter

/-- This can be told from the text that the lines make. -/
theorem countP_linesOf (h : SameKind p q r) {width : Nat} (hwidth : 0 < width) {program : Program}
    {lines : List Line} (hlines : program.lines = .ok lines)
    (hleaves : ProperLeaves program.leaves) :
    (placed [] (linesOf (joinLines (lines.map (Line.render width))))).countP p =
      (semanticFaults program).countP r := by
  rw [← h.countP_lines hlines hleaves]
  by_cases hne : lines = []
  · -- A script without lines has the empty text, and that is one blank line.
    have hblank : linesOf (joinLines ([].map (Line.render width))) = [⟨0, ""⟩] := rfl
    have hplace : p ⟨⟨0, ""⟩, []⟩ = false := h.line_eq _
    rw [hne, hblank]
    exact List.countP_cons_of_neg (ne_true_of_eq_false hplace)
  · have hareLines := areLines_stmtsLines program.body (.head _) hlines hleaves
    have hflush := (indented_stmtsLines program.body (.head _) hlines hleaves.isNamed).flush
    rw [linesOf_joinLines hne hareLines hflush, countP_placed_widen hwidth (h.widen_eq width)]

end SameKind

/-! ### Conversions with output -/

/-- Does the diagnostic report a semantic fault of this kind? -/
def Diagnostic.reports (r : SemanticFault → Bool) : Diagnostic → Bool
  | semantic fault => r fault
  | _ => false

/-- How many faults of this kind are reported. -/
def Conversion.reported (r : SemanticFault → Bool) (conversion : Conversion) : Nat :=
  conversion.diagnostics.countP (Diagnostic.reports r)

theorem reported_eq_countP {conversion : Conversion} {lexical : List LexicalFault}
    {semantic : List SemanticFault} (r : SemanticFault → Bool)
    (h : conversion.diagnostics = lexical.map .lexical ++ semantic.map .semantic) :
    conversion.reported r = semantic.countP r := by
  have hlexical : (lexical.map Diagnostic.lexical).countP (Diagnostic.reports r) = 0 := by
    rw [List.countP_map]
    exact List.countP_eq_zero.mpr fun _ _ => Bool.false_ne_true
  rw [Conversion.reported, h, List.countP_append, hlexical, Nat.zero_add, List.countP_map]
  rfl

/-- Output is the lines of a program that is not withheld, and semantic faults are the last that is
reported about it. -/
theorem exists_lines_of_output {settings : Settings} {source output : String}
    (h : (convert settings source).output = some output) :
    ∃ program lines, parse (tokens source) = .ok program ∧ ¬ Withheld settings program ∧
      program.lines = .ok lines ∧ output = joinLines (lines.map (Line.render settings.indent)) ∧
      (convert settings source).diagnostics =
        (lexicalFaults source).map .lexical ++ (semanticFaults program).map .semantic := by
  obtain ⟨verdict, hleads⟩ := exists_leadsTo settings source
  cases hleads with
  | refused hparse =>
    rw [convert_of_error settings hparse, output_check] at h
    cases h
  | withheld hparse hwithheld =>
    rw [convert_of_withheld settings hparse hwithheld, output_check] at h
    cases h
  | made hparse hmade hlayout =>
    obtain ⟨lines, hlines, hrender⟩ := bind_eq_ok.mp hlayout
    cases hrender
    rw [convert_of_layout_ok settings hparse hmade hlayout] at h
    refine ⟨_, lines, hparse, hmade, hlines, (Option.some.inj h).symm, ?_⟩
    rw [convert_of_layout_ok settings hparse hmade hlayout, check_of_ok hparse]
  | stopped hparse hmade hlayout =>
    rw [convert_of_layout_error settings hparse hmade hlayout] at h
    cases (output_check source).symm.trans h

/-- **What is reported about jumps and returns is what can be seen in the output.** Where a level
has a width, the `break`s and `continue`s of the output that stand in no loop of their function are
as many as were reported, and so are the `return`s that stand in no function. In strict mode there
are none. -/
theorem misplaced_eq_reported {settings : Settings} (hwidth : 1 ≤ settings.indent)
    {source output : String} (h : (convert settings source).output = some output) :
    misplacedJumps (linesOf output) =
        (convert settings source).reported SemanticFault.isJumpOutsideLoop ∧
      misplacedReturns (linesOf output) =
        (convert settings source).reported SemanticFault.isReturnOutsideFunction ∧
      (settings.mode = .strict →
        misplacedJumps (linesOf output) = 0 ∧ misplacedReturns (linesOf output) = 0) := by
  obtain ⟨program, lines, hparse, hmade, hlines, rfl, hdiagnostics⟩ := exists_lines_of_output h
  have hleaves : ProperLeaves program.leaves := isProper_of_mem_leaves hparse
  have hjumps := sameKind_jump.countP_linesOf hwidth hlines hleaves
  have hreturns := sameKind_return.countP_linesOf hwidth hlines hleaves
  rw [reported_eq_countP _ hdiagnostics, reported_eq_countP _ hdiagnostics, misplacedJumps,
    misplacedReturns, hjumps, hreturns]
  refine ⟨rfl, rfl, fun hstrict => ?_⟩
  have hnone : semanticFaults program = [] := Decidable.byContradiction fun hne =>
    hmade ⟨hstrict, hne⟩
  rw [hnone]
  exact ⟨rfl, rfl⟩

/-- A loop around a function, with jumps in both, and a `return` outside of the function. -/
theorem misplaced_eq_reported_of_nested :
    let source := "while (1) \x7b continue; function f() \x7b break; return; \x7d return 1; \x7d"
    let output := "while 1:\n  continue\n  def f():\n    break\n    return\n  return 1"
    (convert ⟨.lenient, 2⟩ source).output = some output ∧
      misplacedJumps (linesOf output) = 1 ∧ misplacedReturns (linesOf output) = 1 ∧
      (convert ⟨.lenient, 2⟩ source).reported SemanticFault.isJumpOutsideLoop = 1 ∧
      (convert ⟨.lenient, 2⟩ source).reported SemanticFault.isReturnOutsideFunction = 1 := by
  intro source output
  have houtput : (convert ⟨.lenient, 2⟩ source).output = some output := by decide +kernel
  have hjumps : misplacedJumps (linesOf output) = 1 := by decide +kernel
  have hreturns : misplacedReturns (linesOf output) = 1 := by decide +kernel
  have hreported := misplaced_eq_reported (by decide) houtput
  rw [hjumps, hreturns] at hreported
  exact ⟨houtput, hjumps, hreturns, hreported.1.symm, hreported.2.1.symm⟩

end Offside
