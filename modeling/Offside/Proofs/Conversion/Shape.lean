import Offside.Conversion
import Offside.Proofs.Token.Tiling

/-!
# The shapes of a conversion

Whatever the script and the settings, a conversion reports lexical faults from left to right, and
then either one grammar fault, with no output, or semantic faults and at most one fault of the
layout. `Verdict` is what follows the lexical faults, `Verdict.stages` the stages that report it,
and `Verdict.Fits` says when there is output.

`exists_shape` is the main statement. `LeadsTo` lists the four ways a conversion can go, and what
is said about conversions and checks is read off them: a fatal diagnostic comes last and alone,
`check` differs from `convert` in what the layout adds, and the mode matters only to scripts with
semantic faults.
-/

namespace Offside

/-! ### Verdicts -/

/-- What becomes of the tokens of a script: they are no program, or they are one, whose names and
jumps may be wrong and which may hold something that has no counterpart in the output. -/
inductive Verdict where
  | refused (fault : GrammarFault)
  | understood (semantic : List SemanticFault) (layout : Option LayoutFault)

namespace Verdict

/-- What is reported after the lexical faults. -/
def diagnostics : Verdict → List Diagnostic
  | refused fault => [.grammar fault]
  | understood semantic layout => semantic.map .semantic ++ layout.toList.map .layout

/-- The stages that report it. -/
def stages : Verdict → List Stage
  | refused _ => [.grammar]
  | understood semantic layout =>
    List.replicate semantic.length .semantic ++ layout.toList.map fun _ => .generation

/-- The semantic faults of a verdict. -/
def semantic : Verdict → List SemanticFault
  | refused _ => []
  | understood semantic _ => semantic

/-- The verdict as it is before any output is made. -/
def beforeLayout : Verdict → Verdict
  | refused fault => refused fault
  | understood semantic _ => understood semantic none

/-- What ends the work. -/
def fatal? : Verdict → Option Diagnostic
  | refused fault => some (.grammar fault)
  | understood _ layout => layout.map .layout

/-- The rest of a conversion fits its verdict. A refused script has no statements and no output. A
script that is understood has output unless the layout fails or strict mode withholds it, and what
is withheld is not laid out. -/
def Fits (mode : Mode) (conversion : Conversion) : Verdict → Prop
  | refused _ =>
    conversion.output = none ∧ conversion.counts.statements = 0 ∧ conversion.counts.lines = 0
  | understood semantic layout =>
    (conversion.output.isSome ↔ layout = none ∧ ¬ (mode = .strict ∧ semantic ≠ [])) ∧
      (mode = .strict ∧ semantic ≠ [] → layout = none)

theorem map_stage (verdict : Verdict) :
    verdict.diagnostics.map Diagnostic.stage = verdict.stages := by
  cases verdict with
  | refused fault => rfl
  | understood semantic layout =>
    rw [diagnostics, stages, List.map_append, List.map_map, List.map_map, ← List.map_const']
    rfl

theorem filter_isFatal (verdict : Verdict) :
    verdict.diagnostics.filter Diagnostic.isFatal = verdict.fatal?.toList := by
  cases verdict with
  | refused fault => rfl
  | understood semantic layout =>
    have hsemantic : (semantic.map Diagnostic.semantic).filter Diagnostic.isFatal = [] := by
      simp [Diagnostic.isFatal, Diagnostic.severity, Diagnostic.stage, Stage.severity]
    rw [diagnostics, List.filter_append, hsemantic]
    cases layout <;> rfl

/-- A fatal diagnostic is the last one. -/
theorem getLast?_eq_of_fatal? {verdict : Verdict} {diagnostic : Diagnostic}
    (h : verdict.fatal? = some diagnostic) :
    verdict.diagnostics.getLast? = some diagnostic := by
  cases verdict with
  | refused fault => exact h
  | understood semantic layout =>
    obtain ⟨fault, rfl, rfl⟩ := Option.map_eq_some_iff.mp h
    exact List.getLast?_concat

/-- Where there is output nothing is fatal. -/
theorem Fits.fatal?_eq_none {mode : Mode} {conversion : Conversion} {verdict : Verdict}
    (h : verdict.Fits mode conversion) (houtput : conversion.output.isSome) :
    verdict.fatal? = none := by
  cases verdict with
  | refused fault =>
    rw [h.1] at houtput
    cases houtput
  | understood semantic layout =>
    have hlayout : layout = none := (h.1.mp houtput).1
    rw [hlayout]
    rfl

end Verdict

/-! ### The stages -/

section Stages

variable {source : String} {program : Program} (settings : Settings)

theorem check_of_error {fault : GrammarFault} (hparse : parse (tokens source) = .error fault) :
    check source =
      ⟨none, (lexicalFaults source).map .lexical ++ [.grammar fault],
        ⟨(tokens source).length, 0, 0⟩⟩ := by
  simp only [check, read, hparse]

theorem check_of_ok (hparse : parse (tokens source) = .ok program) :
    check source =
      ⟨none, (lexicalFaults source).map .lexical ++ (semanticFaults program).map .semantic,
        ⟨(tokens source).length, program.body.length, 0⟩⟩ := by
  simp only [check, read, hparse]

theorem convert_of_error {fault : GrammarFault} (hparse : parse (tokens source) = .error fault) :
    convert settings source = check source := by
  simp only [convert, check, read, hparse]

/-- In strict mode the lines of a program with semantic faults are withheld. -/
def Withheld (settings : Settings) (program : Program) : Prop :=
  settings.mode = .strict ∧ semanticFaults program ≠ []

/-- What the semantic stage has found are the semantic faults. -/
theorem foundBy_semantic_check (hparse : parse (tokens source) = .ok program) :
    (check source).foundBy .semantic = (semanticFaults program).map .semantic := by
  rw [check_of_ok hparse, Conversion.foundBy, List.filter_append, List.filter_eq_nil_iff.mpr,
    List.nil_append, List.filter_eq_self.mpr]
  · simp [Diagnostic.stage]
  · simp [Diagnostic.stage]

/-- This is what the check of a script tells. -/
theorem withheld_iff (hparse : parse (tokens source) = .ok program) :
    Withheld settings program ↔
      settings.mode = .strict ∧ (read source).found.foundBy .semantic ≠ [] := by
  have hfound : (read source).found = check source := rfl
  rw [hfound, foundBy_semantic_check hparse, Withheld, ne_eq, ne_eq, List.map_eq_nil_iff]

theorem program?_read (hparse : parse (tokens source) = .ok program) :
    (read source).program? = some program := by
  simp only [read, hparse]

theorem convert_of_withheld (hparse : parse (tokens source) = .ok program)
    (hwithheld : Withheld settings program) : convert settings source = check source := by
  rw [withheld_iff settings hparse] at hwithheld
  simp only [convert, program?_read hparse, if_pos hwithheld, check]

theorem convert_of_layout_ok {lines : List String} (hparse : parse (tokens source) = .ok program)
    (hmade : ¬ Withheld settings program) (hlayout : program.layout settings.indent = .ok lines) :
    convert settings source =
      ⟨some (joinLines lines), (check source).diagnostics,
        { (check source).counts with lines := lines.length }⟩ := by
  rw [withheld_iff settings hparse] at hmade
  simp only [convert, program?_read hparse, if_neg hmade, hlayout, check]

theorem convert_of_layout_error {fault : LayoutFault}
    (hparse : parse (tokens source) = .ok program) (hmade : ¬ Withheld settings program)
    (hlayout : program.layout settings.indent = .error fault) :
    convert settings source =
      { check source with diagnostics := (check source).diagnostics ++ [.layout fault] } := by
  rw [withheld_iff settings hparse] at hmade
  simp only [convert, program?_read hparse, if_neg hmade, hlayout, check]

end Stages

theorem output_check (source : String) : (check source).output = none := by
  cases hparse : parse (tokens source) with
  | error fault => rw [check_of_error hparse]
  | ok program => rw [check_of_ok hparse]

/-! ### How a verdict comes about -/

/-- The ways a conversion can go: the tokens are no program; the lines are withheld; they are made;
or the layout meets something that has no counterpart in the output. -/
inductive LeadsTo (settings : Settings) (source : String) : Verdict → Prop where
  | refused {fault : GrammarFault} (hparse : parse (tokens source) = .error fault) :
      LeadsTo settings source (.refused fault)
  | withheld {program : Program} (hparse : parse (tokens source) = .ok program)
      (hwithheld : Withheld settings program) :
      LeadsTo settings source (.understood (semanticFaults program) none)
  | made {program : Program} {lines : List String} (hparse : parse (tokens source) = .ok program)
      (hmade : ¬ Withheld settings program)
      (hlayout : program.layout settings.indent = .ok lines) :
      LeadsTo settings source (.understood (semanticFaults program) none)
  | stopped {program : Program} {fault : LayoutFault}
      (hparse : parse (tokens source) = .ok program) (hmade : ¬ Withheld settings program)
      (hlayout : program.layout settings.indent = .error fault) :
      LeadsTo settings source (.understood (semanticFaults program) (some fault))

theorem exists_leadsTo (settings : Settings) (source : String) :
    ∃ verdict, LeadsTo settings source verdict := by
  cases hparse : parse (tokens source) with
  | error fault => exact ⟨_, .refused hparse⟩
  | ok program =>
    by_cases hwithheld : Withheld settings program
    · exact ⟨_, .withheld hparse hwithheld⟩
    · cases hlayout : program.layout settings.indent with
      | ok lines => exact ⟨_, .made hparse hwithheld hlayout⟩
      | error fault => exact ⟨_, .stopped hparse hwithheld hlayout⟩

namespace LeadsTo

variable {settings : Settings} {source : String} {verdict : Verdict}

/-- `check` reports what there is to report before the layout. -/
theorem diagnostics_check (h : LeadsTo settings source verdict) :
    (check source).diagnostics =
      (lexicalFaults source).map .lexical ++ verdict.beforeLayout.diagnostics := by
  cases h with
  | refused hparse =>
    rw [check_of_error hparse]
    rfl
  | withheld hparse | made hparse | stopped hparse =>
    rw [check_of_ok hparse]
    exact congrArg _ (List.append_nil _).symm

theorem diagnostics_convert (h : LeadsTo settings source verdict) :
    (convert settings source).diagnostics =
      (lexicalFaults source).map .lexical ++ verdict.diagnostics := by
  have hcheck := h.diagnostics_check
  cases h with
  | refused hparse => rwa [convert_of_error settings hparse]
  | withheld hparse hwithheld => rwa [convert_of_withheld settings hparse hwithheld]
  | made hparse hmade hlayout => rwa [convert_of_layout_ok settings hparse hmade hlayout]
  | stopped hparse hmade hlayout =>
    rw [convert_of_layout_error settings hparse hmade hlayout, hcheck]
    simp [Verdict.diagnostics, Verdict.beforeLayout]

theorem fits (h : LeadsTo settings source verdict) :
    verdict.Fits settings.mode (convert settings source) := by
  cases h with
  | refused hparse =>
    rw [convert_of_error settings hparse, check_of_error hparse]
    exact ⟨rfl, rfl, rfl⟩
  | withheld hparse hwithheld =>
    have hnone : (convert settings source).output = none := by
      rw [convert_of_withheld settings hparse hwithheld, output_check]
    refine ⟨⟨fun hsome => ?_, fun hmade => absurd hwithheld hmade.2⟩, fun _ => rfl⟩
    rw [hnone] at hsome
    cases hsome
  | made hparse hmade hlayout =>
    rw [convert_of_layout_ok settings hparse hmade hlayout]
    exact ⟨⟨fun _ => ⟨rfl, hmade⟩, fun _ => rfl⟩, fun _ => rfl⟩
  | stopped hparse hmade hlayout =>
    have hnone : (convert settings source).output = none := by
      rw [convert_of_layout_error settings hparse hmade hlayout]
      exact output_check source
    refine ⟨⟨fun hsome => ?_, fun hlaid => ?_⟩, fun hwithheld => absurd hwithheld hmade⟩
    · rw [hnone] at hsome
      cases hsome
    · cases hlaid.1

/-- Making output does not change how much the script holds. -/
theorem counts_convert (h : LeadsTo settings source verdict) :
    (convert settings source).counts.tokens = (check source).counts.tokens ∧
      (convert settings source).counts.statements = (check source).counts.statements := by
  cases h with
  | refused hparse => simp [convert_of_error settings hparse]
  | withheld hparse hwithheld => simp [convert_of_withheld settings hparse hwithheld]
  | made hparse hmade hlayout => simp [convert_of_layout_ok settings hparse hmade hlayout]
  | stopped hparse hmade hlayout => simp [convert_of_layout_error settings hparse hmade hlayout]

/-- The mode matters only to scripts with semantic faults. -/
theorem convert_mode (h : LeadsTo settings source verdict) (hsemantic : verdict.semantic = [])
    (mode : Mode) : convert { settings with mode } source = convert settings source := by
  have hnever {settings : Settings} {program : Program} (hprogram : semanticFaults program = []) :
      ¬ Withheld settings program := fun hwithheld => hwithheld.2 hprogram
  cases h with
  | refused hparse => rw [convert_of_error _ hparse, convert_of_error _ hparse]
  | withheld hparse hwithheld => exact absurd hwithheld (hnever hsemantic)
  | made hparse hmade hlayout =>
    have hhere := convert_of_layout_ok settings hparse hmade hlayout
    have hthere := convert_of_layout_ok { settings with mode } hparse (hnever hsemantic) hlayout
    exact hthere.trans hhere.symm
  | stopped hparse hmade hlayout =>
    have hhere := convert_of_layout_error settings hparse hmade hlayout
    have hthere := convert_of_layout_error { settings with mode } hparse (hnever hsemantic) hlayout
    exact hthere.trans hhere.symm

end LeadsTo

/-! ### The shape -/

/-- A conversion, and the check of the same script, seen as lexical faults and a verdict. -/
structure Shape (settings : Settings) (source : String) (lexical : List LexicalFault)
    (verdict : Verdict) : Prop where
  diagnostics_eq :
    (convert settings source).diagnostics = lexical.map .lexical ++ verdict.diagnostics
  /-- Each part is reported by its own stage. -/
  stages_eq : (convert settings source).diagnostics.map Diagnostic.stage =
    List.replicate lexical.length .lexical ++ verdict.stages
  /-- Lexical faults are reported from left to right. -/
  lexical_in_order : lexical.Pairwise fun a b => a.span.start < b.span.start
  fits : verdict.Fits settings.mode (convert settings source)
  /-- At most one diagnostic is fatal. -/
  fatal_alone : ((convert settings source).diagnostics.filter Diagnostic.isFatal).length ≤ 1
  /-- What is fatal is reported last. -/
  fatal_last : ∀ diagnostic ∈ (convert settings source).fatal?,
    (convert settings source).diagnostics.getLast? = some diagnostic
  /-- Where there is output nothing is fatal. -/
  fatal_of_output : (convert settings source).output.isSome →
    (convert settings source).fatal? = none
  /-- A check reports the same, up to the layout. -/
  check_diagnostics :
    (check source).diagnostics = lexical.map .lexical ++ verdict.beforeLayout.diagnostics
  check_tokens : (check source).counts.tokens = (convert settings source).counts.tokens
  check_statements :
    (check source).counts.statements = (convert settings source).counts.statements
  check_output : (check source).output = none
  /-- Without semantic faults the mode does not matter. -/
  modes_agree : verdict.semantic = [] →
    convert { settings with mode := .strict } source =
      convert { settings with mode := .lenient } source

theorem filter_isFatal_lexical (faults : List LexicalFault) :
    (faults.map Diagnostic.lexical).filter Diagnostic.isFatal = [] := by
  simp [Diagnostic.isFatal, Diagnostic.severity, Diagnostic.stage, Stage.severity]

theorem lexicalFaults_in_order (source : String) :
    (lexicalFaults source).Pairwise fun a b => a.span.start < b.span.start := by
  refine (pairwise_lexicalFaults source).imp_of_mem fun {a b} ha _ hprecedes => ?_
  obtain ⟨piece, hpiece, hspan, -⟩ := exists_piece_of_mem_lexicalFaults ha
  have hnonempty := (Piece.isAt_of_mem_pieces hpiece).lies.nonempty
  rw [hspan] at hnonempty
  exact Nat.lt_of_lt_of_le hnonempty hprecedes

/-- **Every conversion has a shape.** -/
theorem exists_shape (settings : Settings) (source : String) :
    ∃ lexical verdict, Shape settings source lexical verdict := by
  obtain ⟨verdict, h⟩ := exists_leadsTo settings source
  have hdiagnostics := h.diagnostics_convert
  -- Lexical faults are warnings, so what is fatal is in the verdict.
  have hfilter : (convert settings source).diagnostics.filter Diagnostic.isFatal =
      verdict.fatal?.toList := by
    rw [hdiagnostics, List.filter_append, filter_isFatal_lexical, verdict.filter_isFatal]
    rfl
  have hfatal : (convert settings source).fatal? = verdict.fatal? := by
    rw [Conversion.fatal?, ← List.head?_filter, hfilter]
    cases verdict.fatal? <;> rfl
  refine ⟨lexicalFaults source, verdict, ?_⟩
  constructor
  case diagnostics_eq => exact hdiagnostics
  case stages_eq =>
    rw [hdiagnostics, List.map_append, verdict.map_stage, List.map_map, ← List.map_const']
    rfl
  case lexical_in_order => exact lexicalFaults_in_order source
  case fits => exact h.fits
  case fatal_alone =>
    rw [hfilter]
    cases verdict.fatal? <;> simp
  case fatal_last =>
    intro diagnostic hdiagnostic
    rw [hfatal] at hdiagnostic
    have hlast := Verdict.getLast?_eq_of_fatal? hdiagnostic
    rw [hdiagnostics, List.getLast?_append, hlast]
    rfl
  case fatal_of_output =>
    intro houtput
    rw [hfatal]
    exact h.fits.fatal?_eq_none houtput
  case check_diagnostics => exact h.diagnostics_check
  case check_tokens => exact h.counts_convert.1.symm
  case check_statements => exact h.counts_convert.2.symm
  case check_output => exact output_check source
  case modes_agree =>
    intro hsemantic
    rw [h.convert_mode hsemantic .strict, h.convert_mode hsemantic .lenient]

end Offside
