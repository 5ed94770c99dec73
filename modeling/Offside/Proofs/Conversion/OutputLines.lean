import Offside.Proofs.Conversion.Placement

/-!
# The lines of the output

The output of a conversion is one text, made of lines that are put one below the other, and the
number of these lines is reported beside it. A newline inside of a line would break this up: the
text would have more lines than were counted, and they could not be told apart again.

`output_splits_into_lines` shows that this never happens. Only the strings of a script are written
out as they are in the source, and no string goes on over the end of its line there, so no line has
a newline in it (`areLines_stmtsLines`). Hence the lines can be read off the output by splitting it
(`splitOn_joinLines`) and counted by counting its newlines (`length_eq_count_newline`).
-/

namespace Offside

/-- One newline stands between each two lines. -/
theorem length_eq_count_newline {texts : List String} (hne : texts ≠ [])
    (h : ∀ text ∈ texts, IsOneLine text) :
    texts.length = 1 + (joinLines texts).toList.count '\n' := by
  induction texts with
  | nil => exact absurd rfl hne
  | cons first rest ih =>
    obtain ⟨hfirst, hrest⟩ := List.forall_mem_cons.mp h
    have hzero : first.toList.count '\n' = 0 := List.count_eq_zero.mpr hfirst
    cases rest with
    | nil =>
      have hsingle : joinLines [first] = first := String.intercalate_singleton
      rw [hsingle, hzero]
      rfl
    | cons second more =>
      have hjoin : joinLines (first :: second :: more) =
          first ++ "\n" ++ joinLines (second :: more) := String.intercalate_cons_cons
      have hnewline : "\n".toList.count '\n' = 1 := rfl
      rw [List.length_cons, ih (by simp) hrest, hjoin, String.toList_append,
        String.toList_append, List.count_append, List.count_append, hzero, hnewline]
      omega

/-- No text is empty, so lines that are put one below the other are not either. -/
theorem joinLines_ne_empty {texts : List String} (hne : texts ≠ [])
    (h : ∀ text ∈ texts, text ≠ "") : joinLines texts ≠ "" := by
  cases texts with
  | nil => exact absurd rfl hne
  | cons first rest =>
    have hfirst : first ≠ "" := h first List.mem_cons_self
    cases rest with
    | nil =>
      have hsingle : joinLines [first] = first := String.intercalate_singleton
      rwa [hsingle]
    | cons second more =>
      have hjoin : joinLines (first :: second :: more) =
          first ++ "\n" ++ joinLines (second :: more) := String.intercalate_cons_cons
      rw [hjoin]
      intro hempty
      exact hfirst (String.append_eq_empty_iff.mp (String.append_eq_empty_iff.mp hempty).1).1

theorem render_ne_empty {line : Line} (h : IsFlush line.text) (width : Nat) :
    line.render width ≠ "" := by
  obtain ⟨c, hhead, -⟩ := h
  intro hempty
  have hchars := congrArg String.toList hempty
  rw [Line.toList_render] at hchars
  have htext := (List.append_eq_nil_iff.mp hchars).2
  rw [htext] at hhead
  cases hhead

/-- **Lines of the output are lines.** Where there is output, it is the lines of the script put one
below the other, none of which has a newline in it. Either there are none, and the output is empty;
or there is one line more than there are newlines, and splitting the output at its newlines gives
the lines back. What is counted is the lines. -/
theorem output_splits_into_lines {settings : Settings} {source output : String}
    (h : (convert settings source).output = some output) :
    ∃ program texts, parse (tokens source) = .ok program ∧
      program.layout settings.indent = .ok texts ∧ output = joinLines texts ∧
      (∀ text ∈ texts, '\n' ∉ text.toList) ∧
      (output = "" ∧ texts = [] ∧ (convert settings source).counts.lines = 0 ∨
        output ≠ "" ∧
          (convert settings source).counts.lines = 1 + output.toList.count '\n' ∧
          output.toList.splitOn '\n' = texts.map String.toList) := by
  obtain ⟨program, lines, hparse, hmade, hlines, rfl, -⟩ := exists_lines_of_output h
  have hleaves : ProperLeaves program.leaves := isProper_of_mem_leaves hparse
  have hareLines := areLines_stmtsLines program.body (.head _) hlines hleaves
  have hflush := (indented_stmtsLines program.body (.head _) hlines hleaves.isNamed).flush
  have hlayout : program.layout settings.indent = .ok (lines.map (Line.render settings.indent)) :=
    bind_eq_ok.mpr ⟨lines, hlines, pure_eq_ok.mpr rfl⟩
  have hone : ∀ text ∈ lines.map (Line.render settings.indent), IsOneLine text :=
    List.forall_mem_map.mpr fun line hline => isOneLine_render (hareLines line hline) _
  have hfull : ∀ text ∈ lines.map (Line.render settings.indent), text ≠ "" :=
    List.forall_mem_map.mpr fun line hline => render_ne_empty (hflush line hline) _
  rw [convert_of_layout_ok settings hparse hmade hlayout]
  refine ⟨program, _, hparse, hlayout, rfl, hone, ?_⟩
  by_cases hne : lines.map (Line.render settings.indent) = []
  · rw [hne]
    exact .inl ⟨rfl, rfl, rfl⟩
  · exact .inr ⟨joinLines_ne_empty hne hfull, length_eq_count_newline hne hone,
      splitOn_joinLines hne hone⟩

/-- A string that is cut off by the end of its line, right behind a backslash, inside of a loop. -/
theorem output_splits_into_lines_of_cut_off :
    let source := "while (1) \x7b var s = \"a\\\n; \x7d"
    let output := "while 1:\n  s = \"a\\\""
    (convert ⟨.lenient, 2⟩ source).output = some output ∧
      (convert ⟨.lenient, 2⟩ source).counts.lines = 1 + output.toList.count '\n' ∧
      output.toList.splitOn '\n' = ["while 1:".toList, "  s = \"a\\\"".toList] ∧
      ∃ program texts, parse (tokens source) = .ok program ∧ program.layout 2 = .ok texts ∧
        texts.map String.toList = output.toList.splitOn '\n' := by
  intro source output
  have houtput : (convert ⟨.lenient, 2⟩ source).output = some output := by decide +kernel
  have hsplit : output.toList.splitOn '\n' = ["while 1:".toList, "  s = \"a\\\"".toList] := by
    decide +kernel
  obtain ⟨program, texts, hparse, hlayout, -, -, ⟨hempty, -⟩ | ⟨-, hcount, hlines⟩⟩ :=
    output_splits_into_lines houtput
  · exact absurd hempty (by decide)
  · exact ⟨houtput, hcount, hsplit, program, texts, hparse, hlayout, hlines.symm⟩

end Offside
