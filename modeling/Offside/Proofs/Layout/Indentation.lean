import Mathlib.Data.List.Chain
import Offside.Proofs.Layout.Lines

/-!
# Well-formed indentation

The lines of a list of statements at some level are `Indented`: no text is empty or starts with a
blank; the first line stands at the level and no line before it; a line stands one level further in
than the line before it if that one is a header, and at most as far in otherwise; and the last line
is no header. A *header* is a line whose text ends with a colon.

Lines that are indented can be put one below the other (`Indented.append`) and below a header
(`Indented.below`), and this is how all lines are made (`indented_stmtsLines`).
-/

namespace Offside

/-! ### Lines -/

/-- Does the line open a suite? -/
def Line.isHeader (line : Line) : Bool :=
  line.text.toList.getLast? == some ':'

/-- May the second line stand right below the first? -/
def Line.Precedes (line next : Line) : Prop :=
  if line.isHeader then next.level = line.level + 1 else next.level ≤ line.level

/-- The text is not empty and does not start with a blank. -/
def IsFlush (text : String) : Prop :=
  ∃ c, text.toList.head? = some c ∧ c ≠ ' '

theorem IsFlush.append {a : String} (h : IsFlush a) (b : String) : IsFlush (a ++ b) := by
  obtain ⟨c, hc, hne⟩ := h
  exact ⟨c, by simp [String.toList_append, hc], hne⟩

theorem isFlush_of_opens {text : String} (h : Opens text) : IsFlush text := by
  obtain ⟨c, hc, hopens⟩ := h
  refine ⟨c, hc, ?_⟩
  rintro rfl
  exact absurd hopens (by decide)

theorem isHeader_eq_false_of_closes {level : Nat} {text : String} (h : Closes text) :
    Line.isHeader ⟨level, text⟩ = false := by
  obtain ⟨c, hc, hcloses⟩ := h
  have hne : c ≠ ':' := by
    rintro rfl
    exact absurd hcloses (by decide)
  simp [Line.isHeader, hc, hne]

theorem isHeader_append_colon {level : Nat} (text : String) :
    Line.isHeader ⟨level, text ++ ":"⟩ := by
  simp [Line.isHeader, String.toList_append]

/-! ### Indented lines -/

/-- Lines whose indentation is in order, from the given level on. -/
structure Indented (level : Nat) (lines : List Line) : Prop where
  flush : ∀ line ∈ lines, IsFlush line.text
  first : ∀ line ∈ lines.head?, line.level = level
  inside : ∀ line ∈ lines, level ≤ line.level
  steps : lines.IsChain Line.Precedes
  last : ∀ line ∈ lines.getLast?, line.isHeader = false

namespace Indented

variable {level : Nat} {lines others : List Line} {text : String}

theorem nil : Indented level [] :=
  ⟨nofun, nofun, nofun, .nil, nofun⟩

theorem singleton (hflush : IsFlush text) (hheader : Line.isHeader ⟨level, text⟩ = false) :
    Indented level [⟨level, text⟩] where
  flush := List.forall_mem_singleton.mpr hflush
  first := by rintro line ⟨⟩; rfl
  inside := List.forall_mem_singleton.mpr (Nat.le_refl level)
  steps := .singleton _
  last := by rintro line ⟨⟩; exact hheader

/-- The line after the first part is at the level, and the last one of the first part is no header
and not before the level. -/
theorem append (h : Indented level lines) (hothers : Indented level others) :
    Indented level (lines ++ others) where
  flush := List.forall_mem_append.mpr ⟨h.flush, hothers.flush⟩
  first := by
    cases lines with
    | nil => exact hothers.first
    | cons line rest => exact h.first
  inside := List.forall_mem_append.mpr ⟨h.inside, hothers.inside⟩
  steps := by
    refine List.isChain_append.mpr ⟨h.steps, hothers.steps, fun line hline next hnext => ?_⟩
    rw [Line.Precedes, h.last line hline, hothers.first next hnext]
    exact h.inside line (List.mem_of_mem_getLast? hline)
  last := by
    intro line hline
    rw [List.getLast?_append] at hline
    cases hlast : others.getLast? with
    | none =>
      rw [hlast] at hline
      exact h.last line hline
    | some final =>
      rw [hlast] at hline
      cases hline
      exact hothers.last line hlast

theorem below (hflush : IsFlush text) (hheader : Line.isHeader ⟨level, text⟩)
    (h : Indented (level + 1) lines) (hne : lines ≠ []) :
    Indented level (⟨level, text⟩ :: lines) where
  flush := List.forall_mem_cons.mpr ⟨hflush, h.flush⟩
  first := by rintro line ⟨⟩; rfl
  inside := List.forall_mem_cons.mpr
    ⟨Nat.le_refl level, fun line hline => Nat.le_of_succ_le (h.inside line hline)⟩
  steps := by
    refine List.isChain_cons.mpr ⟨fun next hnext => ?_, h.steps⟩
    rw [Line.Precedes, hheader, h.first next hnext]
    rfl
  last := by
    rw [List.getLast?_cons_of_ne_nil hne]
    exact h.last

/-- An empty body is the line `pass`, so that there is always something below a header. -/
theorem bodyLines (h : Indented level lines) : Indented level (bodyLines level lines) := by
  cases lines with
  | nil => exact singleton ⟨'p', rfl, by decide⟩ (isHeader_eq_false_of_closes ⟨'s', rfl, rfl⟩)
  | cons line rest => exact h

end Indented

theorem bodyLines_ne_nil {level : Nat} {lines : List Line} : bodyLines level lines ≠ [] := by
  cases lines <;> exact nofun

/-! ### Texts of simple statements -/

theorem Framed.indented {text : String} (h : Framed text) (level : Nat) :
    Indented level [⟨level, text⟩] :=
  .singleton (isFlush_of_opens h.opens) (isHeader_eq_false_of_closes h.closes)

theorem Expr.lineText_assign_eq_ok {target value : Expr} {t : String} :
    (assign target value).lineText = .ok t ↔ ∃ l r, target.text = .ok l ∧ value.lineText = .ok r ∧
      t = l ++ (" = " ++ r) := by
  rw [Expr.lineText]
  simp only [bind_eq_ok, pure_eq_ok, exists_and_left, String.append_assoc]

theorem framed_lineText {e : Expr} {t : String} (h : e.lineText = .ok t)
    (hnamed : IsNamed e.leaves) : Framed t := by
  fun_induction Expr.lineText e generalizing t with
  | case1 target value ih =>
    obtain ⟨l, r, hl, hr, rfl⟩ := Expr.lineText_assign_eq_ok.mp h
    have htarget := framed_text target hl (hnamed.mono (by simp +contextual [Expr.leaves]))
    have hvalue := ih hr (hnamed.mono (by simp +contextual [Expr.leaves]))
    exact htarget.append (hvalue.closes.prepend _)
  | case2 e => exact framed_text e h hnamed

theorem framed_declaration {d : Declaration} {t : String} (h : d.text = .ok t)
    (hnamed : IsNamed d.leaves) : Framed t := by
  have hname : Framed d.name := framed_of_isIdentifier (hnamed d.name (.head _))
  unfold Declaration.text at h
  split at h
  · next value hinit =>
    obtain ⟨v, hv, ht⟩ := bind_eq_ok.mp h
    rw [pure_eq_ok] at ht
    subst ht
    have hvalue := framed_lineText hv (hnamed.mono (by simp +contextual [Declaration.leaves, hinit]))
    rw [String.append_assoc]
    exact hname.append (hvalue.closes.prepend _)
  · rw [pure_eq_ok] at h
    subst h
    exact hname.append ⟨'e', rfl, rfl⟩

/-! ### Statements -/

/-- The words with which an `if` starts. -/
def openings : List String := ["if", "elif"]

theorem isFlush_of_mem_openings {opening : String} (h : opening ∈ openings) : IsFlush opening := by
  simp only [openings, List.mem_cons, List.not_mem_nil, or_false] at h
  rcases h with rfl | rfl
  · exact ⟨'i', rfl, by decide⟩
  · exact ⟨'e', rfl, by decide⟩

/-- A suite below a header that starts with a word. -/
theorem indented_suite {level : Nat} {word : String} {inner : List Line} (text : String)
    (hword : IsFlush word) (h : Indented (level + 1) inner) :
    Indented level (⟨level, word ++ text ++ ":"⟩ :: bodyLines (level + 1) inner) := by
  refine .below ?_ (isHeader_append_colon _) h.bodyLines bodyLines_ne_nil
  rw [String.append_assoc]
  exact hword.append _

theorem functionHeader_eq (name : String) (params : List String) :
    "def " ++ name ++ "(" ++ commaSeparated params ++ "):" =
      "def " ++ (name ++ "(" ++ commaSeparated params ++ ")") ++ ":" := by
  simp [String.append_assoc]

open Stmt

mutual

theorem Stmt.indented_lines {opening : String} {inFor : Bool} {level : Nat} {lines : List Line}
    (s : Stmt) (hopening : opening ∈ openings) (h : s.lines opening inFor level = .ok lines)
    (hnamed : IsNamed s.leaves) : Indented level lines := by
  cases s with
  | declare d =>
    obtain ⟨text, htext, rfl⟩ := lines_declare_eq_ok.mp h
    exact (framed_declaration htext hnamed).indented level
  | function name params body =>
    obtain ⟨inner, hbody, rfl⟩ := lines_function_eq_ok.mp h
    have hinner := indented_stmtsLines body (.head _) hbody
      (hnamed.mono (by simp +contextual [Stmt.leaves]))
    rw [functionHeader_eq]
    exact indented_suite _ ⟨'d', rfl, by decide⟩ hinner
  | ifThen condition yes =>
    obtain ⟨test, inner, -, hyes, rfl⟩ := lines_ifThen_eq_ok.mp h
    have hinner := indented_stmtsLines yes (.head _) hyes
      (hnamed.mono (by simp +contextual [Stmt.leaves]))
    exact indented_suite test ((isFlush_of_mem_openings hopening).append " ") hinner
  | ifElse condition yes no =>
    have hyesNamed : IsNamed (stmtsLeaves yes) := hnamed.mono (by simp +contextual [Stmt.leaves])
    have hnoNamed : IsNamed (stmtsLeaves no) := hnamed.mono (by simp +contextual [Stmt.leaves])
    have hword : IsFlush (opening ++ " ") := (isFlush_of_mem_openings hopening).append " "
    cases helse : isElseIf no with
    | true =>
      obtain ⟨test, inner, rest, -, hyes, hno, rfl⟩ := (lines_ifElse_eq_ok_of_isElseIf helse).mp h
      -- The block continues the `if` at the same level, as an `elif`.
      exact (indented_suite test hword (indented_stmtsLines yes (.head _) hyes hyesNamed)).append
        (indented_stmtsLines no (.tail _ (.head _)) hno hnoNamed)
    | false =>
      obtain ⟨test, inner, rest, -, hyes, hno, rfl⟩ :=
        (lines_ifElse_eq_ok_of_not_isElseIf helse).mp h
      have hrest := indented_stmtsLines no (.head _) hno hnoNamed
      exact (indented_suite test hword (indented_stmtsLines yes (.head _) hyes hyesNamed)).append
        (.below ⟨'e', rfl, by decide⟩ (isHeader_append_colon "else") hrest.bodyLines
          bodyLines_ne_nil)
  | whileLoop condition body =>
    obtain ⟨test, inner, -, hbody, rfl⟩ := lines_whileLoop_eq_ok.mp h
    have hinner := indented_stmtsLines body (.head _) hbody
      (hnamed.mono (by simp +contextual [Stmt.leaves]))
    exact indented_suite _ ⟨'w', rfl, by decide⟩ hinner
  | forLoop init condition update body =>
    obtain ⟨first, test, inner, last, hinit, -, hbody, hupdate, rfl⟩ := lines_forLoop_eq_ok.mp h
    have hfirst := framed_declaration hinit (hnamed.mono (by simp +contextual [Stmt.leaves]))
    have hlast := framed_lineText hupdate (hnamed.mono (by simp +contextual [Stmt.leaves]))
    have hinner := indented_stmtsLines body (.head _) hbody
      (hnamed.mono (by simp +contextual [Stmt.leaves]))
    have hloop : Indented level
        (⟨level, "while " ++ test ++ ":"⟩ :: (inner ++ [⟨level + 1, last⟩])) :=
      .below (IsFlush.append (.append ⟨'w', rfl, by decide⟩ test) ":") (isHeader_append_colon _)
        (hinner.append (hlast.indented (level + 1))) (by simp)
    exact (hfirst.indented level).append hloop
  | giveBack value =>
    cases value with
    | none =>
      rw [lines_giveBack_none_eq_ok.mp h]
      exact Framed.indented ⟨⟨'r', rfl, rfl⟩, ⟨'n', rfl, rfl⟩⟩ level
    | some value =>
      obtain ⟨text, htext, rfl⟩ := lines_giveBack_some_eq_ok.mp h
      have hframed := framed_text value htext hnamed
      exact Framed.indented ⟨.append ⟨'r', rfl, rfl⟩ text, hframed.closes.prepend _⟩ level
  | breakLoop =>
    rw [lines_breakLoop_eq_ok.mp h]
    exact Framed.indented ⟨⟨'b', rfl, rfl⟩, ⟨'k', rfl, rfl⟩⟩ level
  | continueLoop =>
    rw [(lines_continueLoop_eq_ok.mp h).2]
    exact Framed.indented ⟨⟨'c', rfl, rfl⟩, ⟨'e', rfl, rfl⟩⟩ level
  | expr value =>
    obtain ⟨text, htext, rfl⟩ := lines_expr_eq_ok.mp h
    exact (framed_lineText htext hnamed).indented level

/-- **The lines of statements with proper names are indented as they should be.** -/
theorem indented_stmtsLines {opening : String} {inFor : Bool} {level : Nat} {lines : List Line}
    (body : List Stmt) (hopening : opening ∈ openings)
    (h : stmtsLines opening inFor level body = .ok lines) (hnamed : IsNamed (stmtsLeaves body)) :
    Indented level lines := by
  cases body with
  | nil =>
    rw [stmtsLines_nil_eq_ok.mp h]
    exact .nil
  | cons s rest =>
    obtain ⟨first, others, hs, hrest, rfl⟩ := stmtsLines_cons_eq_ok.mp h
    exact (s.indented_lines hopening hs (hnamed.mono (by simp +contextual [stmtsLeaves]))).append
      (indented_stmtsLines rest hopening hrest (hnamed.mono (by simp +contextual [stmtsLeaves])))

end

end Offside
