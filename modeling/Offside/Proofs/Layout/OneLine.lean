import Offside.Proofs.Layout.Indentation
import Offside.Proofs.Parser.Source

/-!
# Lines without newlines

Every line of a layout is one line of text: no newline gets into it. The only leaves of a script
that could bring one along are its strings, and a string ends with its line in the source at the
latest.
-/

namespace Offside

/-- There is no newline in the text. -/
def IsOneLine (text : String) : Prop :=
  '\n' ∉ text.toList

instance (text : String) : Decidable (IsOneLine text) :=
  inferInstanceAs (Decidable (_ ∉ _))

/-- All leaves are proper. -/
def ProperLeaves (leaves : List Token.Kind) : Prop :=
  ∀ kind ∈ leaves, kind.IsProper

theorem ProperLeaves.mono {leaves others : List Token.Kind} (h : ProperLeaves leaves)
    (hsub : ∀ kind ∈ others, kind ∈ leaves) : ProperLeaves others :=
  fun kind hkind => h kind (hsub kind hkind)

theorem ProperLeaves.isNamed {leaves : List Token.Kind} (h : ProperLeaves leaves) :
    IsNamed leaves :=
  fun _ hname => (h _ hname).1

namespace IsOneLine

variable {a b : String}

theorem append (ha : IsOneLine a) (hb : IsOneLine b) : IsOneLine (a ++ b) := by
  rw [IsOneLine, String.toList_append]
  exact fun hmem => (List.mem_append.mp hmem).elim ha hb

theorem commaSeparated {texts : List String} (h : ∀ text ∈ texts, IsOneLine text) :
    IsOneLine (commaSeparated texts) := by
  induction texts with
  | nil => decide
  | cons first others ih =>
    obtain ⟨hfirst, hothers⟩ := List.forall_mem_cons.mp h
    cases others with
    | nil => exact hfirst
    | cons second more =>
      rw [commaSeparated_cons_cons]
      have hcomma : IsOneLine ", " := by decide
      exact hfirst.append (hcomma.append (ih hothers))

/-- Text that is written with the characters of names. -/
theorem of_isNameChar {text : String} (h : ∀ c ∈ text.toList, isNameChar c) : IsOneLine text :=
  fun hnewline => absurd (h _ hnewline) (by decide)

theorem of_isIdentifier {name : String} (h : Python.isIdentifier name.toList) : IsOneLine name :=
  of_isNameChar (Python.isNameChar_of_mem_identifier h)

theorem repr (n : Nat) : IsOneLine n.repr := by
  refine of_isNameChar fun c hc => ?_
  rw [Nat.repr_eq_ofList_toDigits, String.toList_ofList] at hc
  exact Python.isNameChar_of_isDigit (Nat.isDigit_of_mem_toDigits (by decide) (by decide) hc)

theorem asOperand (e : Expr) (least : Nat) (h : IsOneLine a) : IsOneLine (e.asOperand least a) := by
  rw [Expr.asOperand]
  split
  · have hopen : IsOneLine "(" := by decide
    exact (hopen.append h).append (by decide)
  · exact h

end IsOneLine

/-! ### Expressions -/

theorem isOneLine_calleeName {callee : String} (h : (calleeKind callee).IsProper) :
    IsOneLine (calleeName callee) := by
  rw [calleeName]
  split
  · decide
  · next hlog =>
    split
    · decide
    · rw [calleeKind, if_neg hlog] at h
      exact .of_isIdentifier h.1

theorem isOneLine_word (op : BinaryOp) : IsOneLine op.word := by
  cases op <;> decide

mutual

theorem isOneLine_text {t : String} : (e : Expr) → e.text = .ok t → ProperLeaves e.leaves →
    IsOneLine t
  | .assign _ _, h, _ => absurd h Expr.text_assign_ne_ok
  | .binary op left right, h, hleaves => by
    obtain ⟨l, r, hl, hr, rfl⟩ := Expr.text_binary_eq_ok.mp h
    have hleft := isOneLine_text left hl (hleaves.mono (by simp +contextual [Expr.leaves]))
    have hright := isOneLine_text right hr (hleaves.mono (by simp +contextual [Expr.leaves]))
    have hblank : IsOneLine " " := by decide
    exact ((hleft.asOperand _ _).append ((hblank.append (isOneLine_word op)).append hblank)).append
      (hright.asOperand _ _)
  | .unary op operand, h, hleaves => by
    obtain ⟨s, hs, rfl⟩ := Expr.text_unary_eq_ok.mp h
    have hword : IsOneLine op.word := by cases op <;> decide
    exact hword.append ((isOneLine_text operand hs hleaves).asOperand _ _)
  | .call callee arguments, h, hleaves => by
    obtain ⟨texts, htexts, rfl⟩ := Expr.text_call_eq_ok.mp h
    have hcallee := isOneLine_calleeName (hleaves (calleeKind callee) (.head _))
    have hopen : IsOneLine "(" := by decide
    have htexts := isOneLine_texts arguments htexts
      (hleaves.mono (by simp +contextual [Expr.leaves]))
    exact hcallee.append ((hopen.append (.commaSeparated htexts)).append (by decide))
  | .ident name, h, hleaves => by
    obtain rfl := Expr.text_ident_eq_ok.mp h
    exact .of_isIdentifier (hleaves (.identifier _) (.head _)).1
  | .number value, h, _ => by
    obtain rfl := Expr.text_number_eq_ok.mp h
    cases value with
    | ofNat n => exact .repr n
    | negSucc n =>
      have hsign : IsOneLine "-" := by decide
      exact hsign.append (.repr (n + 1))
  | .string raw, h, hleaves => by
    obtain rfl := Expr.text_string_eq_ok.mp h
    have hquote : IsOneLine "\"" := by decide
    have hraw : IsOneLine raw := hleaves (.string raw) (.head _)
    exact (hquote.append hraw).append hquote
  | .boolean value, h, _ => by
    obtain rfl := Expr.text_boolean_eq_ok.mp h
    cases value <;> decide
  | .array elements, h, hleaves => by
    obtain ⟨texts, htexts, rfl⟩ := Expr.text_array_eq_ok.mp h
    have hopen : IsOneLine "[" := by decide
    exact (hopen.append (.commaSeparated (isOneLine_texts elements htexts hleaves))).append
      (by decide)
  | .index object index, h, hleaves => by
    obtain ⟨o, i, ho, hi, rfl⟩ := Expr.text_index_eq_ok.mp h
    have hobject := isOneLine_text object ho (hleaves.mono (by simp +contextual [Expr.leaves]))
    have hindex := isOneLine_text index hi (hleaves.mono (by simp +contextual [Expr.leaves]))
    have hopen : IsOneLine "[" := by decide
    exact (hobject.asOperand _ _).append ((hopen.append hindex).append (by decide))
  | .property object name, h, hleaves => by
    obtain ⟨-, o, ho, rfl⟩ := Expr.text_property_eq_ok.mp h
    have hlen : IsOneLine "len" := by decide
    have hopen : IsOneLine "(" := by decide
    exact hlen.append ((hopen.append (isOneLine_text object ho hleaves)).append (by decide))

theorem isOneLine_texts {texts : List String} : (es : List Expr) → exprTexts es = .ok texts →
    ProperLeaves (exprsLeaves es) → ∀ text ∈ texts, IsOneLine text
  | [], h, _ => by
    rw [exprTexts_nil_eq_ok.mp h]
    exact fun _ htext => absurd htext List.not_mem_nil
  | e :: others, h, hleaves => by
    obtain ⟨first, rest, hfirst, hrest, rfl⟩ := exprTexts_cons_eq_ok.mp h
    refine List.forall_mem_cons.mpr ⟨?_, ?_⟩
    · exact isOneLine_text e hfirst (hleaves.mono (by simp +contextual [exprsLeaves]))
    · exact isOneLine_texts others hrest (hleaves.mono (by simp +contextual [exprsLeaves]))

end

theorem isOneLine_lineText {e : Expr} {t : String} (h : e.lineText = .ok t)
    (hleaves : ProperLeaves e.leaves) : IsOneLine t := by
  fun_induction Expr.lineText e generalizing t with
  | case1 target value ih =>
    obtain ⟨l, r, hl, hr, rfl⟩ := Expr.lineText_assign_eq_ok.mp h
    have htarget := isOneLine_text target hl (hleaves.mono (by simp +contextual [Expr.leaves]))
    have hvalue := ih hr (hleaves.mono (by simp +contextual [Expr.leaves]))
    have hsign : IsOneLine " = " := by decide
    exact htarget.append (hsign.append hvalue)
  | case2 e => exact isOneLine_text e h hleaves

theorem isOneLine_declaration {d : Declaration} {t : String} (h : d.text = .ok t)
    (hleaves : ProperLeaves d.leaves) : IsOneLine t := by
  have hname : IsOneLine d.name := .of_isIdentifier (hleaves (.identifier d.name) (.head _)).1
  unfold Declaration.text at h
  split at h
  · next value hinit =>
    obtain ⟨v, hv, ht⟩ := bind_eq_ok.mp h
    rw [pure_eq_ok] at ht
    subst ht
    have hvalue := isOneLine_lineText hv
      (hleaves.mono (by simp +contextual [Declaration.leaves, hinit]))
    exact (hname.append (by decide)).append hvalue
  · rw [pure_eq_ok] at h
    subst h
    exact hname.append (by decide)

/-! ### Statements -/

/-- Every line is one line of text. -/
def AreLines (lines : List Line) : Prop :=
  ∀ line ∈ lines, IsOneLine line.text

namespace AreLines

variable {level : Nat} {lines others : List Line} {text : String}

theorem singleton (h : IsOneLine text) : AreLines [⟨level, text⟩] :=
  List.forall_mem_singleton.mpr h

theorem append (h : AreLines lines) (hothers : AreLines others) : AreLines (lines ++ others) :=
  List.forall_mem_append.mpr ⟨h, hothers⟩

/-- A header and the body below it. -/
theorem below (htext : IsOneLine text) (h : AreLines lines) :
    AreLines (⟨level, text ++ ":"⟩ :: bodyLines (level + 1) lines) := by
  refine List.forall_mem_cons.mpr ⟨htext.append (by decide), ?_⟩
  cases lines with
  | nil => exact singleton (by decide)
  | cons line rest => exact h

end AreLines

theorem isOneLine_of_mem_openings {opening : String} (h : opening ∈ openings) :
    IsOneLine opening := by
  simp only [openings, List.mem_cons, List.not_mem_nil, or_false] at h
  rcases h with rfl | rfl <;> decide

open Stmt

mutual

theorem Stmt.areLines {opening : String} {inFor : Bool} {level : Nat} {lines : List Line}
    (s : Stmt) (hopening : opening ∈ openings) (h : s.lines opening inFor level = .ok lines)
    (hleaves : ProperLeaves s.leaves) : AreLines lines := by
  have hblank : IsOneLine " " := by decide
  have hword := (isOneLine_of_mem_openings hopening).append hblank
  cases s with
  | declare d =>
    obtain ⟨text, htext, rfl⟩ := lines_declare_eq_ok.mp h
    exact .singleton (isOneLine_declaration htext hleaves)
  | function name params body =>
    obtain ⟨inner, hbody, rfl⟩ := lines_function_eq_ok.mp h
    have hinner := areLines_stmtsLines body (.head _) hbody
      (hleaves.mono (by simp +contextual [Stmt.leaves]))
    have hname : IsOneLine name := .of_isIdentifier (hleaves (.identifier name) (.head _)).1
    have hparams : ∀ param ∈ params, IsOneLine param := fun param hparam =>
      .of_isIdentifier (hleaves (.identifier param) (by simp [Stmt.leaves, hparam])).1
    have hdef : IsOneLine "def " := by decide
    have hopen : IsOneLine "(" := by decide
    have hclose : IsOneLine ")" := by decide
    have hsignature := ((hname.append hopen).append (.commaSeparated hparams)).append hclose
    rw [functionHeader_eq]
    exact .below (hdef.append hsignature) hinner
  | ifThen condition yes =>
    obtain ⟨test, inner, htest, hyes, rfl⟩ := lines_ifThen_eq_ok.mp h
    have htest := isOneLine_text condition htest
      (hleaves.mono (by simp +contextual [Stmt.leaves]))
    have hinner := areLines_stmtsLines yes (.head _) hyes
      (hleaves.mono (by simp +contextual [Stmt.leaves]))
    exact .below (hword.append htest) hinner
  | ifElse condition yes no =>
    have hcondition : ProperLeaves condition.leaves :=
      hleaves.mono (by simp +contextual [Stmt.leaves])
    have hyesLeaves : ProperLeaves (stmtsLeaves yes) :=
      hleaves.mono (by simp +contextual [Stmt.leaves])
    have hnoLeaves : ProperLeaves (stmtsLeaves no) :=
      hleaves.mono (by simp +contextual [Stmt.leaves])
    cases helse : isElseIf no with
    | true =>
      obtain ⟨test, inner, rest, htest, hyes, hno, rfl⟩ :=
        (lines_ifElse_eq_ok_of_isElseIf helse).mp h
      exact (AreLines.below (hword.append (isOneLine_text condition htest hcondition))
        (areLines_stmtsLines yes (.head _) hyes hyesLeaves)).append
        (areLines_stmtsLines no (.tail _ (.head _)) hno hnoLeaves)
    | false =>
      obtain ⟨test, inner, rest, htest, hyes, hno, rfl⟩ :=
        (lines_ifElse_eq_ok_of_not_isElseIf helse).mp h
      have helseWord : IsOneLine "else" := by decide
      exact (AreLines.below (hword.append (isOneLine_text condition htest hcondition))
        (areLines_stmtsLines yes (.head _) hyes hyesLeaves)).append
        (.below helseWord (areLines_stmtsLines no (.head _) hno hnoLeaves))
  | whileLoop condition body =>
    obtain ⟨test, inner, htest, hbody, rfl⟩ := lines_whileLoop_eq_ok.mp h
    have htest := isOneLine_text condition htest
      (hleaves.mono (by simp +contextual [Stmt.leaves]))
    have hinner := areLines_stmtsLines body (.head _) hbody
      (hleaves.mono (by simp +contextual [Stmt.leaves]))
    have hwhile : IsOneLine "while " := by decide
    exact .below (hwhile.append htest) hinner
  | forLoop init condition update body =>
    obtain ⟨first, test, inner, last, hinit, htest, hbody, hupdate, rfl⟩ :=
      lines_forLoop_eq_ok.mp h
    have hfirst := isOneLine_declaration hinit (hleaves.mono (by simp +contextual [Stmt.leaves]))
    have htest := isOneLine_text condition htest
      (hleaves.mono (by simp +contextual [Stmt.leaves]))
    have hlast := isOneLine_lineText hupdate (hleaves.mono (by simp +contextual [Stmt.leaves]))
    have hinner := areLines_stmtsLines body (.head _) hbody
      (hleaves.mono (by simp +contextual [Stmt.leaves]))
    have hwhile : IsOneLine "while " := by decide
    have hloop : AreLines (⟨level, "while " ++ test ++ ":"⟩ ::
        bodyLines (level + 1) (inner ++ [⟨level + 1, last⟩])) :=
      .below (hwhile.append htest) (hinner.append (.singleton hlast))
    rw [bodyLines_of_ne_nil (by simp)] at hloop
    exact List.forall_mem_cons.mpr ⟨hfirst, hloop⟩
  | giveBack value =>
    cases value with
    | none =>
      rw [lines_giveBack_none_eq_ok.mp h]
      exact .singleton (by decide)
    | some value =>
      obtain ⟨text, htext, rfl⟩ := lines_giveBack_some_eq_ok.mp h
      have hreturn : IsOneLine "return " := by decide
      exact .singleton (hreturn.append (isOneLine_text value htext hleaves))
  | breakLoop =>
    rw [lines_breakLoop_eq_ok.mp h]
    exact .singleton (by decide)
  | continueLoop =>
    rw [(lines_continueLoop_eq_ok.mp h).2]
    exact .singleton (by decide)
  | expr value =>
    obtain ⟨text, htext, rfl⟩ := lines_expr_eq_ok.mp h
    exact .singleton (isOneLine_lineText htext hleaves)

/-- **The lines of statements with proper leaves are lines.** -/
theorem areLines_stmtsLines {opening : String} {inFor : Bool} {level : Nat} {lines : List Line}
    (body : List Stmt) (hopening : opening ∈ openings)
    (h : stmtsLines opening inFor level body = .ok lines)
    (hleaves : ProperLeaves (stmtsLeaves body)) : AreLines lines := by
  cases body with
  | nil =>
    rw [stmtsLines_nil_eq_ok.mp h]
    exact fun _ hline => absurd hline List.not_mem_nil
  | cons s rest =>
    obtain ⟨first, others, hs, hrest, rfl⟩ := stmtsLines_cons_eq_ok.mp h
    exact (s.areLines hopening hs (hleaves.mono (by simp +contextual [stmtsLeaves]))).append
      (areLines_stmtsLines rest hopening hrest (hleaves.mono (by simp +contextual [stmtsLeaves])))

end

end Offside
