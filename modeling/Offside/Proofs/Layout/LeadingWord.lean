import Mathlib.Data.List.TakeWhile
import Offside.Proofs.Layout.OneLine

/-!
# The first word of a line

An expression never starts with a keyword of the script language, nor does a declaration once it is
laid out: the names of a script are no keywords, and neither are the words that the output language
brings in. So a line that starts with `break`, `continue` or `return` comes from the statement of
that name.
-/

namespace Offside

/-- The word at the start of a text, which is empty if the text starts with something else. -/
def leadingWord (text : String) : List Char :=
  text.toList.takeWhile isNameChar

/-- No keyword stands at the start of the text. -/
def IsPlain (text : String) : Prop :=
  ∀ keyword : Keyword, leadingWord text ≠ keyword.spelling.toList

theorem leadingWord_eq_toList {text : String} (h : ∀ c ∈ text.toList, isNameChar c) :
    leadingWord text = text.toList :=
  List.takeWhile_eq_self_iff.mpr h

/-- A text that does not start with a name has no first word. -/
theorem leadingWord_eq_nil {text : String} {c : Char} (h : text.toList.head? = some c)
    (hc : ¬ isNameChar c) : leadingWord text = [] := by
  obtain ⟨rest, hrest⟩ := List.head?_eq_some_iff.mp h
  rw [leadingWord, hrest, List.takeWhile_cons_of_neg hc]

/-- No name goes on into the second text. -/
theorem leadingWord_append {a b : String} {c : Char} (hb : b.toList.head? = some c)
    (hc : ¬ isNameChar c) : leadingWord (a ++ b) = leadingWord a := by
  have hstop : b.toList.takeWhile isNameChar = [] := leadingWord_eq_nil hb hc
  rw [leadingWord, String.toList_append, List.takeWhile_append, hstop, List.append_nil]
  split
  · next hall =>
    exact ((List.takeWhile_prefix isNameChar).eq_of_length hall).symm
  · rfl

namespace IsPlain

variable {a b : String}

theorem append {c : Char} (h : IsPlain a) (hb : b.toList.head? = some c) (hc : ¬ isNameChar c) :
    IsPlain (a ++ b) := by
  intro keyword
  rw [leadingWord_append hb hc]
  exact h keyword

theorem of_head {c : Char} (h : a.toList.head? = some c) (hc : ¬ isNameChar c) : IsPlain a := by
  have hkeyword : ∀ keyword ∈ Keyword.all, [] ≠ keyword.spelling.toList := by decide
  intro keyword
  rw [leadingWord_eq_nil h hc]
  exact hkeyword keyword keyword.mem_all

theorem of_isIdentifier {name : String} (h : Python.isIdentifier name.toList)
    (hkeyword : ∀ keyword : Keyword, keyword.spelling ≠ name) : IsPlain name := by
  intro keyword heq
  rw [leadingWord_eq_toList (Python.isNameChar_of_mem_identifier h)] at heq
  exact hkeyword keyword (String.toList_injective heq.symm)

/-- A word of the output language. -/
theorem of_word {word : String} (h : Python.isIdentifier word.toList)
    (hkeyword : ∀ keyword ∈ Keyword.all, keyword.spelling ≠ word) : IsPlain word :=
  of_isIdentifier h fun keyword => hkeyword keyword keyword.mem_all

theorem asOperand (e : Expr) (least : Nat) (h : IsPlain a) : IsPlain (e.asOperand least a) := by
  rw [Expr.asOperand]
  split
  · refine of_head (c := '(') ?_ (by decide)
    simp [String.toList_append]
  · exact h

/-- A number starts with a digit, and no keyword does. -/
theorem repr (n : Nat) : IsPlain n.repr := by
  have hdigit : ∀ c ∈ n.repr.toList, c.isDigit := by
    rw [Nat.repr_eq_ofList_toDigits, String.toList_ofList]
    exact fun c hc => Nat.isDigit_of_mem_toDigits (by decide) (by decide) hc
  have hkeyword : ∀ keyword ∈ Keyword.all, keyword.spelling.toList.all Char.isDigit = false := by
    decide
  intro keyword heq
  rw [leadingWord_eq_toList fun c hc => Python.isNameChar_of_isDigit (hdigit c hc)] at heq
  rw [heq, ← List.all_eq_true, hkeyword keyword keyword.mem_all] at hdigit
  cases hdigit

end IsPlain

theorem isPlain_calleeName {callee : String} (h : (calleeKind callee).IsProper) :
    IsPlain (calleeName callee) := by
  rw [calleeName]
  split
  · exact .of_word rfl (by decide)
  · next hlog =>
    split
    · exact .of_word rfl (by decide)
    · rw [calleeKind, if_neg hlog] at h
      exact .of_isIdentifier h.1 h.2

/-- The first word of an expression is that of its leftmost part. -/
theorem isPlain_text {t : String} (e : Expr) (h : e.text = .ok t)
    (hleaves : ProperLeaves e.leaves) : IsPlain t := by
  cases e with
  | assign target value => exact absurd h Expr.text_assign_ne_ok
  | binary op left right =>
    obtain ⟨l, r, hl, -, rfl⟩ := Expr.text_binary_eq_ok.mp h
    have hleft := isPlain_text left hl (hleaves.mono (by simp +contextual [Expr.leaves]))
    rw [String.append_assoc]
    exact (hleft.asOperand _ _).append (c := ' ') (by simp [String.toList_append]) (by decide)
  | unary op operand =>
    obtain ⟨s, -, rfl⟩ := Expr.text_unary_eq_ok.mp h
    cases op with
    | neg => exact .of_head (c := '-') (by simp [UnaryOp.word, String.toList_append]) (by decide)
    | not =>
      have hnot : IsPlain "not" := .of_word rfl (by decide)
      have hword : UnaryOp.not.word = "not" ++ " " := rfl
      rw [hword, String.append_assoc]
      exact hnot.append (c := ' ') (by simp [String.toList_append]) (by decide)
  | call callee arguments =>
    obtain ⟨texts, -, rfl⟩ := Expr.text_call_eq_ok.mp h
    have hcallee := isPlain_calleeName (hleaves (calleeKind callee) (.head _))
    exact hcallee.append (c := '(') (by simp [String.toList_append]) (by decide)
  | ident name =>
    obtain rfl := Expr.text_ident_eq_ok.mp h
    obtain ⟨hname, hkeyword⟩ := hleaves (.identifier t) (.head _)
    exact .of_isIdentifier hname hkeyword
  | number value =>
    obtain rfl := Expr.text_number_eq_ok.mp h
    cases value with
    | ofNat n => exact .repr n
    | negSucc n =>
      have hsign : (Int.negSucc n).repr = "-" ++ (n + 1).repr := rfl
      rw [hsign]
      exact .of_head (c := '-') (by simp [String.toList_append]) (by decide)
  | string raw =>
    obtain rfl := Expr.text_string_eq_ok.mp h
    exact .of_head (c := '"') (by simp [String.toList_append]) (by decide)
  | boolean value =>
    obtain rfl := Expr.text_boolean_eq_ok.mp h
    cases value <;> exact .of_word rfl (by decide)
  | array elements =>
    obtain ⟨texts, -, rfl⟩ := Expr.text_array_eq_ok.mp h
    exact .of_head (c := '[') (by simp [String.toList_append]) (by decide)
  | index object index =>
    obtain ⟨o, i, ho, -, rfl⟩ := Expr.text_index_eq_ok.mp h
    have hobject := isPlain_text object ho (hleaves.mono (by simp +contextual [Expr.leaves]))
    exact (hobject.asOperand _ _).append (c := '[') (by simp [String.toList_append]) (by decide)
  | property object name =>
    obtain ⟨-, o, -, rfl⟩ := Expr.text_property_eq_ok.mp h
    have hlen : IsPlain "len" := .of_word rfl (by decide)
    exact hlen.append (c := '(') (by simp [String.toList_append]) (by decide)

theorem isPlain_lineText {e : Expr} {t : String} (h : e.lineText = .ok t)
    (hleaves : ProperLeaves e.leaves) : IsPlain t := by
  unfold Expr.lineText at h
  split at h
  · next target value =>
    obtain ⟨l, r, hl, -, rfl⟩ := Expr.lineText_assign_eq_ok.mp h
    have htarget := isPlain_text target hl (hleaves.mono (by simp +contextual [Expr.leaves]))
    exact htarget.append (c := ' ') (by simp [String.toList_append]) (by decide)
  · exact isPlain_text _ h hleaves

theorem isPlain_declaration {d : Declaration} {t : String} (h : d.text = .ok t)
    (hleaves : ProperLeaves d.leaves) : IsPlain t := by
  obtain ⟨hidentifier, hkeyword⟩ := hleaves (.identifier d.name) (.head _)
  have hname : IsPlain d.name := .of_isIdentifier hidentifier hkeyword
  unfold Declaration.text at h
  split at h
  · obtain ⟨v, -, ht⟩ := bind_eq_ok.mp h
    rw [pure_eq_ok] at ht
    subst ht
    rw [String.append_assoc]
    exact hname.append (c := ' ') (by simp [String.toList_append]) (by decide)
  · rw [pure_eq_ok] at h
    subst h
    exact hname.append rfl (by decide)

end Offside
