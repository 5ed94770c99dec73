import Offside.Layout.Expr
import Offside.Proofs.Python.Token
import Offside.Proofs.Tree.Leaves

/-!
# What the text of an expression is made of

`Expr.text` can fail, so facts about it start from a text that it gave. The lemmas `text_…_eq_ok`
say, for each form of expression, from which texts of its parts that text was put together; later
proofs use them and do not open `Expr.text`.

If the names among the leaves of an expression are identifiers, then its text is `Framed`: it starts
and ends with characters that only expressions start and end with.
-/

namespace Offside

/-- A computation in two parts succeeds when both do. -/
theorem bind_eq_ok {ε α β : Type} {x : Except ε α} {f : α → Except ε β} {b : β} :
    (x >>= f) = .ok b ↔ ∃ a, x = .ok a ∧ f a = .ok b := by
  cases x with
  | error fault => simp [bind, Except.bind]
  | ok a => simp [bind, Except.bind]

theorem pure_eq_ok {ε α : Type} {a b : α} : (pure a : Except ε α) = .ok b ↔ b = a :=
  ⟨fun h => by cases h; rfl, fun h => h ▸ rfl⟩

/-! ### Texts of the parts -/

namespace Expr

variable {t : String}

theorem text_assign_ne_ok {target value : Expr} : (assign target value).text ≠ .ok t := by
  rw [Expr.text_assign]
  exact nofun

theorem text_binary_eq_ok {op : BinaryOp} {left right : Expr} :
    (binary op left right).text = .ok t ↔ ∃ l r, left.text = .ok l ∧ right.text = .ok r ∧
      t = left.asOperand op.leftRank l ++ (" " ++ op.word ++ " ") ++
        right.asOperand op.rightRank r := by
  rw [Expr.text]
  simp only [bind_eq_ok, pure_eq_ok, exists_and_left, String.append_assoc]

theorem text_unary_eq_ok {op : UnaryOp} {operand : Expr} :
    (unary op operand).text = .ok t ↔ ∃ s, operand.text = .ok s ∧
      t = op.word ++ operand.asOperand op.operandRank s := by
  rw [Expr.text]
  simp only [bind_eq_ok, pure_eq_ok]

theorem text_call_eq_ok {callee : String} {arguments : List Expr} :
    (call callee arguments).text = .ok t ↔ ∃ texts, exprTexts arguments = .ok texts ∧
      t = calleeName callee ++ ("(" ++ commaSeparated texts ++ ")") := by
  rw [Expr.text]
  simp only [bind_eq_ok, pure_eq_ok, String.append_assoc]

theorem text_array_eq_ok {elements : List Expr} :
    (array elements).text = .ok t ↔ ∃ texts, exprTexts elements = .ok texts ∧
      t = "[" ++ commaSeparated texts ++ "]" := by
  rw [Expr.text]
  simp only [bind_eq_ok, pure_eq_ok]

theorem text_index_eq_ok {object index : Expr} :
    (Expr.index object index).text = .ok t ↔ ∃ o i, object.text = .ok o ∧ index.text = .ok i ∧
      t = object.asOperand Strength.atom.rank o ++ ("[" ++ i ++ "]") := by
  rw [Expr.text]
  simp only [bind_eq_ok, pure_eq_ok, exists_and_left, String.append_assoc]

theorem text_property_eq_ok {object : Expr} {name : String} :
    (property object name).text = .ok t ↔ name = lengthProperty ∧
      ∃ o, object.text = .ok o ∧ t = "len" ++ ("(" ++ o ++ ")") := by
  rw [Expr.text]
  split
  · next h =>
    have htext : ∀ o, "len" ++ ("(" ++ o ++ ")") = "len(" ++ o ++ ")" := by
      simp [← String.append_assoc]
    simp only [bind_eq_ok, pure_eq_ok, h, htext, true_and]
  · next h =>
    constructor
    · intro hthrow
      cases hthrow
    · rintro ⟨hname, -⟩
      exact absurd hname h

theorem text_ident_eq_ok {name : String} : (ident name).text = .ok t ↔ t = name := by
  rw [Expr.text, pure_eq_ok]

theorem text_number_eq_ok {value : Int} : (number value).text = .ok t ↔ t = value.repr := by
  rw [Expr.text, pure_eq_ok]

theorem text_string_eq_ok {raw : String} :
    (string raw).text = .ok t ↔ t = "\"" ++ raw ++ "\"" := by
  rw [Expr.text, pure_eq_ok]

theorem text_boolean_eq_ok {value : Bool} :
    (boolean value).text = .ok t ↔ t = if value then "True" else "False" := by
  cases value <;> simp [Expr.text, pure_eq_ok]

end Expr

theorem exprTexts_nil_eq_ok {texts : List String} : exprTexts [] = .ok texts ↔ texts = [] := by
  rw [exprTexts, pure_eq_ok]

theorem exprTexts_cons_eq_ok {e : Expr} {others : List Expr} {texts : List String} :
    exprTexts (e :: others) = .ok texts ↔ ∃ first rest, e.text = .ok first ∧
      exprTexts others = .ok rest ∧ texts = first :: rest := by
  rw [exprTexts]
  simp only [bind_eq_ok, pure_eq_ok, exists_and_left]

theorem commaSeparated_cons_cons (first second : String) (others : List String) :
    commaSeparated (first :: second :: others) =
      first ++ (", " ++ commaSeparated (second :: others)) := by
  simp [commaSeparated, String.intercalate_cons_cons, String.append_assoc]

/-! ### Proper names -/

/-- Every name among the leaves is an identifier. -/
def IsNamed (leaves : List Token.Kind) : Prop :=
  ∀ name, Token.Kind.identifier name ∈ leaves → Python.isIdentifier name.toList

theorem IsNamed.mono {leaves others : List Token.Kind} (h : IsNamed leaves)
    (hsub : ∀ kind ∈ others, kind ∈ leaves) : IsNamed others :=
  fun name hname => h name (hsub _ hname)

/-! ### First and last characters -/

/-- A character with which an expression can start. -/
def opensExpr (c : Char) : Bool :=
  isNameStart c || c.isDigit || c == '"' || c == '(' || c == '[' || c == '-'

/-- A character with which an expression can end. -/
def closesExpr (c : Char) : Bool :=
  isNameChar c || c == '"' || c == ')' || c == ']'

/-- The text starts like an expression. -/
def Opens (text : String) : Prop :=
  ∃ c, text.toList.head? = some c ∧ opensExpr c

/-- The text ends like an expression. -/
def Closes (text : String) : Prop :=
  ∃ c, text.toList.getLast? = some c ∧ closesExpr c

theorem Opens.append {a : String} (h : Opens a) (b : String) : Opens (a ++ b) := by
  obtain ⟨c, hc, hopens⟩ := h
  exact ⟨c, by simp [String.toList_append, hc], hopens⟩

theorem Closes.prepend {b : String} (h : Closes b) (a : String) : Closes (a ++ b) := by
  obtain ⟨c, hc, hcloses⟩ := h
  exact ⟨c, by simp [String.toList_append, hc], hcloses⟩

theorem closes_paren : Closes ")" := ⟨')', rfl, rfl⟩

theorem closes_bracket : Closes "]" := ⟨']', rfl, rfl⟩

/-- The text starts and ends like an expression. -/
structure Framed (text : String) : Prop where
  opens : Opens text
  closes : Closes text

theorem Framed.append {a b : String} (ha : Framed a) (hb : Closes b) : Framed (a ++ b) :=
  ⟨ha.opens.append b, hb.prepend a⟩

theorem framed_of_isIdentifier {name : String} (h : Python.isIdentifier name.toList) :
    Framed name := by
  have hchars := Python.isNameChar_of_mem_identifier h
  cases hname : name.toList with
  | nil => simp [hname, Python.isIdentifier] at h
  | cons c rest =>
    rw [hname] at h hchars
    simp only [Python.isIdentifier, Bool.and_eq_true] at h
    refine ⟨⟨c, by rw [hname]; rfl, by simp [opensExpr, h.1]⟩,
      ⟨_, by rw [hname]; exact List.getLast?_eq_some_getLast (by simp), ?_⟩⟩
    simp [closesExpr, hchars _ (List.getLast_mem _)]

theorem framed_repr (n : Nat) : Framed n.repr := by
  have hdigit : ∀ c ∈ Nat.toDigits 10 n, c.isDigit := fun c hc =>
    Nat.isDigit_of_mem_toDigits (by decide) (by decide) hc
  have hchars : n.repr.toList = Nat.toDigits 10 n := by
    rw [Nat.repr_eq_ofList_toDigits, String.toList_ofList]
  refine ⟨⟨_, by rw [hchars]; exact List.head?_eq_some_head Nat.toDigits_ne_nil, ?_⟩,
    ⟨_, by rw [hchars]; exact List.getLast?_eq_some_getLast Nat.toDigits_ne_nil, ?_⟩⟩
  · simp [opensExpr, hdigit _ (List.head_mem _)]
  · simp [closesExpr, Python.isNameChar_of_isDigit (hdigit _ (List.getLast_mem _))]

theorem framed_asOperand (e : Expr) (least : Nat) {t : String} (h : Framed t) :
    Framed (e.asOperand least t) := by
  rw [Expr.asOperand]
  split
  · rw [String.append_assoc]
    exact ⟨Opens.append ⟨'(', rfl, rfl⟩ _, (closes_paren.prepend t).prepend "("⟩
  · exact h

theorem framed_calleeName {callee : String} (h : IsNamed [calleeKind callee]) :
    Framed (calleeName callee) := by
  rw [calleeName]
  split
  · exact framed_of_isIdentifier rfl
  · next hne =>
    split
    · exact framed_of_isIdentifier rfl
    · exact framed_of_isIdentifier (h callee (by simp [calleeKind, hne]))

/-- The text of an expression with proper names starts and ends like one. -/
theorem framed_text : (e : Expr) → ∀ {t : String}, e.text = .ok t → IsNamed e.leaves → Framed t
  | .assign _ _, t, h, _ => absurd h Expr.text_assign_ne_ok
  | .binary op left right, t, h, hnamed => by
    obtain ⟨l, r, hl, hr, rfl⟩ := Expr.text_binary_eq_ok.mp h
    have hleft := framed_text left hl (hnamed.mono (by simp +contextual [Expr.leaves]))
    have hright := framed_text right hr (hnamed.mono (by simp +contextual [Expr.leaves]))
    rw [String.append_assoc]
    exact (framed_asOperand left _ hleft).append ((framed_asOperand right _ hright).closes.prepend _)
  | .unary op operand, t, h, hnamed => by
    obtain ⟨s, hs, rfl⟩ := Expr.text_unary_eq_ok.mp h
    have hoperand := framed_asOperand operand op.operandRank (framed_text operand hs hnamed)
    have hopens : Opens op.word := by
      cases op with
      | neg => exact ⟨'-', rfl, rfl⟩
      | not => exact ⟨'n', rfl, rfl⟩
    exact ⟨hopens.append _, hoperand.closes.prepend _⟩
  | .call callee arguments, t, h, hnamed => by
    obtain ⟨texts, -, rfl⟩ := Expr.text_call_eq_ok.mp h
    have hcallee : Framed (calleeName callee) :=
      framed_calleeName (hnamed.mono (by simp [Expr.leaves]))
    exact hcallee.append (closes_paren.prepend _)
  | .ident name, t, h, hnamed => by
    obtain rfl := Expr.text_ident_eq_ok.mp h
    exact framed_of_isIdentifier (hnamed t (by simp [Expr.leaves]))
  | .number value, t, h, _ => by
    obtain rfl := Expr.text_number_eq_ok.mp h
    cases value with
    | ofNat n => exact framed_repr n
    | negSucc n => exact ⟨Opens.append ⟨'-', rfl, rfl⟩ _, (framed_repr (n + 1)).closes.prepend "-"⟩
  | .string raw, t, h, _ => by
    obtain rfl := Expr.text_string_eq_ok.mp h
    rw [String.append_assoc]
    exact ⟨Opens.append ⟨'"', rfl, rfl⟩ _, (Closes.prepend ⟨'"', rfl, rfl⟩ raw).prepend _⟩
  | .boolean value, t, h, _ => by
    obtain rfl := Expr.text_boolean_eq_ok.mp h
    cases value <;> exact framed_of_isIdentifier rfl
  | .array elements, t, h, _ => by
    obtain ⟨texts, -, rfl⟩ := Expr.text_array_eq_ok.mp h
    rw [String.append_assoc]
    exact ⟨Opens.append ⟨'[', rfl, rfl⟩ _, (closes_bracket.prepend _).prepend _⟩
  | .index object index, t, h, hnamed => by
    obtain ⟨o, i, ho, -, rfl⟩ := Expr.text_index_eq_ok.mp h
    have hobject := framed_text object ho (hnamed.mono (by simp +contextual [Expr.leaves]))
    exact (framed_asOperand object _ hobject).append (closes_bracket.prepend _)
  | .property object name, t, h, _ => by
    obtain ⟨-, o, -, rfl⟩ := Expr.text_property_eq_ok.mp h
    exact (framed_of_isIdentifier rfl).append (closes_paren.prepend _)

end Offside
