import Mathlib.Data.List.Forall2
import Offside.Proofs.Layout.Text
import Offside.Proofs.Python.Expression

/-!
# The text of an expression keeps its grouping

Every expression that can be written has an *image*: the expression of the output language that it
stands for (`Expr.image?`). Operators become the operators of the same meaning, a comparison becomes
one comparison of two operands, the property `length` becomes a call of `len`, and two callees get
their new names.

**The text of an expression is read as its image** (`read_text_eq_image`), although the two
languages do not agree on what binds tighter. The proof goes through tokens: the text spells the
tokens of the image (`spells_text`), with parentheses in the same places, and reading undoes the
writing of tokens.
-/

namespace Offside

/-! ### Images -/

/-- The expression that an operator makes of its operands. -/
def BinaryOp.image (op : BinaryOp) (left right : Python.Expression) : Python.Expression :=
  match op with
  | or => .connective .or left right
  | and => .connective .and left right
  | eq => .comparison left (.last .eq right)
  | ne => .comparison left (.last .ne right)
  | lt => .comparison left (.last .lt right)
  | gt => .comparison left (.last .gt right)
  | le => .comparison left (.last .le right)
  | ge => .comparison left (.last .ge right)
  | add => .arithmetic .add left right
  | sub => .arithmetic .sub left right
  | mul => .arithmetic .mul left right
  | div => .arithmetic .div left right
  | mod => .arithmetic .mod left right

/-- The expression that an operator makes of its operand. -/
def UnaryOp.image (op : UnaryOp) (operand : Python.Expression) : Python.Expression :=
  match op with
  | neg => .negative operand
  | not => .not operand

/-- The function that a callee stands for. -/
def calleeImage : String → String
  | "console.log" => "print"
  | "prompt" => "input"
  | name => name

mutual

/-- The expression of the output language that an expression stands for, if it stands for one. -/
def Expr.image? : Expr → Option Python.Expression
  | .assign _ _ => none
  | .binary op left right => do
    let l ← left.image?
    let r ← right.image?
    return op.image l r
  | .unary op operand => do
    let o ← operand.image?
    return op.image o
  | .call callee arguments => do
    let images ← exprImages? arguments
    return .call (.name (calleeImage callee)) images
  | .ident name => some (.name name)
  | .number (.ofNat value) => some (.number value)
  | .number (.negSucc _) => none
  | .string raw => some (.string raw)
  | .boolean value => some (.boolean value)
  | .array elements => do
    let images ← exprImages? elements
    return .list images
  | .index object index => do
    let o ← object.image?
    let i ← index.image?
    return .subscript o i
  | .property object "length" => do
    let o ← object.image?
    return .call (.name "len") [o]
  | .property _ _ => none

/-- The images of several expressions. -/
def exprImages? : List Expr → Option (List Python.Expression)
  | [] => some []
  | e :: others => do
    let first ← e.image?
    let rest ← exprImages? others
    return first :: rest

end

/-- Can the leaf be written in the output language as it is? Names must not be reserved there,
numbers have no sign, and strings are complete, with nothing in them that ends a line there. -/
def isWritable : Token.Kind → Bool
  | .identifier name => Python.isIdentifier name.toList && decide (name ∉ Python.reservedWords)
  | .number value => decide (0 ≤ value)
  | .string raw => Python.isClosed Python.endsLine raw.toList
  | _ => true

/-! ### The words of the text -/

/-- The token for an operator. -/
def BinaryOp.token (op : BinaryOp) : Python.Token :=
  match op with
  | or | and => .keyword op.word
  | _ => .operator op.word

theorem BinaryOp.tokens_image (op : BinaryOp) (left right : Python.Expression) :
    (op.image left right).tokens =
      left.operandTokens op.leftRank ++ op.token :: right.operandTokens op.rightRank := by
  cases op <;> rfl

theorem BinaryOp.strength_image (op : BinaryOp) (left right : Python.Expression) :
    (op.image left right).strength = op.tier.strength := by
  cases op <;> rfl

theorem calleeImage_eq (name : String) : calleeImage name = calleeName name := by
  unfold calleeImage calleeName
  split <;> simp_all

open Python (Spells Breaks)

variable {ends : Char → Bool}

/-- Everything may follow. -/
def Anything (_ : List Char) : Prop := True

theorem spells_bracket {bracket : String} (h : bracket ∈ ["(", ")", "[", "]"]) :
    Spells ends Anything bracket.toList [Python.Token.operator bracket] := by
  simp only [List.mem_cons, List.not_mem_nil, or_false] at h
  rcases h with rfl | rfl | rfl | rfl <;> exact Python.spells_operator rfl rfl fun rest _ => rfl

theorem spells_comma : Spells ends Anything ", ".toList [Python.Token.operator ","] := by
  have hcomma : Spells ends Anything ",".toList [Python.Token.operator ","] :=
    Python.spells_operator rfl rfl fun rest _ => rfl
  intro rest _
  have := hcomma (' ' :: rest) trivial
  simpa using this

theorem spells_binaryWord (op : BinaryOp) :
    Spells ends Anything (" " ++ op.word ++ " ").toList [op.token] := by
  have hchars : (" " ++ op.word ++ " ").toList = ' ' :: (op.word.toList ++ [' ']) := by
    simp [String.toList_append]
  have hspace : ∀ rest : List Char, rest.head? = some ' ' → Breaks rest := by
    intro rest hrest c hc
    obtain rfl : ' ' = c := by simpa [hrest] using hc
    rfl
  have hoperator : ∀ rest : List Char, rest.head? = some ' ' → ∃ after, rest = ' ' :: after := by
    intro rest hrest
    cases rest with
    | nil => simp at hrest
    | cons c after => exact ⟨after, by simpa using hrest⟩
  rw [hchars]
  refine Spells.spaces ?_
  cases op with
  | or | and => exact (Python.spells_word rfl).weaken hspace
  | eq | ne | lt | gt | le | ge | add | sub | mul | div | mod =>
    refine Python.spells_operator rfl rfl fun rest hrest => ?_
    obtain ⟨after, rfl⟩ := hoperator rest hrest
    rfl

/-- A minus sign in front of an expression is a token of its own: only `-=` and `->` would be
longer, and no expression starts with their second character. -/
theorem spells_minus :
    Spells ends (fun rest => ∃ c, rest.head? = some c ∧ opensExpr c) "-".toList
      [Python.Token.operator "-"] := by
  have hchars : "-".toList = ['-'] := rfl
  refine Python.spells_operator hchars rfl fun rest hrest => ?_
  obtain ⟨c, hc, hopens⟩ := hrest
  cases rest with
  | nil => simp at hc
  | cons d rest =>
    obtain rfl : d = c := by simpa using hc
    have heq : d ≠ '=' := by
      rintro rfl
      exact absurd hopens (by decide)
    have hgt : d ≠ '>' := by
      rintro rfl
      exact absurd hopens (by decide)
    simp [Python.operators, Ne.symm heq, Ne.symm hgt]

theorem spells_not : Spells ends Anything "not ".toList [Python.Token.keyword "not"] := by
  intro rest _
  have hword : Spells ends Breaks "not".toList [Python.Token.keyword "not"] :=
    Python.spells_word rfl
  have := hword (' ' :: rest) (Python.breaks_cons rest rfl)
  simpa using this

/-- Brackets around a text. -/
theorem spells_enclosed {P : List Char → Prop} {opening closing inner : String}
    {tokens : List Python.Token} (hopening : opening = "(" ∨ opening = "[")
    (hclosing : closing = ")" ∨ closing = "]") (h : Spells ends Breaks inner.toList tokens) :
    Spells ends P (opening ++ inner ++ closing).toList
      (.operator opening :: (tokens ++ [.operator closing])) := by
  have hopen : Spells ends Anything opening.toList [Python.Token.operator opening] :=
    spells_bracket (by rcases hopening with rfl | rfl <;> simp)
  have hclose : Spells ends P closing.toList [Python.Token.operator closing] :=
    (spells_bracket (by rcases hclosing with rfl | rfl <;> simp)).weaken fun _ _ => trivial
  have hbreak : ∀ rest, Breaks (closing.toList ++ rest) := by
    intro rest
    rcases hclosing with rfl | rfl <;> exact Python.breaks_cons rest rfl
  have hinner := h.append hclose fun rest _ => hbreak rest
  have := hopen.append hinner fun _ _ => trivial
  simpa [String.toList_append] using this

/-- Brackets around a text, right behind another text. -/
theorem spells_trailed {P : List Char → Prop} {front opening closing inner : String}
    {frontTokens tokens : List Python.Token} (hopening : opening = "(" ∨ opening = "[")
    (hclosing : closing = ")" ∨ closing = "]")
    (hfront : Spells ends Breaks front.toList frontTokens) (h : Spells ends Breaks inner.toList tokens) :
    Spells ends P (front ++ (opening ++ inner ++ closing)).toList
      (frontTokens ++ .operator opening :: (tokens ++ [.operator closing])) := by
  rw [String.toList_append]
  refine hfront.append (spells_enclosed hopening hclosing h) fun rest _ => ?_
  simp only [String.toList_append, List.append_assoc]
  rcases hopening with rfl | rfl <;> exact Python.breaks_cons _ rfl

/-- An operand spells the tokens of its image as an operand. -/
theorem spells_asOperand {e : Expr} {image : Python.Expression} {t : String}
    (hstrength : image.strength = e.strength) (h : Spells ends Breaks t.toList image.tokens)
    (least : Nat) :
    Spells ends Breaks (e.asOperand least t).toList (image.operandTokens least) := by
  rw [Expr.asOperand, Python.Expression.operandTokens, Python.Expression.enclose, hstrength]
  split
  · exact spells_enclosed (by simp) (by simp) h
  · exact h

/-- Texts between commas spell the tokens of their images between commas. -/
theorem spells_commaSeparated {images : List Python.Expression} {texts : List String}
    (h : List.Forall₂ (fun image text => Spells ends Breaks text.toList image.tokens) images
      texts) :
    Spells ends Breaks (commaSeparated texts).toList (Python.itemTokens images) := by
  induction h with
  | nil => exact fun rest _ => by simp [commaSeparated, Python.itemTokens]
  | @cons image text images texts hfirst hothers ih =>
    cases hothers with
    | nil => simpa [commaSeparated, Python.itemTokens] using hfirst
    | cons hsecond hothers =>
      rw [commaSeparated_cons_cons, String.toList_append, String.toList_append, Python.itemTokens]
      have hcomma := spells_comma.append ih fun _ _ => trivial
      exact hfirst.append hcomma fun rest _ => Python.breaks_cons _ rfl

/-! ### Texts and images -/

/-- The text spells the image of the expression. -/
def Spelled (e : Expr) (t : String) : Prop :=
  ∃ image, e.image? = some image ∧ image.strength = e.strength ∧
    Spells Python.endsLine Breaks t.toList image.tokens

theorem spelled_binary {op : BinaryOp} {left right : Expr} {l r : String}
    (hleft : Spelled left l) (hright : Spelled right r) :
    Spelled (.binary op left right) (left.asOperand op.leftRank l ++ (" " ++ op.word ++ " ") ++
      right.asOperand op.rightRank r) := by
  obtain ⟨il, hil, hsl, htl⟩ := hleft
  obtain ⟨ir, hir, hsr, htr⟩ := hright
  refine ⟨op.image il ir, by simp [Expr.image?, hil, hir], op.strength_image il ir, ?_⟩
  have hword := (spells_binaryWord op).append (spells_asOperand hsr htr op.rightRank)
    fun _ _ => trivial
  have hbreak : ∀ rest, Breaks ((" " ++ op.word ++ " ").toList ++
      (right.asOperand op.rightRank r).toList ++ rest) := by
    intro rest
    simp only [String.toList_append, List.append_assoc]
    exact Python.breaks_cons _ rfl
  rw [op.tokens_image, String.append_assoc, String.toList_append, String.toList_append]
  exact (spells_asOperand hsl htl op.leftRank).append hword fun rest _ => hbreak rest

theorem spelled_unary {op : UnaryOp} {operand : Expr} {s : String} (h : Spelled operand s)
    (hopens : Opens s) :
    Spelled (.unary op operand) (op.word ++ operand.asOperand op.operandRank s) := by
  obtain ⟨image, himage, hstrength, hspells⟩ := h
  have hoperand := spells_asOperand hstrength hspells op.operandRank
  rw [Spelled, String.toList_append]
  refine ⟨op.image image, by simp [Expr.image?, himage], by cases op <;> rfl, ?_⟩
  cases op with
  | neg =>
    refine spells_minus.append hoperand fun rest _ => ?_
    -- Whether or not it is put in parentheses, the operand starts like an expression.
    have : Opens (operand.asOperand UnaryOp.neg.operandRank s) := by
      rw [Expr.asOperand]
      split
      · rw [String.append_assoc]
        exact Opens.append ⟨'(', rfl, rfl⟩ _
      · exact hopens
    obtain ⟨c, hc, hc'⟩ := this
    exact ⟨c, by simp [hc], hc'⟩
  | not => exact spells_not.append hoperand fun _ _ => trivial

/-- Names that are not reserved stay names. -/
theorem spells_name {name : String} (h : isWritable (.identifier name)) :
    Spells Python.endsLine Breaks name.toList [Python.Token.name name] := by
  simp only [isWritable, Bool.and_eq_true, decide_eq_true_eq] at h
  have hword : Python.Token.ofWord name = .name name := if_neg h.2
  exact hword ▸ Python.spells_word h.1

theorem spelled_call {callee : String} {arguments : List Expr} {texts : List String}
    {images : List Python.Expression} (hcallee : isWritable (calleeKind callee))
    (himages : exprImages? arguments = some images)
    (h : Spells Python.endsLine Breaks (commaSeparated texts).toList (Python.itemTokens images)) :
    Spelled (.call callee arguments)
      (calleeName callee ++ ("(" ++ commaSeparated texts ++ ")")) := by
  refine ⟨.call (.name (calleeImage callee)) images, by simp [Expr.image?, himages], rfl, ?_⟩
  have hname : Spells Python.endsLine Breaks (calleeName callee).toList
      [Python.Token.name (calleeName callee)] := by
    by_cases hlog : callee = "console.log"
    · exact hlog ▸ Python.spells_word rfl
    · by_cases hprompt : callee = "prompt"
      · exact hprompt ▸ Python.spells_word rfl
      · simp only [calleeName, hlog, hprompt, if_false]
        simp only [calleeKind, hlog, if_false] at hcallee
        exact spells_name hcallee
  rw [calleeImage_eq]
  exact spells_trailed (.inl rfl) (.inl rfl) hname h

theorem spelled_index {object index : Expr} {o i : String} (hobject : Spelled object o)
    (hindex : Spelled index i) :
    Spelled (.index object index) (object.asOperand Strength.atom.rank o ++ ("[" ++ i ++ "]")) := by
  obtain ⟨io, hio, hso, hto⟩ := hobject
  obtain ⟨ii, hii, -, hti⟩ := hindex
  refine ⟨.subscript io ii, by simp [Expr.image?, hio, hii], rfl, ?_⟩
  exact spells_trailed (.inr rfl) (.inr rfl) (spells_asOperand hso hto _) hti

theorem spelled_length {object : Expr} {o : String} (h : Spelled object o) :
    Spelled (.property object lengthProperty) ("len" ++ ("(" ++ o ++ ")")) := by
  obtain ⟨image, himage, -, hspells⟩ := h
  refine ⟨.call (.name "len") [image], by simp [Expr.image?, lengthProperty, himage], rfl, ?_⟩
  have hname : Spells Python.endsLine Breaks "len".toList [Python.Token.name "len"] :=
    Python.spells_word rfl
  exact spells_trailed (.inl rfl) (.inl rfl) hname hspells

theorem isNamed_of_isWritable {leaves : List Token.Kind} (h : ∀ kind ∈ leaves, isWritable kind) :
    IsNamed leaves := by
  intro name hname
  have := h _ hname
  simp only [isWritable, Bool.and_eq_true] at this
  exact this.1

mutual

/-- **Spelling**: the text of an expression is cut into the tokens of its image. -/
theorem spells_text : (e : Expr) → ∀ {t : String}, e.text = .ok t →
    (∀ kind ∈ e.leaves, isWritable kind) → Spelled e t
  | .assign _ _, t, h, _ => absurd h Expr.text_assign_ne_ok
  | .binary op left right, t, h, hleaves => by
    rw [Expr.leaves, List.forall_mem_append] at hleaves
    obtain ⟨l, r, hl, hr, rfl⟩ := Expr.text_binary_eq_ok.mp h
    exact spelled_binary (spells_text left hl hleaves.1) (spells_text right hr hleaves.2)
  | .unary op operand, t, h, hleaves => by
    obtain ⟨s, hs, rfl⟩ := Expr.text_unary_eq_ok.mp h
    have hopens := (framed_text operand hs (isNamed_of_isWritable hleaves)).opens
    exact spelled_unary (spells_text operand hs hleaves) hopens
  | .call callee arguments, t, h, hleaves => by
    rw [Expr.leaves, List.forall_mem_cons] at hleaves
    obtain ⟨texts, htexts, rfl⟩ := Expr.text_call_eq_ok.mp h
    obtain ⟨images, himages, hspells⟩ := spells_texts arguments htexts hleaves.2
    exact spelled_call hleaves.1 himages (spells_commaSeparated hspells)
  | .ident name, t, h, hleaves => by
    obtain rfl := Expr.text_ident_eq_ok.mp h
    exact ⟨.name t, rfl, rfl, spells_name (hleaves _ (by simp [Expr.leaves]))⟩
  | .number (.ofNat value), t, h, _ => by
    obtain rfl := Expr.text_number_eq_ok.mp h
    exact ⟨.number value, rfl, rfl, Python.spells_number value⟩
  | .number (.negSucc value), t, h, hleaves => by
    -- The minus sign of a number would be read as an operator.
    have := hleaves (.number (.negSucc value)) (by simp [Expr.leaves])
    simp [isWritable] at this
  | .string raw, t, h, hleaves => by
    obtain rfl := Expr.text_string_eq_ok.mp h
    exact ⟨.string raw, rfl, rfl, Python.spells_string (hleaves (.string raw) (by simp [Expr.leaves]))⟩
  | .boolean value, t, h, _ => by
    obtain rfl := Expr.text_boolean_eq_ok.mp h
    refine ⟨.boolean value, rfl, rfl, ?_⟩
    cases value <;> exact Python.spells_word rfl
  | .array elements, t, h, hleaves => by
    obtain ⟨texts, htexts, rfl⟩ := Expr.text_array_eq_ok.mp h
    obtain ⟨images, himages, hspells⟩ := spells_texts elements htexts hleaves
    exact ⟨.list images, by simp [Expr.image?, himages], rfl,
      spells_enclosed (.inr rfl) (.inr rfl) (spells_commaSeparated hspells)⟩
  | .index object index, t, h, hleaves => by
    rw [Expr.leaves, List.forall_mem_append] at hleaves
    obtain ⟨o, i, ho, hi, rfl⟩ := Expr.text_index_eq_ok.mp h
    exact spelled_index (spells_text object ho hleaves.1) (spells_text index hi hleaves.2)
  | .property object name, t, h, hleaves => by
    obtain ⟨rfl, o, ho, rfl⟩ := Expr.text_property_eq_ok.mp h
    exact spelled_length (spells_text object ho hleaves)

/-- The texts of several expressions spell their images. -/
theorem spells_texts : (es : List Expr) → ∀ {texts : List String}, exprTexts es = .ok texts →
    (∀ kind ∈ exprsLeaves es, isWritable kind) → ∃ images, exprImages? es = some images ∧
      List.Forall₂ (fun image text => Spells Python.endsLine Breaks text.toList image.tokens) images
        texts
  | [], texts, h, _ => by
    obtain rfl := exprTexts_nil_eq_ok.mp h
    exact ⟨[], rfl, .nil⟩
  | e :: others, texts, h, hleaves => by
    rw [exprsLeaves, List.forall_mem_append] at hleaves
    obtain ⟨first, rest, hfirst, hrest, rfl⟩ := exprTexts_cons_eq_ok.mp h
    obtain ⟨image, himage, -, hspells⟩ := spells_text e hfirst hleaves.1
    obtain ⟨images, himages, hall⟩ := spells_texts others hrest hleaves.2
    exact ⟨image :: images, by simp [exprImages?, himage, himages], .cons hspells hall⟩

end

/-- **Grouping is kept**: the text of an expression, cut into tokens and read by the grammar of the
output language, is its image, and nothing of the text is left over. -/
theorem read_text_eq_image {e : Expr} {text : String} (htext : e.text = .ok text)
    (hleaves : ∀ kind ∈ e.leaves, isWritable kind) :
    ∃ image, e.image? = some image ∧ Python.read text = some image := by
  obtain ⟨image, himage, -, hspells⟩ := spells_text e htext hleaves
  refine ⟨image, himage, ?_⟩
  rw [Python.read, hspells.tokenize_eq, Option.bind_some, Python.parse_tokens]

/-- A negated comparison of a negation, joined to a comparison of a sign and a call. -/
theorem read_text_eq_image_of_mixed :
    let left := Expr.unary .not (.binary .eq (.unary .not (.ident "a")) (.ident "b"))
    let difference := Expr.binary .sub (.ident "x") (.binary .sub (.ident "y") (.number 1))
    let length := Expr.call "prompt" [.property (.ident "v") "length", .string "\\\""]
    let e := Expr.binary .and left (.binary .lt (.unary .neg difference) length)
    let text := "not (not a) == b and -(x - (y - 1)) < input(len(v), \"\\\"\")"
    e.text = .ok text ∧ (∀ kind ∈ e.leaves, isWritable kind) ∧
      ∃ image, e.image? = some image ∧ Python.read text = some image :=
  ⟨rfl, by decide, read_text_eq_image rfl (by decide)⟩

end Offside
