import Offside.Proofs.Layout.Grouping
import Offside.Proofs.Layout.Indentation
import Offside.Proofs.Parser.Print
import Offside.Proofs.Token.Respelling
import Offside.Scope.Event

/-!
# What a line assigns to

Python tells from the text of a line which names it assigns to: the tokens are split at the signs
`=`, and every part but the last that is a single word is such a name (`Python.targets`). Reserved
words count like other words here, since a script may use them as names.

The events of an expression say the same of the script: `assignedBy` lists the names that stand on
the left of an assignment. `binds_lineText` shows that **a line assigns to the names to which the
script does**, in the same order: an expression that is used as a value is written without `=`
(`isValue_text`) and has no assignment in it (`assignedBy_events_of_text`), so all of them are in
the chain that makes up the line.
-/

namespace Offside

/-! ### Names before `=` -/

namespace Python

/-- The sign of an assignment. -/
def assignSign : Token := .operator "="

/-- The word that makes up the tokens all by itself. -/
def loneWord? : List Token → Option String
  | [.name word] => some word
  | [.keyword word] => some word
  | _ => none

/-- The names to which a line of tokens assigns. -/
def targets (tokens : List Token) : List String :=
  (tokens.splitOn assignSign).dropLast.filterMap loneWord?

theorem targets_of_not_mem {tokens : List Token} (h : assignSign ∉ tokens) :
    targets tokens = [] := by
  rw [targets, List.splitOn_eq_singleton h]
  rfl

theorem targets_append {front : List Token} (h : assignSign ∉ front) (rest : List Token) :
    targets (front ++ assignSign :: rest) = (loneWord? front).toList ++ targets rest := by
  rw [targets, List.splitOn_append_cons_self_of_not_mem h,
    List.dropLast_cons_of_ne_nil (List.splitOn_ne_nil _ _), List.filterMap_cons]
  cases loneWord? front <;> rfl

theorem loneWord?_ofWord (word : String) : loneWord? [Token.ofWord word] = some word := by
  unfold Token.ofWord
  split <;> rfl

theorem loneWord?_of_mem_operator {tokens : List Token} {spelling : String}
    (h : .operator spelling ∈ tokens) : loneWord? tokens = none := by
  unfold loneWord?
  split
  · simp at h
  · simp at h
  · rfl

end Python

open Python (Spells Breaks assignSign loneWord? targets)

/-! ### Names among events -/

/-- The name that is assigned to. -/
def Event.assigned? : Event → Option String
  | .assignTo name => some name
  | _ => none

/-- The names that events assign to, in their order. -/
def assignedBy (events : List Event) : List String :=
  events.filterMap Event.assigned?

@[simp]
theorem assignedBy_nil : assignedBy [] = [] := rfl

@[simp]
theorem assignedBy_cons (event : Event) (rest : List Event) :
    assignedBy (event :: rest) = event.assigned?.toList ++ assignedBy rest := by
  rw [assignedBy, List.filterMap_cons]
  cases event.assigned? <;> rfl

@[simp]
theorem assignedBy_append (events others : List Event) :
    assignedBy (events ++ others) = assignedBy events ++ assignedBy others :=
  List.filterMap_append

mutual

/-- There is no assignment in an expression that can be written as a value. -/
theorem assignedBy_events_of_text {e : Expr} {t : String} (h : e.text = .ok t) :
    assignedBy e.events = [] := by
  cases e with
  | assign target value => exact absurd h Expr.text_assign_ne_ok
  | binary op left right =>
    obtain ⟨l, r, hl, hr, -⟩ := Expr.text_binary_eq_ok.mp h
    rw [Expr.events, assignedBy_append, assignedBy_events_of_text hl,
      assignedBy_events_of_text hr]
    rfl
  | unary op operand =>
    obtain ⟨s, hs, -⟩ := Expr.text_unary_eq_ok.mp h
    rw [Expr.events, assignedBy_events_of_text hs]
  | call callee arguments =>
    obtain ⟨texts, htexts, -⟩ := Expr.text_call_eq_ok.mp h
    rw [Expr.events, assignedBy_cons, assignedBy_exprsEvents_of_texts htexts]
    rfl
  | ident name => rfl
  | number value => rfl
  | string raw => rfl
  | boolean value => rfl
  | array elements =>
    obtain ⟨texts, htexts, -⟩ := Expr.text_array_eq_ok.mp h
    rw [Expr.events, assignedBy_exprsEvents_of_texts htexts]
  | index object index =>
    obtain ⟨o, i, ho, hi, -⟩ := Expr.text_index_eq_ok.mp h
    rw [Expr.events, assignedBy_append, assignedBy_events_of_text ho,
      assignedBy_events_of_text hi]
    rfl
  | property object name =>
    obtain ⟨-, o, ho, -⟩ := Expr.text_property_eq_ok.mp h
    rw [Expr.events, assignedBy_events_of_text ho]

theorem assignedBy_exprsEvents_of_texts {es : List Expr} {texts : List String}
    (h : exprTexts es = .ok texts) : assignedBy (exprsEvents es) = [] := by
  cases es with
  | nil => rfl
  | cons e others =>
    obtain ⟨first, rest, hfirst, hrest, -⟩ := exprTexts_cons_eq_ok.mp h
    rw [exprsEvents, assignedBy_append, assignedBy_events_of_text hfirst,
      assignedBy_exprsEvents_of_texts hrest]
    rfl

end

/-! ### Texts of values -/

/-- All leaves can be spelled. -/
def SpellableLeaves (leaves : List Token.Kind) : Prop :=
  ∀ kind ∈ leaves, kind.isSpellable

theorem SpellableLeaves.mono {leaves others : List Token.Kind} (h : SpellableLeaves leaves)
    (hsub : ∀ kind ∈ others, kind ∈ leaves) : SpellableLeaves others :=
  fun kind hkind => h kind (hsub kind hkind)

theorem isIdentifier_of_isSpellable {name : String}
    (h : (Token.Kind.identifier name).isSpellable) : Python.isIdentifier name.toList :=
  (Bool.and_eq_true_iff.mp h).1

theorem SpellableLeaves.isNamed {leaves : List Token.Kind} (h : SpellableLeaves leaves) :
    IsNamed leaves :=
  fun _ hname => isIdentifier_of_isSpellable (h _ hname)

/-- One text after another, with something between them. -/
theorem spells_joined {ends : Char → Bool} {a sign b : String} {ta tokens tb : List Python.Token}
    (hspells : Spells ends Anything sign.toList tokens)
    (hbreak : ∀ rest, Breaks (sign.toList ++ rest)) (ha : Spells ends Breaks a.toList ta) (hb : Spells ends Breaks b.toList tb) :
    Spells ends Breaks (a ++ sign ++ b).toList (ta ++ (tokens ++ tb)) := by
  have hrest := hspells.append hb fun _ _ => trivial
  rw [String.append_assoc, String.toList_append, String.toList_append]
  refine ha.append hrest fun rest _ => ?_
  rw [List.append_assoc]
  exact hbreak _

/-- The text is cut into tokens without the sign of an assignment. -/
def IsValue (text : String) : Prop :=
  ∃ tokens, Spells isNewline Breaks text.toList tokens ∧ assignSign ∉ tokens

namespace IsValue

variable {a b : String}

theorem word {word : String} (h : Python.isIdentifier word.toList) : IsValue word := by
  refine ⟨_, Python.spells_word h, ?_⟩
  unfold Python.Token.ofWord
  split <;> simp [assignSign]

theorem enclosed {opening closing : String} (hopening : opening = "(" ∨ opening = "[")
    (hclosing : closing = ")" ∨ closing = "]") (h : IsValue a) :
    IsValue (opening ++ a ++ closing) := by
  obtain ⟨tokens, hspells, hsign⟩ := h
  refine ⟨_, spells_enclosed hopening hclosing hspells, ?_⟩
  rcases hopening with rfl | rfl <;> rcases hclosing with rfl | rfl <;>
    simpa [assignSign] using hsign

theorem asOperand (e : Expr) (least : Nat) (h : IsValue a) : IsValue (e.asOperand least a) := by
  rw [Expr.asOperand]
  split
  · exact h.enclosed (.inl rfl) (.inl rfl)
  · exact h

/-- One value after another, with something between them. -/
theorem joined {sign : String} {tokens : List Python.Token}
    (hspells : Spells isNewline Anything sign.toList tokens) (hsign : assignSign ∉ tokens)
    (hbreak : ∀ rest, Breaks (sign.toList ++ rest)) (ha : IsValue a) (hb : IsValue b) :
    IsValue (a ++ sign ++ b) := by
  obtain ⟨ta, hta, hsa⟩ := ha
  obtain ⟨tb, htb, hsb⟩ := hb
  exact ⟨_, spells_joined hspells hbreak hta htb, by simp [hsa, hsign, hsb]⟩

theorem binary (op : BinaryOp) (ha : IsValue a) (hb : IsValue b) :
    IsValue (a ++ (" " ++ op.word ++ " ") ++ b) := by
  refine joined (spells_binaryWord op) (by cases op <;> decide) (fun rest => ?_) ha hb
  simp only [String.toList_append, List.append_assoc]
  exact Python.breaks_cons _ rfl

theorem commaSeparated {texts : List String} (h : ∀ text ∈ texts, IsValue text) :
    IsValue (commaSeparated texts) := by
  induction texts with
  | nil => exact ⟨[], fun rest _ => by simp [Offside.commaSeparated], by simp⟩
  | cons first others ih =>
    obtain ⟨hfirst, hothers⟩ := List.forall_mem_cons.mp h
    cases others with
    | nil => exact hfirst
    | cons second more =>
      rw [commaSeparated_cons_cons, ← String.append_assoc]
      exact joined spells_comma (by decide) (fun rest => Python.breaks_cons _ rfl) hfirst
        (ih hothers)

/-- Brackets right behind a text. -/
theorem trailed {opening closing : String} (hopening : opening = "(" ∨ opening = "[")
    (hclosing : closing = ")" ∨ closing = "]") (ha : IsValue a) (hb : IsValue b) :
    IsValue (a ++ (opening ++ b ++ closing)) := by
  obtain ⟨ta, hta, hsa⟩ := ha
  obtain ⟨tb, htb, hsb⟩ := hb
  refine ⟨_, spells_trailed hopening hclosing hta htb, ?_⟩
  rcases hopening with rfl | rfl <;> rcases hclosing with rfl | rfl <;>
    simpa [assignSign] using ⟨hsa, hsb⟩

theorem unary (op : UnaryOp) (ha : IsValue a) (hopens : Opens a) : IsValue (op.word ++ a) := by
  obtain ⟨tokens, hspells, hsign⟩ := ha
  rw [IsValue, String.toList_append]
  cases op with
  | neg =>
    refine ⟨_, spells_minus.append hspells fun rest _ => ?_, by simpa [assignSign] using hsign⟩
    obtain ⟨c, hc, hc'⟩ := hopens
    exact ⟨c, by simp [hc], hc'⟩
  | not =>
    exact ⟨_, spells_not.append hspells fun _ _ => trivial, by simpa [assignSign] using hsign⟩

end IsValue

theorem isIdentifier_calleeName {callee : String} (h : (calleeKind callee).isSpellable) :
    Python.isIdentifier (calleeName callee).toList := by
  rw [calleeName]
  split
  · rfl
  · next hlog =>
    split
    · rfl
    · rw [calleeKind, if_neg hlog] at h
      exact isIdentifier_of_isSpellable h

mutual

/-- What is used as a value is written without `=`. -/
theorem isValue_text {e : Expr} {t : String} (h : e.text = .ok t)
    (hleaves : SpellableLeaves e.leaves) : IsValue t := by
  cases e with
  | assign target value => exact absurd h Expr.text_assign_ne_ok
  | binary op left right =>
    obtain ⟨l, r, hl, hr, rfl⟩ := Expr.text_binary_eq_ok.mp h
    have hleft := isValue_text hl (hleaves.mono (by simp +contextual [Expr.leaves]))
    have hright := isValue_text hr (hleaves.mono (by simp +contextual [Expr.leaves]))
    exact (hleft.asOperand _ _).binary op (hright.asOperand _ _)
  | unary op operand =>
    obtain ⟨s, hs, rfl⟩ := Expr.text_unary_eq_ok.mp h
    have hoperand := (isValue_text hs hleaves).asOperand operand op.operandRank
    have hframed := framed_asOperand operand op.operandRank (framed_text operand hs hleaves.isNamed)
    exact hoperand.unary op hframed.opens
  | call callee arguments =>
    obtain ⟨texts, htexts, rfl⟩ := Expr.text_call_eq_ok.mp h
    have hcallee := isIdentifier_calleeName (hleaves (calleeKind callee) (.head _))
    have htexts := isValue_texts htexts (hleaves.mono (by simp +contextual [Expr.leaves]))
    exact (IsValue.word hcallee).trailed (.inl rfl) (.inl rfl) (.commaSeparated htexts)
  | ident name =>
    obtain rfl := Expr.text_ident_eq_ok.mp h
    exact .word (isIdentifier_of_isSpellable (hleaves _ (.head _)))
  | number value =>
    obtain rfl := Expr.text_number_eq_ok.mp h
    have hspellable := Bool.and_eq_true_iff.mp (hleaves (.number value) (.head _))
    obtain ⟨n, rfl⟩ := Int.eq_ofNat_of_zero_le (decide_eq_true_eq.mp hspellable.1)
    exact ⟨_, Python.spells_number n, by simp [assignSign]⟩
  | string raw =>
    obtain rfl := Expr.text_string_eq_ok.mp h
    exact ⟨_, Python.spells_string (hleaves (.string raw) (.head _)), by simp [assignSign]⟩
  | boolean value =>
    obtain rfl := Expr.text_boolean_eq_ok.mp h
    cases value <;> exact .word rfl
  | array elements =>
    obtain ⟨texts, htexts, rfl⟩ := Expr.text_array_eq_ok.mp h
    exact (IsValue.commaSeparated (isValue_texts htexts hleaves)).enclosed (.inr rfl) (.inr rfl)
  | index object index =>
    obtain ⟨o, i, ho, hi, rfl⟩ := Expr.text_index_eq_ok.mp h
    have hobject := isValue_text ho (hleaves.mono (by simp +contextual [Expr.leaves]))
    have hindex := isValue_text hi (hleaves.mono (by simp +contextual [Expr.leaves]))
    exact (hobject.asOperand _ _).trailed (.inr rfl) (.inr rfl) hindex
  | property object name =>
    obtain ⟨rfl, o, ho, rfl⟩ := Expr.text_property_eq_ok.mp h
    have hlen : IsValue "len" := .word rfl
    exact hlen.trailed (.inl rfl) (.inl rfl) (isValue_text ho hleaves)

theorem isValue_texts {es : List Expr} {texts : List String} (h : exprTexts es = .ok texts)
    (hleaves : SpellableLeaves (exprsLeaves es)) : ∀ text ∈ texts, IsValue text := by
  cases es with
  | nil =>
    obtain rfl := exprTexts_nil_eq_ok.mp h
    exact fun _ htext => absurd htext List.not_mem_nil
  | cons e others =>
    obtain ⟨first, rest, hfirst, hrest, rfl⟩ := exprTexts_cons_eq_ok.mp h
    have he := isValue_text hfirst (hleaves.mono (by simp +contextual [exprsLeaves]))
    have hothers := isValue_texts hrest (hleaves.mono (by simp +contextual [exprsLeaves]))
    exact List.forall_mem_cons.mpr ⟨he, hothers⟩

end

/-! ### Texts of lines -/

/-- The text is cut into tokens that assign to just these names. -/
def Binds (text : String) (names : List String) : Prop :=
  ∃ tokens, Spells isNewline Breaks text.toList tokens ∧ targets tokens = names

theorem IsValue.binds {text : String} (h : IsValue text) : Binds text [] := by
  obtain ⟨tokens, hspells, hsign⟩ := h
  exact ⟨tokens, hspells, Python.targets_of_not_mem hsign⟩

theorem spells_assignSign {ends : Char → Bool} :
    Spells ends Anything " = ".toList [assignSign] := by
  have hsign : Spells ends (fun rest => rest.head? = some ' ') "=".toList [assignSign] := by
    refine Python.spells_operator rfl rfl fun rest hrest => ?_
    obtain ⟨after, rfl⟩ := List.head?_eq_some_iff.mp hrest
    rfl
  exact hsign.spaces

/-- A target and what is assigned to it. -/
theorem Binds.assign {target text : String} {tokens : List Python.Token} {names : List String}
    (hspells : Spells isNewline Breaks target.toList tokens) (hsign : assignSign ∉ tokens)
    (h : Binds text names) :
    Binds (target ++ (" = " ++ text)) ((loneWord? tokens).toList ++ names) := by
  obtain ⟨rest, hrest, rfl⟩ := h
  refine ⟨tokens ++ assignSign :: rest, ?_, Python.targets_append hsign rest⟩
  rw [String.toList_append, String.toList_append]
  have hvalue := spells_assignSign.append hrest fun _ _ => trivial
  exact hspells.append hvalue fun after _ => Python.breaks_cons _ rfl

/-- A name and what is assigned to it. -/
theorem Binds.assignName {name text : String} {names : List String}
    (hname : Python.isIdentifier name.toList) (h : Binds text names) :
    Binds (name ++ (" = " ++ text)) (name :: names) := by
  have hsign : assignSign ∉ [Python.Token.ofWord name] := by
    unfold Python.Token.ofWord
    split <;> simp [assignSign]
  have hassign := Binds.assign (Python.spells_word hname) hsign h
  rwa [Python.loneWord?_ofWord] at hassign

/-- An element and what is assigned to it. The name of the list stays as it is. -/
theorem Binds.assignElement {object index text : String} {names : List String}
    (hobject : IsValue object) (hindex : IsValue index) (h : Binds text names) :
    Binds (object ++ ("[" ++ index ++ "]") ++ (" = " ++ text)) names := by
  obtain ⟨ta, hta, hsa⟩ := hobject
  obtain ⟨tb, htb, hsb⟩ := hindex
  have hsign : assignSign ∉ ta ++ .operator "[" :: (tb ++ [.operator "]"]) := by
    simpa [assignSign] using ⟨hsa, hsb⟩
  have hword : loneWord? (ta ++ .operator "[" :: (tb ++ [.operator "]"])) = none :=
    Python.loneWord?_of_mem_operator (List.mem_append_right _ List.mem_cons_self)
  have hassign := Binds.assign (spells_trailed (.inr rfl) (.inr rfl) hta htb) hsign h
  rwa [hword] at hassign

/-- **A line assigns to the names to which the expression does.** -/
theorem binds_lineText {e : Expr} {t : String} (h : e.lineText = .ok t)
    (hleaves : SpellableLeaves e.leaves) (hprintable : e.isPrintable) :
    Binds t (assignedBy e.events) := by
  fun_induction Expr.lineText e generalizing t with
  | case1 target value ih =>
    obtain ⟨l, r, hl, hr, rfl⟩ := Expr.lineText_assign_eq_ok.mp h
    simp only [Expr.isPrintable, Bool.and_eq_true] at hprintable
    obtain ⟨⟨htarget, -⟩, hvalue⟩ := hprintable
    have hbinds := ih hr (hleaves.mono (by simp +contextual [Expr.leaves])) hvalue
    cases target with
    | ident name =>
      obtain rfl := Expr.text_ident_eq_ok.mp hl
      have hname := isIdentifier_of_isSpellable (hleaves (.identifier l) (by simp [Expr.leaves]))
      simpa [Expr.events, Event.assigned?] using hbinds.assignName hname
    | index object index =>
      have hnone := assignedBy_events_of_text hl
      obtain ⟨o, i, ho, hi, rfl⟩ := Expr.text_index_eq_ok.mp hl
      have hobject := isValue_text ho (hleaves.mono (by simp +contextual [Expr.leaves]))
      have hindex := isValue_text hi (hleaves.mono (by simp +contextual [Expr.leaves]))
      rw [Expr.events, assignedBy_append, hnone, List.nil_append]
      · exact hbinds.assignElement (hobject.asOperand _ _) hindex
      · simp
    | _ => cases htarget
  | case2 e =>
    rw [assignedBy_events_of_text h]
    exact (isValue_text h hleaves).binds

end Offside
