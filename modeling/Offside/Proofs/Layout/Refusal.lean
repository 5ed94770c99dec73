import Offside.Layout.Stmt
import Offside.Proofs.Tree.Occurrences

/-!
# What is refused

Three constructs have no counterpart in the output language, and each has its fault
(`Occurrence.Refused`): a property other than `length`, an assignment that is used as a value, and a
`continue` whose innermost loop is a `for`. **The layout of a script fails exactly if one of them
occurs in it, with the fault of the first one** (`Program.faultOf_layout`).

Whether a construct is refused is a question about its occurrence, that is, about the slots in which
it stands; the layout goes through the script and asks it on the way. Both go in the same order.
-/

namespace Offside

/-! ### Refused constructs -/

/-- The construct has no counterpart in the output language, for the given reason. -/
inductive Occurrence.Refused : Occurrence → LayoutFault → Prop where
  | property {slots : List Slot} {object : Expr} {name : String} (hname : name ≠ "length") :
      Refused ⟨slots, .expr (.property object name)⟩ (.unsupportedProperty name)
  | assignment {slots : List Slot} {target value : Expr} (hslots : isLinePosition slots = false) :
      Refused ⟨slots, .expr (.assign target value)⟩ (.unsupported "assignment used as a value")
  | jump {slots : List Slot} (hslots : inForLoop slots = true) :
      Refused ⟨slots, .stmt .continueLoop⟩
        (.unsupported "'continue' directly inside a for loop")

/-- The reason why the construct is refused, if it is. -/
def Occurrence.fault? : Occurrence → Option LayoutFault
  | ⟨_, .expr (.property _ name)⟩ =>
    if name = "length" then none else some (.unsupportedProperty name)
  | ⟨slots, .expr (.assign _ _)⟩ =>
    if isLinePosition slots then none else some (.unsupported "assignment used as a value")
  | ⟨slots, .stmt .continueLoop⟩ =>
    if inForLoop slots then some (.unsupported "'continue' directly inside a for loop") else none
  | _ => none

theorem Occurrence.fault?_eq_some_iff {o : Occurrence} {fault : LayoutFault} :
    o.fault? = some fault ↔ o.Refused fault := by
  constructor
  · intro h
    unfold fault? at h
    split at h
    · split at h
      · cases h
      · next hname =>
        cases h
        exact .property hname
    · split at h
      · cases h
      · next hslots =>
        cases h
        exact .assignment (Bool.eq_false_iff.mpr hslots)
    · split at h
      · next hslots =>
        cases h
        exact .jump hslots
      · cases h
    · cases h
  · rintro (hname | hslots | hslots)
    · exact if_neg hname
    · exact if_neg (Bool.eq_false_iff.mp hslots)
    · exact if_pos hslots

theorem Occurrence.fault?_eq_none_iff {o : Occurrence} :
    o.fault? = none ↔ ∀ fault, ¬ o.Refused fault := by
  simp only [Option.eq_none_iff_forall_ne_some, ne_eq, fault?_eq_some_iff]

/-- The first reason for a refusal in a list of occurrences. -/
def firstFault? (occurrences : List Occurrence) : Option LayoutFault :=
  occurrences.findSome? Occurrence.fault?

theorem firstFault?_cons (o : Occurrence) (others : List Occurrence) :
    firstFault? (o :: others) = o.fault?.or (firstFault? others) := by
  rw [firstFault?, List.findSome?_cons]
  cases o.fault? <;> rfl

theorem firstFault?_append (front back : List Occurrence) :
    firstFault? (front ++ back) = (firstFault? front).or (firstFault? back) :=
  List.findSome?_append

theorem firstFault?_eq_some_iff {occurrences : List Occurrence} {fault : LayoutFault} :
    firstFault? occurrences = some fault ↔
      ∃ front o back, occurrences = front ++ o :: back ∧ o.Refused fault ∧
        ∀ other ∈ front, ∀ reason, ¬ other.Refused reason := by
  simp only [firstFault?, List.findSome?_eq_some_iff, Occurrence.fault?_eq_some_iff,
    Occurrence.fault?_eq_none_iff]

theorem exists_firstFault?_iff {occurrences : List Occurrence} :
    (∃ fault, firstFault? occurrences = some fault) ↔
      ∃ o ∈ occurrences, ∃ fault, o.Refused fault := by
  rw [← Option.isSome_iff_exists, firstFault?, List.findSome?_isSome_iff]
  simp only [Option.isSome_iff_exists, Occurrence.fault?_eq_some_iff]

/-! ### Faults of computations -/

/-- The fault with which a computation ends, if it does. -/
def faultOf {α : Type} : Except LayoutFault α → Option LayoutFault
  | .ok _ => none
  | .error fault => some fault

section FaultOf

variable {α β : Type}

theorem faultOf_eq_some_iff {x : Except LayoutFault α} {fault : LayoutFault} :
    faultOf x = some fault ↔ x = .error fault := by
  cases x with
  | ok a => simp only [faultOf, reduceCtorEq]
  | error reason => simp only [faultOf, Option.some.injEq, Except.error.injEq]

@[simp]
theorem faultOf_pure (a : α) : faultOf (pure a) = none := rfl

/-- The fault of the first part counts before that of the second, which depends on the first part
only if that succeeds. -/
theorem faultOf_bind {x : Except LayoutFault α} {f : α → Except LayoutFault β}
    {next : Option LayoutFault} (h : ∀ a, faultOf (f a) = next) :
    faultOf (x >>= f) = (faultOf x).or next := by
  cases x with
  | error fault => rfl
  | ok a => exact h a

end FaultOf

/-! ### Expressions -/

namespace Expr

theorem faultOf_text_binary (op : BinaryOp) (left right : Expr) :
    faultOf (binary op left right).text = (faultOf left.text).or (faultOf right.text) := by
  rw [Expr.text]
  refine faultOf_bind fun l => (faultOf_bind fun r => faultOf_pure _).trans Option.or_none

theorem faultOf_text_unary (op : UnaryOp) (operand : Expr) :
    faultOf (unary op operand).text = faultOf operand.text := by
  rw [Expr.text]
  exact (faultOf_bind fun t => faultOf_pure _).trans Option.or_none

theorem faultOf_text_call (callee : String) (arguments : List Expr) :
    faultOf (call callee arguments).text = faultOf (exprTexts arguments) := by
  rw [Expr.text]
  exact (faultOf_bind fun texts => faultOf_pure _).trans Option.or_none

theorem faultOf_text_array (elements : List Expr) :
    faultOf (array elements).text = faultOf (exprTexts elements) := by
  rw [Expr.text]
  exact (faultOf_bind fun texts => faultOf_pure _).trans Option.or_none

theorem faultOf_text_index (object index : Expr) :
    faultOf (Expr.index object index).text = (faultOf object.text).or (faultOf index.text) := by
  rw [Expr.text]
  exact faultOf_bind fun o => (faultOf_bind fun i => faultOf_pure _).trans Option.or_none

theorem faultOf_text_property (object : Expr) (name : String) :
    faultOf (property object name).text =
      if name = "length" then faultOf object.text else some (.unsupportedProperty name) := by
  rw [Expr.text, lengthProperty]
  split
  · exact (faultOf_bind fun t => faultOf_pure _).trans Option.or_none
  · rfl

end Expr

theorem faultOf_exprTexts_cons (e : Expr) (others : List Expr) :
    faultOf (exprTexts (e :: others)) = (faultOf e.text).or (faultOf (exprTexts others)) := by
  rw [exprTexts]
  exact faultOf_bind fun text => (faultOf_bind fun texts => faultOf_pure _).trans Option.or_none

mutual

/-- **A value is refused at its first refused part.** The slots in which it stands matter only if it
is an assignment. -/
theorem faultOf_text (e : Expr) (slots : List Slot)
    (h : ∀ target value, e = .assign target value → isLinePosition slots = false) :
    faultOf e.text = firstFault? (e.occurrences slots) := by
  cases e with
  | assign target value =>
    rw [Expr.text_assign, Expr.occurrences, firstFault?_cons, Occurrence.fault?,
      h target value rfl]
    rfl
  | binary op left right =>
    rw [Expr.faultOf_text_binary, Expr.occurrences, firstFault?_cons, firstFault?_append,
      faultOf_text left (.operand :: slots) fun _ _ _ => rfl,
      faultOf_text right (.operand :: slots) fun _ _ _ => rfl]
    rfl
  | unary op operand =>
    rw [Expr.faultOf_text_unary, Expr.occurrences, firstFault?_cons,
      faultOf_text operand (.operand :: slots) fun _ _ _ => rfl]
    rfl
  | call callee arguments =>
    rw [Expr.faultOf_text_call, Expr.occurrences, firstFault?_cons,
      faultOf_exprTexts arguments (.argument :: slots) rfl]
    rfl
  | ident name =>
    rw [Expr.text, Expr.occurrences]
    rfl
  | number value =>
    rw [Expr.text, Expr.occurrences]
    rfl
  | string raw =>
    rw [Expr.text, Expr.occurrences]
    rfl
  | boolean value =>
    rw [Expr.occurrences]
    cases value <;> rw [Expr.text] <;> rfl
  | array elements =>
    rw [Expr.faultOf_text_array, Expr.occurrences, firstFault?_cons,
      faultOf_exprTexts elements (.element :: slots) rfl]
    rfl
  | index object index =>
    rw [Expr.faultOf_text_index, Expr.occurrences, firstFault?_cons, firstFault?_append,
      faultOf_text object (.object :: slots) fun _ _ _ => rfl,
      faultOf_text index (.index :: slots) fun _ _ _ => rfl]
    rfl
  | property object name =>
    rw [Expr.faultOf_text_property, Expr.occurrences, firstFault?_cons, Occurrence.fault?,
      faultOf_text object (.object :: slots) fun _ _ _ => rfl]
    split <;> rfl

theorem faultOf_exprTexts (es : List Expr) (slots : List Slot)
    (h : isLinePosition slots = false) :
    faultOf (exprTexts es) = firstFault? (exprsOccurrences slots es) := by
  cases es with
  | nil =>
    rw [exprTexts, exprsOccurrences]
    rfl
  | cons e others =>
    rw [faultOf_exprTexts_cons, exprsOccurrences, firstFault?_append,
      faultOf_text e slots fun _ _ _ => h, faultOf_exprTexts others slots h]

end

/-! ### Lines -/

/-- **A line is refused at its first refused part.** The induction is on the chain of assignments:
what is assigned stands in a line position if the assignment does. -/
theorem faultOf_lineText (e : Expr) (slots : List Slot) (h : isLinePosition slots = true) :
    faultOf e.lineText = firstFault? (e.occurrences slots) := by
  cases e with
  | assign target value =>
    have htail : faultOf (Expr.assign target value).lineText =
        (faultOf target.text).or (faultOf value.lineText) := by
      rw [Expr.lineText]
      exact faultOf_bind fun t => (faultOf_bind fun v => faultOf_pure _).trans Option.or_none
    rw [htail, Expr.occurrences, firstFault?_cons, firstFault?_append, Occurrence.fault?, h,
      faultOf_text target (.target :: slots) fun _ _ _ => rfl,
      faultOf_lineText value (.assigned :: slots) h]
    rfl
  | _ => exact faultOf_text _ slots (by intro target value heq; cases heq)

theorem faultOf_declaration (d : Declaration) (slots : List Slot) :
    faultOf d.text = firstFault? (d.occurrences slots) := by
  obtain ⟨kind, name, init⟩ := d
  cases init with
  | none => rfl
  | some value =>
    have htext : faultOf (Declaration.text ⟨kind, name, some value⟩) = faultOf value.lineText :=
      (faultOf_bind fun v => faultOf_pure _).trans Option.or_none
    rw [htext, faultOf_lineText value (.initializer :: slots) rfl]
    rfl

/-- What a part of a statement adds to its lines does not change its fault. -/
theorem faultOf_bind_pure {α β : Type} (x : Except LayoutFault α) (f : α → β) :
    faultOf (x >>= fun a => pure (f a)) = faultOf x :=
  (faultOf_bind fun _ => faultOf_pure _).trans Option.or_none

mutual

/-- **A statement is refused at its first refused part.** -/
theorem Stmt.faultOf_lines (s : Stmt) (opening : String) (level : Nat) (slots : List Slot) :
    faultOf (s.lines opening (inForLoop slots) level) = firstFault? (s.occurrences slots) := by
  cases s with
  | declare d =>
    rw [Stmt.lines, faultOf_bind_pure, Stmt.occurrences, firstFault?_cons,
      faultOf_declaration d slots]
    rfl
  | function name params body =>
    have hbody := faultOf_stmtsLines body "if" (level + 1) (.functionBody :: slots)
    rw [Stmt.lines, faultOf_bind_pure, Stmt.occurrences, firstFault?_cons, ← hbody]
    rfl
  | ifThen condition yes =>
    have hcondition := faultOf_text condition (.condition :: slots) fun _ _ _ => rfl
    have hyes := faultOf_stmtsLines yes "if" (level + 1) (.block :: slots)
    rw [Stmt.lines, faultOf_bind fun _ => faultOf_bind_pure _ _, Stmt.occurrences,
      firstFault?_cons, firstFault?_append, ← hcondition, ← hyes]
    rfl
  | ifElse condition yes no =>
    have hcondition := faultOf_text condition (.condition :: slots) fun _ _ _ => rfl
    have hyes := faultOf_stmtsLines yes "if" (level + 1) (.block :: slots)
    have hfine : Occurrence.fault? ⟨slots, .stmt (.ifElse condition yes no)⟩ = none := rfl
    rw [Stmt.lines, Stmt.occurrences, firstFault?_cons, firstFault?_append, firstFault?_append,
      hfine, Option.none_or, ← hcondition, ← hyes]
    refine faultOf_bind fun test => faultOf_bind fun inner => ?_
    -- Whether the chain goes on or an `else` stands there, the block is laid out next.
    split
    · rw [faultOf_bind_pure]
      exact faultOf_stmtsLines no "elif" level (.block :: slots)
    · rw [faultOf_bind_pure]
      exact faultOf_stmtsLines no "if" (level + 1) (.block :: slots)
  | whileLoop condition body =>
    have hcondition := faultOf_text condition (.condition :: slots) fun _ _ _ => rfl
    have hbody := faultOf_stmtsLines body "if" (level + 1) (.whileBody :: slots)
    rw [Stmt.lines, faultOf_bind fun _ => faultOf_bind_pure _ _, Stmt.occurrences,
      firstFault?_cons, firstFault?_append, ← hcondition, ← hbody]
    rfl
  | forLoop init condition update body =>
    have hinit := faultOf_declaration init slots
    have hcondition := faultOf_text condition (.condition :: slots) fun _ _ _ => rfl
    have hbody := faultOf_stmtsLines body "if" (level + 1) (.forBody :: slots)
    have hupdate := faultOf_lineText update (.update :: slots) rfl
    rw [Stmt.lines, faultOf_bind fun _ => faultOf_bind fun _ => faultOf_bind fun _ =>
      faultOf_bind_pure _ _, Stmt.occurrences, firstFault?_cons, firstFault?_append,
      firstFault?_append, firstFault?_append, ← hinit, ← hcondition, ← hbody, ← hupdate]
    rfl
  | giveBack value =>
    cases value with
    | none =>
      rw [Stmt.lines, Stmt.occurrences]
      rfl
    | some value =>
      have hvalue := faultOf_text value (.returned :: slots) fun _ _ _ => rfl
      rw [Stmt.lines, faultOf_bind_pure, Stmt.occurrences, firstFault?_cons, hvalue]
      rfl
  | breakLoop =>
    rw [Stmt.lines, Stmt.occurrences]
    rfl
  | continueLoop =>
    rw [Stmt.lines, Stmt.occurrences, firstFault?_cons, Occurrence.fault?]
    cases inForLoop slots <;> rfl
  | expr value =>
    rw [Stmt.lines, faultOf_bind_pure, Stmt.occurrences, firstFault?_cons,
      faultOf_lineText value (.statement :: slots) rfl]
    rfl

theorem faultOf_stmtsLines (body : List Stmt) (opening : String) (level : Nat)
    (slots : List Slot) :
    faultOf (stmtsLines opening (inForLoop slots) level body) =
      firstFault? (stmtsOccurrences slots body) := by
  cases body with
  | nil =>
    rw [stmtsLines, stmtsOccurrences]
    rfl
  | cons s rest =>
    rw [stmtsLines, faultOf_bind fun _ => faultOf_bind_pure _ _, stmtsOccurrences,
      firstFault?_append, s.faultOf_lines opening level slots,
      faultOf_stmtsLines rest opening level slots]

end

/-- **The layout of a script is refused at its first refused construct**, however wide a level
is. -/
theorem Program.faultOf_layout (width : Nat) (program : Program) :
    faultOf (program.layout width) = firstFault? program.occurrences := by
  rw [Program.layout, faultOf_bind_pure]
  exact faultOf_stmtsLines program.body "if" 0 []

end Offside
