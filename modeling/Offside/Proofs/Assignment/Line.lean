import Offside.Conversion
import Offside.Proofs.Assignment.Chain
import Offside.Proofs.Layout.Lines
import Offside.Proofs.Layout.Targets

/-!
# What the line of a chain stores

The line of a chain of assignments is the chain itself, target after target. Python reads it back
by cutting it at the signs `=` (`Python.readParts`), evaluates the last part and stores it at the
other parts in turn (`Python.runLine`).

**The line leaves the memory that the chain leaves exactly if both store at the same places, those
apart that hold the value already, and so it does for every chain of independent targets**
(`line_stores_as_chain_iff`). It does not for every chain: in `i = a[i] = 1` the line stores at the
element that the new `i` means (`line_stores_elsewhere`).
-/

namespace Offside

/-! ### Running a line -/

namespace Python

/-- The operator of the script language with the same meaning. -/
def Arithmetic.binaryOp : Arithmetic → BinaryOp
  | add => .add
  | sub => .sub
  | mul => .mul
  | div => .div
  | mod => .mod

section Evaluation

variable (meaning : Meaning) (memory : Memory)

/-- The value of an expression made of names, numbers, arithmetic and subscripts. -/
def Expression.value? : Expression → Option Value
  | .name word => memory.held (.variable word)
  | .number n => some (.number n)
  | .negative operand => do
    let x ← operand.value?
    Meaning.negative? x
  | .arithmetic op left right => do
    let x ← left.value?
    let y ← right.value?
    meaning.result? op.binaryOp x y
  | .subscript object index => do
    let array ← object.value?
    let n ← index.value?
    let place ← meaning.element? memory array n
    memory.held place
  | _ => none

/-- The place that a target means. -/
def Expression.place? : Expression → Option Place
  | .name word => some (.variable word)
  | .subscript object index => do
    let array ← object.value? meaning memory
    let n ← index.value? meaning memory
    meaning.element? memory array n
  | _ => none

end Evaluation

/-- The expressions between the signs `=` of a line. -/
def readParts (text : String) : Option (List Expression) := do
  let tokens ← tokenize endsLine text.toList
  (tokens.splitOn assignSign).mapM parse

/-- Runs a line: the value is evaluated, and then each target is found and stored to, from left to
right. -/
def runLine (meaning : Meaning) (text : String) (memory : Memory) : Option Memory := do
  let parts ← readParts text
  let value ← parts.getLast?
  let x ← value.value? meaning memory
  storeInTurn (fun target memory => target.place? meaning memory) x parts.dropLast memory

end Python

open Python (Spells Breaks assignSign)

/-! ### Images of simple expressions -/

/-- The two expressions are simple and put together alike. -/
inductive Mirrors : Expr → Python.Expression → Prop
  | name (name : String) : Mirrors (.ident name) (.name name)
  | number (n : Nat) : Mirrors (.number n) (.number n)
  | negative {operand : Expr} {image : Python.Expression} (h : Mirrors operand image) :
      Mirrors (.unary .neg operand) (.negative image)
  | arithmetic (op : Python.Arithmetic) {left right : Expr} {l r : Python.Expression}
      (hleft : Mirrors left l) (hright : Mirrors right r) :
      Mirrors (.binary op.binaryOp left right) (.arithmetic op l r)
  | subscript {object index : Expr} {o i : Python.Expression} (hobject : Mirrors object o)
      (hindex : Mirrors index i) : Mirrors (.index object index) (.subscript o i)

theorem mirrors_binary {op : BinaryOp} {left right : Expr} {l r : Python.Expression}
    (hop : op.isArithmetic) (hleft : Mirrors left l) (hright : Mirrors right r) :
    Mirrors (.binary op left right) (op.image l r) := by
  cases op with
  | add => exact .arithmetic .add hleft hright
  | sub => exact .arithmetic .sub hleft hright
  | mul => exact .arithmetic .mul hleft hright
  | div => exact .arithmetic .div hleft hright
  | mod => exact .arithmetic .mod hleft hright
  | or | and | eq | ne | lt | gt | le | ge => cases hop

/-- A simple expression and its image are put together alike. -/
theorem mirrors_of_image? (e : Expr) {image : Python.Expression} (hsimple : e.isSimple)
    (h : e.image? = some image) : Mirrors e image := by
  cases e with
  | ident name =>
    cases h
    exact .name name
  | number n =>
    cases n with
    | ofNat n =>
      cases h
      exact .number n
    | negSucc n => cases h
  | unary op operand =>
    cases op with
    | neg =>
      obtain ⟨inner, hinner, heq⟩ := Option.bind_eq_some_iff.mp h
      cases heq
      exact .negative (mirrors_of_image? operand hsimple hinner)
    | not => cases hsimple
  | binary op left right =>
    obtain ⟨hop, hparts⟩ := Bool.and_eq_true_iff.mp hsimple
    obtain ⟨hleft, hright⟩ := Bool.and_eq_true_iff.mp hparts
    obtain ⟨l, hl, hrest⟩ := Option.bind_eq_some_iff.mp h
    obtain ⟨r, hr, heq⟩ := Option.bind_eq_some_iff.mp hrest
    cases heq
    exact mirrors_binary hop (mirrors_of_image? left hleft hl) (mirrors_of_image? right hright hr)
  | index object index =>
    obtain ⟨hobject, hindex⟩ := Bool.and_eq_true_iff.mp hsimple
    obtain ⟨o, ho, hrest⟩ := Option.bind_eq_some_iff.mp h
    obtain ⟨i, hi, heq⟩ := Option.bind_eq_some_iff.mp hrest
    cases heq
    exact .subscript (mirrors_of_image? object hobject ho) (mirrors_of_image? index hindex hi)
  | _ => cases hsimple

namespace Mirrors

variable {meaning : Meaning} {memory : Memory} {e : Expr} {image : Python.Expression}

/-- **They have the same value.** -/
theorem value?_eq (h : Mirrors e image) :
    image.value? meaning memory = e.value? meaning memory := by
  induction h with
  | name name => rfl
  | number n => rfl
  | negative h ih => rw [Python.Expression.value?, Expr.value?, ih]
  | arithmetic op hleft hright ihleft ihright =>
    rw [Python.Expression.value?, Expr.value?, ihleft, ihright]
  | subscript hobject hindex ihobject ihindex =>
    rw [Python.Expression.value?, Expr.value?, ihobject, ihindex]

/-- As targets they mean the same place. -/
theorem place?_eq (h : Mirrors e image) :
    image.place? meaning memory = e.place? meaning memory := by
  cases h with
  | subscript hobject hindex =>
    rw [Python.Expression.place?, Expr.place?, hobject.value?_eq, hindex.value?_eq]
  | _ => rfl

theorem assignSign_not_mem_enclose {tokens : List Python.Token} (h : assignSign ∉ tokens)
    (least : Nat) : assignSign ∉ image.enclose least tokens := by
  rw [Python.Expression.enclose]
  split
  · simpa [assignSign] using h
  · exact h

/-- There is no sign `=` between the tokens. -/
theorem assignSign_not_mem_tokens (h : Mirrors e image) : assignSign ∉ image.tokens := by
  induction h with
  | name name => simp [Python.Expression.tokens, assignSign]
  | number n => simp [Python.Expression.tokens, assignSign]
  | negative h ih =>
    simpa [Python.Expression.tokens, assignSign] using assignSign_not_mem_enclose ih _
  | arithmetic op hleft hright ihleft ihright =>
    have hsign : assignSign ≠ .operator op.spelling := by cases op <;> decide
    simp [Python.Expression.tokens, assignSign_not_mem_enclose ihleft,
      assignSign_not_mem_enclose ihright, hsign]
  | subscript hobject hindex ihobject ihindex =>
    simpa [Python.Expression.tokens, assignSign] using
      And.intro (assignSign_not_mem_enclose ihobject _) ihindex

end Mirrors

/-! ### Reading a line -/

theorem exists_text_of_isSimple (e : Expr) (hsimple : e.isSimple) : ∃ t, e.text = .ok t := by
  cases e with
  | ident name => exact ⟨_, Expr.text_ident_eq_ok.mpr rfl⟩
  | number n => exact ⟨_, Expr.text_number_eq_ok.mpr rfl⟩
  | unary op operand =>
    cases op with
    | neg =>
      obtain ⟨s, hs⟩ := exists_text_of_isSimple operand hsimple
      exact ⟨_, Expr.text_unary_eq_ok.mpr ⟨s, hs, rfl⟩⟩
    | not => cases hsimple
  | binary op left right =>
    obtain ⟨-, hparts⟩ := Bool.and_eq_true_iff.mp hsimple
    obtain ⟨hleft, hright⟩ := Bool.and_eq_true_iff.mp hparts
    obtain ⟨l, hl⟩ := exists_text_of_isSimple left hleft
    obtain ⟨r, hr⟩ := exists_text_of_isSimple right hright
    exact ⟨_, Expr.text_binary_eq_ok.mpr ⟨l, r, hl, hr, rfl⟩⟩
  | index object index =>
    obtain ⟨hobject, hindex⟩ := Bool.and_eq_true_iff.mp hsimple
    obtain ⟨o, ho⟩ := exists_text_of_isSimple object hobject
    obtain ⟨i, hi⟩ := exists_text_of_isSimple index hindex
    exact ⟨_, Expr.text_index_eq_ok.mpr ⟨o, i, ho, hi, rfl⟩⟩
  | _ => cases hsimple

/-- A simple expression has a text, and the text spells an expression that mirrors it. -/
theorem exists_mirror {e : Expr} (hsimple : e.isSimple)
    (hleaves : ∀ kind ∈ e.leaves, isWritable kind) :
    ∃ t image, e.text = .ok t ∧ Mirrors e image ∧
      Spells Python.endsLine Breaks t.toList image.tokens := by
  obtain ⟨t, ht⟩ := exists_text_of_isSimple e hsimple
  obtain ⟨image, himage, -, hspells⟩ := spells_text e ht hleaves
  exact ⟨t, image, ht, mirrors_of_image? e hsimple himage, hspells⟩

/-- **The line of a chain** consists of its targets and its value, with signs `=` between them. -/
theorem exists_lineText (a : Expr) (hchain : a.isChain) :
    ∃ first rest, exprTexts (a.targets ++ [a.assigned]) = .ok (first :: rest) ∧
      a.lineText = .ok (String.intercalate " = " (first :: rest)) := by
  cases a with
  | assign target value =>
    obtain ⟨-, hparts⟩ := Bool.and_eq_true_iff.mp hchain
    obtain ⟨htarget, hvalue⟩ := Bool.and_eq_true_iff.mp hparts
    obtain ⟨l, hl⟩ := exists_text_of_isSimple target htarget
    obtain ⟨first, rest, htexts, hline⟩ := exists_lineText value hvalue
    refine ⟨l, first :: rest, exprTexts_cons_eq_ok.mpr ⟨l, first :: rest, hl, htexts, rfl⟩,
      Expr.lineText_assign_eq_ok.mpr ⟨l, _, hl, hline, ?_⟩⟩
    rw [String.intercalate_cons_cons, String.append_assoc]
  | _ =>
    obtain ⟨t, ht⟩ := exists_text_of_isSimple _ hchain
    exact ⟨t, [], exprTexts_cons_eq_ok.mpr ⟨t, [], ht, exprTexts_nil_eq_ok.mpr rfl, rfl⟩, ht⟩

/-- The text is cut at the signs `=` into targets and a value that mirror those of the chain. -/
structure LineOf (a : Expr) (text : String) (targets : List Python.Expression)
    (value : Python.Expression) : Prop where
  spells : ∃ tokens, Spells Python.endsLine Breaks text.toList tokens ∧
    (tokens.splitOn assignSign).mapM Python.parse = some (targets ++ [value])
  mirrors_targets : List.Forall₂ Mirrors a.targets targets
  mirrors_value : Mirrors a.assigned value

/-- **A chain has a line, which is read as its targets and its value.** The induction is on the
targets. -/
theorem exists_lineOf (a : Expr) (hchain : a.isChain)
    (hleaves : ∀ kind ∈ a.leaves, isWritable kind) :
    ∃ text targets value, a.lineText = .ok text ∧ LineOf a text targets value := by
  cases a with
  | assign target value =>
    obtain ⟨-, hparts⟩ := Bool.and_eq_true_iff.mp hchain
    obtain ⟨htarget, hvalue⟩ := Bool.and_eq_true_iff.mp hparts
    rw [Expr.leaves, List.forall_mem_append] at hleaves
    obtain ⟨l, image, hl, hmirror, hspells⟩ := exists_mirror htarget hleaves.1
    obtain ⟨r, targets, last, hr, hline⟩ := exists_lineOf value hvalue hleaves.2
    obtain ⟨tokens, htokens, hsplit⟩ := hline.spells
    refine ⟨_, image :: targets, last, Expr.lineText_assign_eq_ok.mpr ⟨l, r, hl, hr, rfl⟩,
      ⟨image.tokens ++ assignSign :: tokens, ?_, ?_⟩, .cons hmirror hline.mirrors_targets,
      hline.mirrors_value⟩
    · rw [String.toList_append, String.toList_append]
      have hrest := spells_assignSign.append htokens fun _ _ => trivial
      exact hspells.append hrest fun rest _ => Python.breaks_cons _ rfl
    · -- The target has no sign `=` in it, so the first one is the one behind it.
      rw [List.splitOn_append_cons_self_of_not_mem hmirror.assignSign_not_mem_tokens,
        List.mapM_cons, Python.parse_tokens, hsplit]
      rfl
  | _ =>
    obtain ⟨t, image, ht, hmirror, hspells⟩ := exists_mirror hchain hleaves
    refine ⟨t, [], image, ht, ⟨image.tokens, hspells, ?_⟩, .nil, hmirror⟩
    rw [List.splitOn_eq_singleton hmirror.assignSign_not_mem_tokens, List.mapM_cons,
      Python.parse_tokens]
    rfl

section RunLine

variable {meaning : Meaning} {memory : Memory} {a : Expr} {text : String}
  {targets : List Python.Expression} {value : Python.Expression}

theorem storeInTurn_eq_of_mirrors {chain : List Expr} {x : Value}
    (h : List.Forall₂ Mirrors chain targets) :
    storeInTurn (fun target memory => target.place? meaning memory) x targets memory =
      storeInTurn (fun target memory => target.place? meaning memory) x chain memory := by
  induction h generalizing memory with
  | nil => rfl
  | cons hfirst hrest ih =>
    rw [storeInTurn, storeInTurn, hfirst.place?_eq]
    exact Option.bind_congr fun place _ => ih

/-- **Running the line of a chain** is storing its value to its targets in turn. -/
theorem LineOf.runLine_eq (h : LineOf a text targets value) :
    Python.runLine meaning text memory = a.runInTurn meaning memory := by
  obtain ⟨tokens, htokens, hsplit⟩ := h.spells
  have hparts : Python.readParts text = some (targets ++ [value]) := by
    rw [Python.readParts, htokens.tokenize_eq]
    exact hsplit
  have hlast : (targets ++ [value]).getLast? = some value := List.getLast?_concat
  simp only [Python.runLine, hparts, hlast, List.dropLast_concat, Option.bind_eq_bind,
    Option.bind_some, h.mirrors_value.value?_eq, storeInTurn_eq_of_mirrors h.mirrors_targets,
    Expr.runInTurn]

end RunLine

/-! ### Where chains stand -/

/-- The statement performs the chain on a line of its own. A declaration assigns its first value to
the name. -/
inductive Stmt.Performs : Stmt → Expr → Prop
  | statement (a : Expr) : Performs (.expr a) a
  | declaration (kind : DeclKind) (name : String) (value : Expr) :
      Performs (.declare ⟨kind, name, some value⟩) (.assign (.ident name) value)
  | loopStart (kind : DeclKind) (name : String) (value condition update : Expr)
      (body : List Stmt) :
      Performs (.forLoop ⟨kind, name, some value⟩ condition update body)
        (.assign (.ident name) value)
  | loopStep (init : Declaration) (condition a : Expr) (body : List Stmt) :
      Performs (.forLoop init condition a body) a

theorem Declaration.text_eq_lineText (kind : DeclKind) (name : String) (value : Expr) :
    Declaration.text ⟨kind, name, some value⟩ = (Expr.assign (.ident name) value).lineText := by
  rw [Declaration.text, Expr.lineText, Expr.text]
  rfl

/-- Wherever a statement performs a chain, the text of the chain is one of its lines. -/
theorem Stmt.Performs.mem_lines {s : Stmt} {a : Expr} {text opening : String} {inFor : Bool}
    {level : Nat} {lines : List Line} (h : s.Performs a) (htext : a.lineText = .ok text)
    (hlines : s.lines opening inFor level = .ok lines) : ∃ depth, ⟨depth, text⟩ ∈ lines := by
  cases h with
  | statement a =>
    obtain ⟨t, ht, rfl⟩ := lines_expr_eq_ok.mp hlines
    cases htext.symm.trans ht
    exact ⟨level, .head _⟩
  | declaration kind name value =>
    obtain ⟨t, ht, rfl⟩ := lines_declare_eq_ok.mp hlines
    rw [Declaration.text_eq_lineText] at ht
    cases htext.symm.trans ht
    exact ⟨level, .head _⟩
  | loopStart kind name value condition update body =>
    obtain ⟨first, test, inner, last, hfirst, -, -, -, rfl⟩ := lines_forLoop_eq_ok.mp hlines
    rw [Declaration.text_eq_lineText] at hfirst
    cases htext.symm.trans hfirst
    exact ⟨level, .head _⟩
  | loopStep init condition a body =>
    obtain ⟨first, test, inner, last, -, -, -, hlast, rfl⟩ := lines_forLoop_eq_ok.mp hlines
    cases htext.symm.trans hlast
    exact ⟨level + 1, by simp⟩

/-- **What the line of a chain stores.** A chain is written as one line wherever it stands, its
targets and its value with signs `=` between them, and Python, if it can read the line, stores in
turn. This leaves the memory that the chain leaves exactly if both rules store at the same places,
those apart that hold the value already; and it always does if no target looks up what a target on
its left may store to. -/
theorem line_stores_as_chain_iff (meaning : Meaning) {a : Expr} (hchain : a.isChain) :
    ∃ texts, exprTexts (a.targets ++ [a.assigned]) = .ok texts ∧
      a.lineText = .ok (String.intercalate " = " texts) ∧
      (∀ s : Stmt, s.Performs a → ∀ opening inFor level lines,
        s.lines opening inFor level = .ok lines →
          ∃ depth, ⟨depth, String.intercalate " = " texts⟩ ∈ lines) ∧
      ((∀ kind ∈ a.leaves, isWritable kind) → ∀ memory,
        Python.runLine meaning (String.intercalate " = " texts) memory =
          a.runInTurn meaning memory) ∧
      (∀ memory, a.runInTurn meaning memory = a.run meaning memory ↔
        ∀ x ∈ a.assigned.value? meaning memory,
          memory.Alike x (placesBefore meaning memory a.targets)
            (placesInTurn meaning x a.targets memory)) ∧
      (a.Independent → ∀ memory, a.runInTurn meaning memory = a.run meaning memory) := by
  obtain ⟨first, rest, htexts, htext⟩ := exists_lineText a hchain
  refine ⟨first :: rest, htexts, htext,
    fun s hs opening inFor level lines hlines => hs.mem_lines htext hlines,
    fun hleaves memory => ?_, fun memory => Expr.runInTurn_eq_run_iff,
    fun hindependent memory => hindependent.runInTurn_eq_run⟩
  obtain ⟨text, targets, value, hline, himage⟩ := exists_lineOf a hchain hleaves
  cases htext.symm.trans hline
  exact himage.runLine_eq

/-- Three targets, two of which are elements of one array under different names. -/
theorem line_stores_as_chain_iff_of_aliases :
    let a := Expr.assign (.index (.ident "a") (.ident "i"))
      (.assign (.index (.ident "b") (.binary .add (.ident "j") (.number 1)))
        (.assign (.ident "k") (.index (.ident "a") (.number 0))))
    let memory := (⟨fun _ => 3, fun _ => some (.number 0)⟩ : Memory)
      |>.store (.variable "a") (.array 5) |>.store (.variable "b") (.array 5)
      |>.store (.variable "i") (.number 2) |>.store (.element 5 0) (.number 7)
    a.isChain ∧ (∀ kind ∈ a.leaves, isWritable kind) ∧ a.Independent ∧
      a.lineText = .ok "a[i] = b[j + 1] = k = a[0]" ∧
      Python.runLine .plain "a[i] = b[j + 1] = k = a[0]" memory = a.run .plain memory ∧
      (a.run .plain memory).map (fun after =>
        [after.held (.element 5 1), after.held (.element 5 2), after.held (.variable "k")]) =
        some [some (.number 7), some (.number 7), some (.number 7)] := by
  intro a memory
  have hchain : a.isChain := by decide
  have hleaves : ∀ kind ∈ a.leaves, isWritable kind := by decide
  have hindependent : a.Independent := by decide
  have hline : a.lineText = .ok "a[i] = b[j + 1] = k = a[0]" := rfl
  obtain ⟨texts, -, htext, -, hread, -, hsame⟩ := line_stores_as_chain_iff .plain hchain
  have hrun := (hread hleaves memory).trans (hsame hindependent memory)
  rw [← Except.ok.inj (hline.symm.trans htext)] at hrun
  exact ⟨hchain, hleaves, hindependent, hline, hrun, by decide +kernel⟩

/-- A chain stores to a variable and to the element at which it points. The script language stores
to the element that the variable meant before, the line to the one that it means afterwards. -/
theorem line_stores_elsewhere :
    let source := "var a = [0, 0]; var i = 0; i = a[i] = 1;"
    let a := Expr.assign (.ident "i") (.assign (.index (.ident "a") (.ident "i")) (.number 1))
    let memory := (⟨fun _ => 2, fun _ => some (.number 0)⟩ : Memory)
      |>.store (.variable "a") (.array 5)
    let elements := fun after : Memory => [after.held (.element 5 0), after.held (.element 5 1)]
    a.isChain ∧ (∀ kind ∈ a.leaves, isWritable kind) ∧ a.lineText = .ok "i = a[i] = 1" ∧
      (convert ⟨.strict, 4⟩ source).diagnostics = [] ∧
      (convert ⟨.strict, 4⟩ source).output = some "a = [0, 0]\ni = 0\ni = a[i] = 1" ∧
      (a.run .plain memory).map elements = some [some (.number 1), some (.number 0)] ∧
      (a.runInTurn .plain memory).map elements = some [some (.number 0), some (.number 1)] ∧
      (Python.runLine .plain "i = a[i] = 1" memory).map elements =
        some [some (.number 0), some (.number 1)] :=
  ⟨by decide, by decide, rfl, by decide +kernel, by decide +kernel, by decide +kernel,
    by decide +kernel, by decide +kernel⟩

end Offside
