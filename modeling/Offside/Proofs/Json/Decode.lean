import Offside.Json.Dump
import Offside.Proofs.Json.Reader
import Offside.Report

/-!
# Decoding dumps

What `toJson` writes down can be taken back. The decoders know the shape of a dump only: a choice
with nothing to it is a string, any other choice an object with one key, an absent part is `null`,
and the fields of a record stand in their fixed order. Every other value is refused.

* `Expr.ofJson?`, `Stmt.ofJson?` and `Program.ofJson?` decode trees, `Token.ofJson?` tokens and
  `Report.ofJson?` reports.
* A `Dump` is one of the three; `Dump.decode?` reads the text of one.

An absent part could only be taken for something else if that were written `null`, too; hence the
lemmas `Expr.ofJson?_null` and `Json.option?_ofOption`.
-/

namespace Offside

/-! ### Labels, lists and absent parts -/

/-- The alternative with a label. -/
def ofLabel? {α : Type} (all : List α) (label : α → String) (text : String) : Option α :=
  all.find? fun a => label a == text

namespace Json

/-- A part that may be absent. -/
def option? {α : Type} (decode : Json → Option α) : Json → Option (Option α)
  | null => some none
  | json => (decode json).map some

/-- A natural number. -/
def nat? : Json → Option Nat
  | int (.ofNat n) => some n
  | _ => none

/-- A string. -/
def str? : Json → Option String
  | str text => some text
  | _ => none

theorem nat?_nat (n : Nat) : nat? (nat n) = some n :=
  rfl

theorem str?_str (text : String) : str? (str text) = some text :=
  rfl

/-- An absent part stays absent if nothing else is written `null`. -/
theorem option?_ofOption {α : Type} {encode : α → Json} {decode : Json → Option α}
    (h : ∀ a, decode (encode a) = some a) (hnull : decode null = none) (part : Option α) :
    option? decode (ofOption encode part) = some part := by
  cases part with
  | none => rfl
  | some a =>
    have hne : encode a ≠ null := by
      intro heq
      have := h a
      rw [heq, hnull] at this
      cases this
    rw [ofOption, option?, h a]
    · rfl
    · exact hne

theorem mapM_map {α : Type} {encode : α → Json} {decode : Json → Option α}
    (h : ∀ a, decode (encode a) = some a) (list : List α) :
    (list.map encode).mapM decode = some list := by
  induction list with
  | nil => rfl
  | cons first more ih => simp [h first, ih]

end Json

/-! ### Tokens -/

/-- The span that a value stands for. -/
def Span.ofJson? : Json → Option Span
  | .obj [("start", start), ("end", stop), ("line", line)] => do
    return ⟨← start.nat?, ← stop.nat?, ← line.nat?⟩
  | _ => none

/-- The kind of token that a value stands for. -/
def Token.Kind.ofJson? : Json → Option Token.Kind
  | .str label =>
    if label = "ConsoleLog" then some consoleLog
    else (ofLabel? Keyword.all Keyword.label label).map keyword
      <|> (ofLabel? Mark.all Mark.label label).map mark
  | .obj [("Identifier", .str name)] => some (identifier name)
  | .obj [("Number", .int value)] => some (number value)
  | .obj [("String", .str raw)] => some (string raw)
  | _ => none

/-- The token that a value stands for. -/
def Token.ofJson? : Json → Option Token
  | .obj [("kind", kind), ("span", span)] => do
    return ⟨← Token.Kind.ofJson? kind, ← Span.ofJson? span⟩
  | _ => none

theorem Span.ofJson?_toJson (span : Span) : Span.ofJson? span.toJson = some span :=
  rfl

theorem Token.Kind.ofJson?_toJson (kind : Token.Kind) :
    Token.Kind.ofJson? kind.toJson = some kind := by
  cases kind with
  | keyword k =>
    cases k with
    | decl kind => cases kind <;> rfl
    | _ => rfl
  | mark m => cases m <;> rfl
  | _ => rfl

theorem Token.ofJson?_toJson (token : Token) : Token.ofJson? token.toJson = some token := by
  rw [Token.toJson, Token.ofJson?, Token.Kind.ofJson?_toJson, Span.ofJson?_toJson]
  rfl

/-! ### Expressions -/

/-- Every binary operator, once. -/
def BinaryOp.all : List BinaryOp :=
  [or, and, eq, ne, lt, gt, le, ge, add, sub, mul, div, mod]

/-- The binary operator with a label in a family. -/
def BinaryOp.ofLabels? (family label : String) : Option BinaryOp :=
  all.find? fun op => op.family == family && op.label == label

mutual

/-- The expression that a value stands for. -/
def Expr.ofJson? : Json → Option Expr
  | .obj [("Assignment", .obj [("target", target), ("value", value)])] => do
    return .assign (← Expr.ofJson? target) (← Expr.ofJson? value)
  | .obj [("Unary", .obj [("op", .str op), ("operand", operand)])] => do
    return .unary (← ofLabel? [.neg, .not] UnaryOp.label op) (← Expr.ofJson? operand)
  | .obj [("Call", .obj [("callee", .str callee), ("args", .arr arguments)])] => do
    return .call callee (← exprsOfJson? arguments)
  | .obj [("Identifier", .str name)] => some (.ident name)
  | .obj [("Number", .int value)] => some (.number value)
  | .obj [("String", .str raw)] => some (.string raw)
  | .obj [("Boolean", .bool value)] => some (.boolean value)
  | .obj [("Array", .arr elements)] => do
    return .array (← exprsOfJson? elements)
  | .obj [("Index", .obj [("object", object), ("index", index)])] => do
    return .index (← Expr.ofJson? object) (← Expr.ofJson? index)
  | .obj [("Property", .obj [("object", object), ("property", .str name)])] => do
    return .property (← Expr.ofJson? object) name
  | .obj [(family, .obj [("op", .str op), ("left", left), ("right", right)])] => do
    return .binary (← BinaryOp.ofLabels? family op) (← Expr.ofJson? left) (← Expr.ofJson? right)
  | _ => none

/-- The expressions that several values stand for. -/
def exprsOfJson? : List Json → Option (List Expr)
  | [] => some []
  | json :: rest => do
    return (← Expr.ofJson? json) :: (← exprsOfJson? rest)

end

theorem Expr.ofJson?_null : Expr.ofJson? .null = none :=
  rfl

theorem Expr.ofJson?_unary (op : UnaryOp) (operand : Json) :
    Expr.ofJson? (.tagged "Unary" (.obj [("op", .str op.label), ("operand", operand)]))
      = do return .unary op (← Expr.ofJson? operand) := by
  cases op <;> rfl

theorem Expr.ofJson?_binary (op : BinaryOp) (left right : Json) :
    Expr.ofJson?
        (.tagged op.family (.obj [("op", .str op.label), ("left", left), ("right", right)]))
      = do return .binary op (← Expr.ofJson? left) (← Expr.ofJson? right) := by
  cases op <;> rfl

mutual

theorem Expr.ofJson?_toJson (e : Expr) : Expr.ofJson? e.toJson = some e := by
  -- Each case first picks the pattern by evaluation; the labels in it are closed terms.
  cases e with
  | assign target value =>
    change (do return Expr.assign (← Expr.ofJson? target.toJson) (← Expr.ofJson? value.toJson)) = _
    rw [Expr.ofJson?_toJson target, Expr.ofJson?_toJson value]
    rfl
  | binary op left right =>
    rw [Expr.toJson, Expr.ofJson?_binary, Expr.ofJson?_toJson left, Expr.ofJson?_toJson right]
    rfl
  | unary op operand =>
    rw [Expr.toJson, Expr.ofJson?_unary, Expr.ofJson?_toJson operand]
    rfl
  | call callee arguments =>
    change (do return Expr.call callee (← exprsOfJson? (dumpExprs arguments))) = _
    rw [exprsOfJson?_dumpExprs arguments]
    rfl
  | ident name => rfl
  | number value => rfl
  | string raw => rfl
  | boolean value => rfl
  | array elements =>
    change (do return Expr.array (← exprsOfJson? (dumpExprs elements))) = _
    rw [exprsOfJson?_dumpExprs elements]
    rfl
  | index object index =>
    change (do return Expr.index (← Expr.ofJson? object.toJson) (← Expr.ofJson? index.toJson)) = _
    rw [Expr.ofJson?_toJson object, Expr.ofJson?_toJson index]
    rfl
  | property object name =>
    change (do return Expr.property (← Expr.ofJson? object.toJson) name) = _
    rw [Expr.ofJson?_toJson object]
    rfl

theorem exprsOfJson?_dumpExprs (list : List Expr) : exprsOfJson? (dumpExprs list) = some list := by
  cases list with
  | nil => rfl
  | cons first more =>
    change (do return (← Expr.ofJson? first.toJson) :: (← exprsOfJson? (dumpExprs more))) = _
    rw [Expr.ofJson?_toJson first, exprsOfJson?_dumpExprs more]
    rfl

end

/-! ### Statements -/

/-- The declaration that a value stands for. -/
def Declaration.ofJson? : Json → Option Declaration
  | .obj [("kind", .str kind), ("name", .str name), ("init", init)] => do
    return ⟨← ofLabel? [.varDecl, .letDecl, .constDecl] DeclKind.label kind, name,
      ← init.option? Expr.ofJson?⟩
  | _ => none

mutual

/-- The statement that a value stands for. -/
def Stmt.ofJson? : Json → Option Stmt
  | .obj [("VarDeclaration", declaration)] => do
    return .declare (← Declaration.ofJson? declaration)
  | .obj [("FunctionDeclaration", .obj [("name", .str name), ("params", .arr params),
      ("body", .obj [("stmts", .arr body)])])] => do
    return .function name (← params.mapM Json.str?) (← stmtsOfJson? body)
  | .obj [("If", .obj [("condition", condition), ("then_block", .obj [("stmts", .arr yes)]),
      ("else_block", .null)])] => do
    return .ifThen (← Expr.ofJson? condition) (← stmtsOfJson? yes)
  | .obj [("If", .obj [("condition", condition), ("then_block", .obj [("stmts", .arr yes)]),
      ("else_block", .obj [("stmts", .arr no)])])] => do
    return .ifElse (← Expr.ofJson? condition) (← stmtsOfJson? yes) (← stmtsOfJson? no)
  | .obj [("While", .obj [("condition", condition), ("body", .obj [("stmts", .arr body)])])] => do
    return .whileLoop (← Expr.ofJson? condition) (← stmtsOfJson? body)
  | .obj [("For", .obj [("init", init), ("condition", condition), ("update", update),
      ("body", .obj [("stmts", .arr body)])])] => do
    return .forLoop (← Declaration.ofJson? init) (← Expr.ofJson? condition) (← Expr.ofJson? update)
      (← stmtsOfJson? body)
  | .obj [("Return", .obj [("value", value)])] => do
    return .giveBack (← value.option? Expr.ofJson?)
  | .str "Break" => some .breakLoop
  | .str "Continue" => some .continueLoop
  | .obj [("Expression", value)] => do
    return .expr (← Expr.ofJson? value)
  | _ => none

/-- The statements that several values stand for. -/
def stmtsOfJson? : List Json → Option (List Stmt)
  | [] => some []
  | json :: rest => do
    return (← Stmt.ofJson? json) :: (← stmtsOfJson? rest)

end

/-- The program that a value stands for. -/
def Program.ofJson? : Json → Option Program
  | .obj [("body", .arr body)] => do
    return ⟨← stmtsOfJson? body⟩
  | _ => none

theorem Expr.option?_ofOption (part : Option Expr) :
    (Json.ofOption Expr.toJson part).option? Expr.ofJson? = some part :=
  Json.option?_ofOption Expr.ofJson?_toJson Expr.ofJson?_null part

theorem Declaration.ofJson?_toJson (d : Declaration) :
    Declaration.ofJson? d.toJson = some d := by
  have hkind : ofLabel? [.varDecl, .letDecl, .constDecl] DeclKind.label d.kind.label
      = some d.kind := by
    cases d.kind <;> rfl
  rw [Declaration.toJson, Declaration.ofJson?, hkind, Expr.option?_ofOption]
  rfl

mutual

theorem Stmt.ofJson?_toJson (s : Stmt) : Stmt.ofJson? s.toJson = some s := by
  cases s with
  | declare d =>
    change (do return Stmt.declare (← Declaration.ofJson? d.toJson)) = _
    rw [Declaration.ofJson?_toJson]
    rfl
  | function name params body =>
    change (do
      return Stmt.function name (← (params.map Json.str).mapM Json.str?)
        (← stmtsOfJson? (dumpStmts body))) = _
    rw [Json.mapM_map Json.str?_str, stmtsOfJson?_dumpStmts body]
    rfl
  | ifThen condition yes =>
    change (do
      return Stmt.ifThen (← Expr.ofJson? condition.toJson)
        (← stmtsOfJson? (dumpStmts yes))) = _
    rw [Expr.ofJson?_toJson, stmtsOfJson?_dumpStmts yes]
    rfl
  | ifElse condition yes no =>
    change (do
      return Stmt.ifElse (← Expr.ofJson? condition.toJson)
        (← stmtsOfJson? (dumpStmts yes)) (← stmtsOfJson? (dumpStmts no))) = _
    rw [Expr.ofJson?_toJson, stmtsOfJson?_dumpStmts yes, stmtsOfJson?_dumpStmts no]
    rfl
  | whileLoop condition body =>
    change (do
      return Stmt.whileLoop (← Expr.ofJson? condition.toJson)
        (← stmtsOfJson? (dumpStmts body))) = _
    rw [Expr.ofJson?_toJson, stmtsOfJson?_dumpStmts body]
    rfl
  | forLoop init condition update body =>
    change (do
      return Stmt.forLoop (← Declaration.ofJson? init.toJson)
        (← Expr.ofJson? condition.toJson) (← Expr.ofJson? update.toJson)
        (← stmtsOfJson? (dumpStmts body))) = _
    rw [Declaration.ofJson?_toJson, Expr.ofJson?_toJson, Expr.ofJson?_toJson,
      stmtsOfJson?_dumpStmts body]
    rfl
  | giveBack value =>
    change (do return Stmt.giveBack (← (Json.ofOption Expr.toJson value).option? Expr.ofJson?)) = _
    rw [Expr.option?_ofOption]
    rfl
  | breakLoop => rfl
  | continueLoop => rfl
  | expr value =>
    change (do return Stmt.expr (← Expr.ofJson? value.toJson)) = _
    rw [Expr.ofJson?_toJson]
    rfl

theorem stmtsOfJson?_dumpStmts (list : List Stmt) : stmtsOfJson? (dumpStmts list) = some list := by
  cases list with
  | nil => rfl
  | cons first more =>
    change (do return (← Stmt.ofJson? first.toJson) :: (← stmtsOfJson? (dumpStmts more))) = _
    rw [Stmt.ofJson?_toJson first, stmtsOfJson?_dumpStmts more]
    rfl

end

theorem Program.ofJson?_toJson (program : Program) :
    Program.ofJson? program.toJson = some program := by
  rw [Program.toJson, Program.ofJson?, stmtsOfJson?_dumpStmts]
  rfl

/-! ### Reports -/

/-- The entry that a value stands for. -/
def Finding.ofJson? : Json → Option Finding
  | .obj [("code", .str code), ("severity", .str severity), ("stage", .str stage),
      ("message", .str message), ("line", line), ("suggestion", hint)] => do
    return ⟨code, ← ofLabel? [.warning, .error, .fatal] Severity.label severity,
      ← ofLabel? [.lexical, .grammar, .semantic, .generation, .files] Stage.label stage, message,
      ← line.option? Json.nat?, ← hint.option? Json.str?⟩
  | _ => none

/-- The counts that a value stands for. -/
def Counts.ofJson? : Json → Option Counts
  | .obj [("token_count", tokens), ("statement_count", statements), ("line_count", lines)] => do
    return ⟨← tokens.nat?, ← statements.nat?, ← lines.nat?⟩
  | _ => none

/-- The report that a value stands for. -/
def Report.ofJson? : Json → Option Report
  | .obj [("success", .bool success), ("source_file", .str sourceFile), ("output", output),
      ("diagnostics", .arr findings), ("stats", counts)] => do
    return ⟨success, sourceFile, ← output.option? Json.str?, ← findings.mapM Finding.ofJson?,
      ← Counts.ofJson? counts⟩
  | _ => none

theorem Finding.ofJson?_toJson (f : Finding) : Finding.ofJson? f.toJson = some f := by
  have hseverity : ofLabel? [.warning, .error, .fatal] Severity.label f.severity.label
      = some f.severity := by
    cases f.severity <;> rfl
  have hstage : ofLabel? [.lexical, .grammar, .semantic, .generation, .files] Stage.label
      f.stage.label = some f.stage := by
    cases f.stage <;> rfl
  have hline := Json.option?_ofOption Json.nat?_nat rfl f.line?
  have hhint := Json.option?_ofOption Json.str?_str rfl f.hint?
  rw [Finding.toJson, Finding.ofJson?, hseverity, hstage, hline, hhint]
  rfl

theorem Report.ofJson?_toJson (report : Report) : Report.ofJson? report.toJson = some report := by
  have houtput := Json.option?_ofOption Json.str?_str rfl report.output
  have hcounts : Counts.ofJson? report.counts.toJson = some report.counts := rfl
  rw [Report.toJson, Report.ofJson?, houtput, Json.mapM_map Finding.ofJson?_toJson, hcounts]
  rfl

/-! ### Dumps -/

/-- What is printed for other programs to read. -/
inductive Dump where
  | tree (program : Program)
  | tokens (tokens : List Token)
  | report (report : Report)

namespace Dump

/-- The text that is printed. -/
def text : Dump → String
  | tree program => program.toJson.pretty
  | tokens list => (dumpTokens list).pretty
  | report r => r.text

/-- The dump that a value stands for. -/
def ofJson? : Json → Option Dump
  | .arr elements => (elements.mapM Token.ofJson?).map tokens
  | json => (Program.ofJson? json).map tree <|> (Report.ofJson? json).map report

/-- The dump that a text stands for. -/
def decode? (text : String) : Option Dump := do
  let json ← Json.read? text
  ofJson? json

/-- Every dump is read back from its text. -/
theorem decode?_text (dump : Dump) : decode? dump.text = some dump := by
  cases dump with
  | tree program =>
    rw [decode?, text, Json.read?_pretty]
    change ((Program.ofJson? program.toJson).map tree <|> _) = _
    rw [Program.ofJson?_toJson]
    rfl
  | tokens list =>
    rw [decode?, text, Json.read?_pretty]
    change ((list.map Token.toJson).mapM Token.ofJson?).map tokens = _
    rw [Json.mapM_map Token.ofJson?_toJson]
    rfl
  | report r =>
    -- The keys of a report are not those of a program.
    rw [decode?, text, Report.text, Json.read?_pretty]
    change (Report.ofJson? r.toJson).map report = _
    rw [Report.ofJson?_toJson]
    rfl

end Dump

/-- The text of a dump says all about it: it is read back as it was, and different trees, lists of
tokens or reports have different texts. -/
theorem dumps_lose_nothing :
    (∀ dump : Dump, Dump.decode? dump.text = some dump) ∧ Function.Injective Dump.text := by
  refine ⟨Dump.decode?_text, fun first second heq => ?_⟩
  have hsome : some first = some second := by
    rw [← Dump.decode?_text first, heq, Dump.decode?_text second]
  exact Option.some.inj hsome

end Offside
