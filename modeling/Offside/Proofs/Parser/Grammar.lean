import Offside.Proofs.Parser.Print

/-!
# The grammar of scripts

The grammar says which sequences of tokens are scripts, and with which tree. It is a relation and
knows nothing of how a script is read. The rules for expressions, the loosest first, are

    assignment   := disjunction ("=" assignment)?
    disjunction  := conjunction ("||" conjunction)*
    conjunction  := comparison ("&&" comparison)*
    comparison   := sum (("==" | "!=" | "<" | "<=" | ">" | ">=") sum)*
    sum          := product (("+" | "-") product)*
    product      := unary (("*" | "/" | "%") unary)*
    unary        := ("-" | "!") unary | suffixed
    suffixed     := primary ("." IDENT | "[" assignment "]")*
    primary      := NUMBER | STRING | "true" | "false" | IDENT | "[" items "]" | "(" assignment ")"
                  | (IDENT | "console.log") "(" items ")"
    items        := (assignment ("," assignment)* ","?)?

where chains group to the left; for statements they are

    declaration  := ("var" | "let" | "const") IDENT ("=" assignment)?
    simple       := declaration | "return" assignment? | "break" | "continue" | assignment
    statement    := simple ";"?
                  | "while" "(" assignment ")" block
                  | "for" "(" declaration ";" assignment ";" assignment ")" block
                  | branch
                  | "function" IDENT "(" (IDENT ("," IDENT)*)? ")" block
    branch       := "if" "(" assignment ")" block ("else" (branch | block))?
    block        := "{" statement* "}"

Two notes look beyond the phrase itself: a property is not followed by `(`, and `return` has no
value exactly where `;`, `}` or the end of the script follows. So each phrase is taken together
with the token that stands behind it.

The trees of the grammar are those that can be written and read back (`isPrintable_of_derives` and
its like), and every phrase but an empty list has a token (`ne_nil_of_derives`). An expression or a
declaration does not end with a semicolon (`endsOpen_of_derives`).
-/

namespace Offside

namespace Grammar

/-! ### Expressions -/

/-- The classes of expressions that the rules speak of. -/
inductive Nonterminal where
  | assignment
  | tier (tier : Tier)
  | unary
  | suffixed
  | primary

/-- What the operators of a tier join: chains of the next tighter one, or operands with signs. -/
def Nonterminal.joinedBy : Tier → Nonterminal
  | .disjunction => .tier .conjunction
  | .conjunction => .tier .comparison
  | .comparison => .tier .sum
  | .sum => .tier .product
  | .product => .unary

mutual

/-- The tokens, with `next` behind them, are a phrase of the given class with the given tree. -/
inductive Derives : Nonterminal → List Token.Kind → Option Token.Kind → Expr → Prop where
  | value {kinds next e} (h : Derives (.tier .disjunction) kinds next e) :
    Derives .assignment kinds next e
  | assign {left right next target value}
    (htarget : Derives (.tier .disjunction) left (some (.mark .assign)) target)
    (hvalue : Derives .assignment right next value) (hassignable : target.isTarget) :
    Derives .assignment (left ++ .mark .assign :: right) next (.assign target value)
  | single {tier kinds next e} (h : Derives (.joinedBy tier) kinds next e) :
    Derives (.tier tier) kinds next e
  | binary {op left right next l r}
    (hleft : Derives (.tier op.tier) left (some (.mark op.mark)) l)
    (hright : Derives (.joinedBy op.tier) right next r) :
    Derives (.tier op.tier) (left ++ .mark op.mark :: right) next (.binary op l r)
  | unsigned {kinds next e} (h : Derives .suffixed kinds next e) : Derives .unary kinds next e
  | unary {op kinds next e} (h : Derives .unary kinds next e) :
    Derives .unary (.mark op.mark :: kinds) next (.unary op e)
  | plain {kinds next e} (h : Derives .primary kinds next e) : Derives .suffixed kinds next e
  | property {kinds next object} (name : String)
    (hobject : Derives .suffixed kinds (some (.mark .dot)) object)
    (hnext : next ≠ some (.mark .leftParen)) :
    Derives .suffixed (kinds ++ [.mark .dot, .identifier name]) next (.property object name)
  | index {kinds inner next object index}
    (hobject : Derives .suffixed kinds (some (.mark .leftBracket)) object)
    (hindex : Derives .assignment inner (some (.mark .rightBracket)) index) :
    Derives .suffixed (kinds ++ .mark .leftBracket :: (inner ++ [.mark .rightBracket])) next
      (.index object index)
  | number {next} (value : Int) : Derives .primary [.number value] next (.number value)
  | string {next} (raw : String) : Derives .primary [.string raw] next (.string raw)
  | isTrue {next} : Derives .primary [.identifier "true"] next (.boolean true)
  | isFalse {next} : Derives .primary [.identifier "false"] next (.boolean false)
  | ident {next name} (htrue : name ≠ "true") (hfalse : name ≠ "false") :
    Derives .primary [.identifier name] next (.ident name)
  | array {kinds next elements} (h : DerivesItems .rightBracket kinds elements) :
    Derives .primary (.mark .leftBracket :: (kinds ++ [.mark .rightBracket])) next
      (.array elements)
  | group {kinds next e} (h : Derives .assignment kinds (some (.mark .rightParen)) e) :
    Derives .primary (inParens kinds) next e
  | call {kinds next arguments} (name : String) (h : DerivesItems .rightParen kinds arguments) :
    Derives .primary (.identifier name :: inParens kinds) next (.call name arguments)
  | log {kinds next arguments} (h : DerivesItems .rightParen kinds arguments) :
    Derives .primary (.consoleLog :: inParens kinds) next (.call "console.log" arguments)

/-- The tokens are expressions separated by commas, with the closing mark behind them. Since the
list after a comma may be empty, a comma may follow the last expression. -/
inductive DerivesItems : Mark → List Token.Kind → List Expr → Prop where
  | nil {close} : DerivesItems close [] []
  | last {close kinds e} (h : Derives .assignment kinds (some (.mark close)) e) :
    DerivesItems close kinds [e]
  | cons {close kinds others e es} (h : Derives .assignment kinds (some (.mark .comma)) e)
    (hothers : DerivesItems close others es) :
    DerivesItems close (kinds ++ .mark .comma :: others) (e :: es)

end

/-! ### Statements -/

/-- The tokens declare a variable. -/
inductive DerivesDeclaration : List Token.Kind → Option Token.Kind → Declaration → Prop where
  | bare {next} (kind : DeclKind) (name : String) :
    DerivesDeclaration [.keyword (.decl kind), .identifier name] next ⟨kind, name, none⟩
  | withValue {kinds next e} (kind : DeclKind) (name : String)
    (h : Derives .assignment kinds next e) :
    DerivesDeclaration (.keyword (.decl kind) :: .identifier name :: .mark .assign :: kinds) next
      ⟨kind, name, some e⟩

/-- Does a `return` before this token have no value? -/
def endsReturn (next : Option Token.Kind) : Bool :=
  next = none || next = some (.mark .semicolon) || next = some (.mark .rightBrace)

/-- The tokens are a statement without a block, up to its semicolon. -/
inductive DerivesSimple : List Token.Kind → Option Token.Kind → Stmt → Prop where
  | declare {kinds next d} (h : DerivesDeclaration kinds next d) :
    DerivesSimple kinds next (.declare d)
  | giveBackNothing {next} (hnext : endsReturn next) :
    DerivesSimple [.keyword .returnJump] next (.giveBack none)
  | giveBack {kinds next e} (h : Derives .assignment kinds next e)
    (hnext : ¬ endsReturn (kinds.head?.or next)) :
    DerivesSimple (.keyword .returnJump :: kinds) next (.giveBack (some e))
  | breakLoop {next} : DerivesSimple [.keyword .breakJump] next .breakLoop
  | continueLoop {next} : DerivesSimple [.keyword .continueJump] next .continueLoop
  | expr {kinds next e} (h : Derives .assignment kinds next e) :
    DerivesSimple kinds next (.expr e)

/-- A mark that may be left out. -/
def optional (mark : Mark) : List (List Token.Kind) := [[], [.mark mark]]

mutual

/-- The tokens, with `next` behind them, are a statement. -/
inductive DerivesStmt : List Token.Kind → Option Token.Kind → Stmt → Prop where
  | simple {kinds ending next s} (h : DerivesSimple kinds (ending.head?.or next) s)
    (hending : ending ∈ optional .semicolon) : DerivesStmt (kinds ++ ending) next s
  | whileLoop {test kinds next condition body}
    (htest : Derives .assignment test (some (.mark .rightParen)) condition)
    (hbody : DerivesStmts kinds (some (.mark .rightBrace)) body) :
    DerivesStmt (.keyword .whileLoop :: (inParens test ++ inBraces kinds)) next
      (.whileLoop condition body)
  | forLoop {first test last kinds next init condition update body}
    (hinit : DerivesDeclaration first (some (.mark .semicolon)) init)
    (htest : Derives .assignment test (some (.mark .semicolon)) condition)
    (hupdate : Derives .assignment last (some (.mark .rightParen)) update)
    (hbody : DerivesStmts kinds (some (.mark .rightBrace)) body) :
    DerivesStmt
      (.keyword .forLoop ::
        (inParens (first ++ .mark .semicolon :: (test ++ .mark .semicolon :: last)) ++
          inBraces kinds))
      next (.forLoop init condition update body)
  | function {kinds next body} (name : String) (params : List String)
    (hbody : DerivesStmts kinds (some (.mark .rightBrace)) body) :
    DerivesStmt
      (.keyword .function :: .identifier name ::
        (inParens (commaKinds (params.map fun param => [.identifier param])) ++ inBraces kinds))
      next (.function name params body)
  | ifThen {test kinds next condition yes}
    (htest : Derives .assignment test (some (.mark .rightParen)) condition)
    (hyes : DerivesStmts kinds (some (.mark .rightBrace)) yes) :
    DerivesStmt (.keyword .ifBranch :: (inParens test ++ inBraces kinds)) next
      (.ifThen condition yes)
  | ifElse {test kinds others next condition yes no}
    (htest : Derives .assignment test (some (.mark .rightParen)) condition)
    (hyes : DerivesStmts kinds (some (.mark .rightBrace)) yes)
    (hno : DerivesStmts others (some (.mark .rightBrace)) no) :
    DerivesStmt
      (.keyword .ifBranch ::
        (inParens test ++ (inBraces kinds ++ .keyword .elseBranch :: inBraces others)))
      next (.ifElse condition yes no)
  | elseIf {test kinds others next condition yes s}
    (htest : Derives .assignment test (some (.mark .rightParen)) condition)
    (hyes : DerivesStmts kinds (some (.mark .rightBrace)) yes)
    (hno : DerivesStmt others next s) (hbranch : s.isBranch) :
    DerivesStmt
      (.keyword .ifBranch :: (inParens test ++ (inBraces kinds ++ .keyword .elseBranch :: others)))
      next (.ifElse condition yes [s])

/-- The tokens are statements one after the other. -/
inductive DerivesStmts : List Token.Kind → Option Token.Kind → List Stmt → Prop where
  | nil {next} : DerivesStmts [] next []
  | cons {kinds others next s rest} (hfirst : DerivesStmt kinds (others.head?.or next) s)
    (hrest : DerivesStmts others next rest) : DerivesStmts (kinds ++ others) next (s :: rest)

end

/-- The tokens are a script: statements up to the end. -/
def DerivesProgram (kinds : List Token.Kind) (program : Program) : Prop :=
  DerivesStmts kinds none program.body

/-- A simple statement without a semicolon. -/
theorem derivesStmt_of_derivesSimple {kinds : List Token.Kind} {next : Option Token.Kind}
    {s : Stmt} (h : DerivesSimple kinds next s) : DerivesStmt kinds next s := by
  have hstmt : DerivesStmt (kinds ++ []) next s := .simple h (.head _)
  rwa [List.append_nil] at hstmt

/-! ### Phrases have tokens -/

theorem ne_nil_of_derives {n : Nonterminal} {kinds : List Token.Kind} {next : Option Token.Kind}
    {e : Expr} : Derives n kinds next e → kinds ≠ []
  | .value h => ne_nil_of_derives h
  | .assign .. => by simp
  | .single h => ne_nil_of_derives h
  | .binary .. => by simp
  | .unsigned h => ne_nil_of_derives h
  | .unary _ => by simp
  | .plain h => ne_nil_of_derives h
  | .property .. => by simp
  | .index .. => by simp
  | .number _ => by simp
  | .string _ => by simp
  | .isTrue => by simp
  | .isFalse => by simp
  | .ident .. => by simp
  | .array _ => by simp
  | .group _ => by simp [inParens]
  | .call .. => by simp
  | .log _ => by simp

theorem ne_nil_of_derivesSimple {kinds : List Token.Kind} {next : Option Token.Kind} {s : Stmt}
    (h : DerivesSimple kinds next s) : kinds ≠ [] := by
  cases h with
  | declare h => cases h <;> simp
  | expr h => exact ne_nil_of_derives h
  | _ => simp

theorem ne_nil_of_derivesStmt {kinds : List Token.Kind} {next : Option Token.Kind} {s : Stmt}
    (h : DerivesStmt kinds next s) : kinds ≠ [] := by
  cases h with
  | simple h hending =>
    rw [Ne, List.append_eq_nil_iff, not_and]
    exact fun hnil => absurd hnil (ne_nil_of_derivesSimple h)
  | _ => simp

/-! ### Phrases without a semicolon at their end -/

/-- The tokens have a last one, which is no semicolon. -/
def EndsOpen (kinds : List Token.Kind) : Prop :=
  ∃ before last, kinds = before ++ [last] ∧ last ≠ .mark .semicolon

namespace EndsOpen

variable {kinds : List Token.Kind}

theorem append (h : EndsOpen kinds) (before : List Token.Kind) : EndsOpen (before ++ kinds) := by
  obtain ⟨inner, last, rfl, hlast⟩ := h
  exact ⟨before ++ inner, last, (List.append_assoc ..).symm, hlast⟩

theorem cons (h : EndsOpen kinds) (kind : Token.Kind) : EndsOpen (kind :: kinds) :=
  h.append [kind]

theorem concat (before : List Token.Kind) {last : Token.Kind} (h : last ≠ .mark .semicolon) :
    EndsOpen (before ++ [last]) :=
  ⟨before, last, rfl, h⟩

theorem inParens (kinds : List Token.Kind) : EndsOpen (inParens kinds) :=
  (concat kinds (by simp)).cons _

theorem inBraces (kinds : List Token.Kind) : EndsOpen (inBraces kinds) :=
  (concat kinds (by simp)).cons _

theorem getLast?_ne (h : EndsOpen kinds) : kinds.getLast? ≠ some (.mark .semicolon) := by
  obtain ⟨before, last, rfl, hlast⟩ := h
  rw [List.getLast?_concat]
  exact fun heq => hlast (Option.some.inj heq)

end EndsOpen

/-- An expression does not end with a semicolon. -/
theorem endsOpen_of_derives {n : Nonterminal} {kinds : List Token.Kind} {next : Option Token.Kind}
    {e : Expr} : Derives n kinds next e → EndsOpen kinds
  | .value h => endsOpen_of_derives h
  | .assign _ hvalue _ => ((endsOpen_of_derives hvalue).cons _).append _
  | .single h => endsOpen_of_derives h
  | .binary _ hright => ((endsOpen_of_derives hright).cons _).append _
  | .unsigned h => endsOpen_of_derives h
  | .unary h => (endsOpen_of_derives h).cons _
  | .plain h => endsOpen_of_derives h
  | .property .. => (EndsOpen.concat [_] (by simp)).append _
  | .index .. => ((EndsOpen.concat _ (by simp)).cons _).append _
  | .number _ => .concat [] (by simp)
  | .string _ => .concat [] (by simp)
  | .isTrue => .concat [] (by simp)
  | .isFalse => .concat [] (by simp)
  | .ident .. => .concat [] (by simp)
  | .array _ => (EndsOpen.concat _ (by simp)).cons _
  | .group _ => .inParens _
  | .call .. => (EndsOpen.inParens _).cons _
  | .log _ => (EndsOpen.inParens _).cons _

theorem endsOpen_of_derivesDeclaration {kinds : List Token.Kind} {next : Option Token.Kind}
    {d : Declaration} (h : DerivesDeclaration kinds next d) : EndsOpen kinds := by
  cases h with
  | bare kind name => exact .concat [_] (by simp)
  | withValue kind name h => exact (((endsOpen_of_derives h).cons _).cons _).cons _

/-! ### Trees of the grammar -/

mutual

/-- In a tree of the grammar no name is `true` or `false`, and only names and elements are assigned
to. -/
theorem isPrintable_of_derives {n : Nonterminal} {kinds : List Token.Kind}
    {next : Option Token.Kind} {e : Expr} : Derives n kinds next e → e.isPrintable
  | .value h => isPrintable_of_derives h
  | .assign htarget hvalue hassignable => by
    rw [Expr.isPrintable, hassignable, isPrintable_of_derives htarget,
      isPrintable_of_derives hvalue]
    rfl
  | .single h => isPrintable_of_derives h
  | .binary hleft hright => by
    rw [Expr.isPrintable, isPrintable_of_derives hleft, isPrintable_of_derives hright]
    rfl
  | .unsigned h => isPrintable_of_derives h
  | .unary h => by
    rw [Expr.isPrintable]
    exact isPrintable_of_derives h
  | .plain h => isPrintable_of_derives h
  | .property name hobject _ => by
    rw [Expr.isPrintable]
    exact isPrintable_of_derives hobject
  | .index hobject hindex => by
    rw [Expr.isPrintable, isPrintable_of_derives hobject, isPrintable_of_derives hindex]
    rfl
  | .number _ => rfl
  | .string _ => rfl
  | .isTrue => rfl
  | .isFalse => rfl
  | .ident htrue hfalse => by
    rw [Expr.isPrintable, bne_iff_ne.mpr htrue, bne_iff_ne.mpr hfalse]
    rfl
  | .array h => by
    rw [Expr.isPrintable]
    exact exprsPrintable_of_derivesItems h
  | .group h => isPrintable_of_derives h
  | .call name h => by
    rw [Expr.isPrintable]
    exact exprsPrintable_of_derivesItems h
  | .log h => by
    rw [Expr.isPrintable]
    exact exprsPrintable_of_derivesItems h

theorem exprsPrintable_of_derivesItems {close : Mark} {kinds : List Token.Kind} {es : List Expr} :
    DerivesItems close kinds es → exprsPrintable es
  | .nil => rfl
  | .last h => by
    rw [exprsPrintable, isPrintable_of_derives h]
    rfl
  | .cons h hothers => by
    rw [exprsPrintable, isPrintable_of_derives h, exprsPrintable_of_derivesItems hothers]
    rfl

end

theorem isPrintable_of_derivesDeclaration {kinds : List Token.Kind} {next : Option Token.Kind}
    {d : Declaration} (h : DerivesDeclaration kinds next d) : d.isPrintable := by
  cases h with
  | bare kind name => rfl
  | withValue kind name h => exact isPrintable_of_derives h

theorem isPrintable_of_derivesSimple {kinds : List Token.Kind} {next : Option Token.Kind}
    {s : Stmt} (h : DerivesSimple kinds next s) : s.isPrintable := by
  cases h with
  | declare h => exact isPrintable_of_derivesDeclaration h
  | giveBack h hnext => exact isPrintable_of_derives h
  | expr h =>
    rw [Stmt.isPrintable]
    exact isPrintable_of_derives h
  | _ => rfl

mutual

theorem isPrintable_of_derivesStmt {kinds : List Token.Kind} {next : Option Token.Kind}
    {s : Stmt} : DerivesStmt kinds next s → s.isPrintable
  | .simple h _ => isPrintable_of_derivesSimple h
  | .whileLoop htest hbody => by
    rw [Stmt.isPrintable, isPrintable_of_derives htest, stmtsPrintable_of_derivesStmts hbody]
    rfl
  | .forLoop hinit htest hupdate hbody => by
    rw [Stmt.isPrintable, isPrintable_of_derivesDeclaration hinit, isPrintable_of_derives htest,
      isPrintable_of_derives hupdate, stmtsPrintable_of_derivesStmts hbody]
    rfl
  | .function name params hbody => by
    rw [Stmt.isPrintable]
    exact stmtsPrintable_of_derivesStmts hbody
  | .ifThen htest hyes => by
    rw [Stmt.isPrintable, isPrintable_of_derives htest, stmtsPrintable_of_derivesStmts hyes]
    rfl
  | .ifElse htest hyes hno => by
    rw [Stmt.isPrintable, isPrintable_of_derives htest, stmtsPrintable_of_derivesStmts hyes,
      stmtsPrintable_of_derivesStmts hno]
    rfl
  | .elseIf htest hyes hno _ => by
    rw [Stmt.isPrintable, isPrintable_of_derives htest, stmtsPrintable_of_derivesStmts hyes,
      stmtsPrintable, isPrintable_of_derivesStmt hno]
    rfl

theorem stmtsPrintable_of_derivesStmts {kinds : List Token.Kind} {next : Option Token.Kind}
    {body : List Stmt} : DerivesStmts kinds next body → stmtsPrintable body
  | .nil => rfl
  | .cons hfirst hrest => by
    rw [stmtsPrintable, isPrintable_of_derivesStmt hfirst, stmtsPrintable_of_derivesStmts hrest]
    rfl

end

end Grammar

end Offside
