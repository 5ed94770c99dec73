import Offside.Parser.Statement

/-!
# Reading at a cursor

A `Cursor` goes over a list of tokens that does not change. It keeps the position that it has
reached and the number of levels that are open around it, and it can be used again: after a failure
reading goes on at the token at which it has stopped.

* A `Walk` reads at a cursor. `Walk.nested` opens a level for a while, and `Walk.checkChain` asks
  whether a chain of operators still fits into the levels that are left.
* `Walk.program` reads a program in the same grammar as `Parser.program`, from the position of the
  cursor to the end of its tokens.
* `Cursor.parse` is one use of a cursor, and `Cursor.afterCalls` the cursor that several uses leave
  behind.

Expressions and blocks hold further ones, one level further down. The number `levels` that they
take bounds how far down that may go; it is never the first to run out, since the depth of the
cursor has reached its limit then.
-/

namespace Offside

/-- A place in a list of tokens. -/
structure Cursor where
  tokens : Array Token
  /-- The number of tokens that have been read. -/
  position : Nat := 0
  /-- The number of levels that are open. -/
  depth : Nat := 0

/-- The token at the cursor. -/
def Cursor.current? (cursor : Cursor) : Option Token :=
  cursor.tokens[cursor.position]?

/-- The number of tokens that have not been read yet. -/
def Cursor.remaining (cursor : Cursor) : Nat :=
  cursor.tokens.size - cursor.position

/-- Reading at a cursor. What fails leaves the cursor where it has failed. -/
abbrev Walk := EStateM GrammarFault Cursor

namespace Walk

variable {α β : Type}

/-! ### Single tokens -/

/-- The next token. -/
def peek? : Walk (Option Token) := fun cursor =>
  .ok cursor.current? cursor

/-- The kind of the next token. -/
def peekKind? : Walk (Option Token.Kind) := fun cursor =>
  .ok (cursor.current?.map Token.kind) cursor

/-- The next token, if it is a mark. -/
def peekMark? : Walk (Option Mark) := fun cursor =>
  match cursor.current? with
  | some ⟨.mark mark, _⟩ => .ok (some mark) cursor
  | _ => .ok none cursor

/-- The kind of the token after the next one. -/
def peekSecondKind? : Walk (Option Token.Kind) := fun cursor =>
  .ok (cursor.tokens[cursor.position + 1]?.map Token.kind) cursor

/-- Have all tokens been read? -/
def atEnd : Walk Bool := fun cursor =>
  .ok (cursor.tokens.size ≤ cursor.position) cursor

/-- Does a token of this kind stand next? -/
def nextIs (kind : Token.Kind) : Walk Bool := do
  return (← peekKind?) = some kind

/-- Goes over the next token. -/
def advance : Walk Unit := fun cursor =>
  if cursor.position < cursor.tokens.size then
    .ok () { cursor with position := cursor.position + 1 }
  else
    .ok () cursor

/-- Fails because something else than the next token is needed here. -/
def unexpected (expected : String) : Walk α := do
  match ← peek? with
  | some token => throw (.unexpectedToken expected token.kind.describe token.span)
  | none => throw (.unexpectedEnd expected)

/-- Fails because the next token would open one level too many. -/
def tooDeep : Walk α := do
  throw (.nestingTooDeep nestingLimit (((← peek?).map Token.span).getD .nowhere))

/-- Reads the mark if it stands next, and tells whether it did. -/
def accept (mark : Mark) : Walk Bool := do
  if ← nextIs (.mark mark) then
    advance
    return true
  else
    return false

/-- Reads the mark if it stands next. -/
def skip (mark : Mark) : Walk Unit := do
  let _ ← accept mark

/-- Reads the mark, which has to stand next. -/
def expect (mark : Mark) : Walk Unit := do
  if ← nextIs (.mark mark) then
    advance
  else
    unexpected (Token.Kind.mark mark).describe

/-- Reads a name. -/
def identifier : Walk String := do
  match ← peekKind? with
  | some (.identifier name) =>
    advance
    return name
  | _ => unexpected "identifier"

/-! ### Levels -/

/-- Reads one level further down. The level is left again however that ends. -/
def nested (inner : Walk α) : Walk α := fun cursor =>
  if nestingLimit ≤ cursor.depth then
    tooDeep cursor
  else
    match inner { cursor with depth := cursor.depth + 1 } with
    | .ok value after => .ok value { after with depth := after.depth - 1 }
    | .error fault after => .error fault { after with depth := after.depth - 1 }

/-- A chain of so many operators makes a tree that is as deep, so it has to fit, too. -/
def checkChain (length : Nat) : Walk Unit := fun cursor =>
  if nestingLimit < cursor.depth + length then tooDeep cursor else .ok () cursor

/-! ### Repetition -/

/-- Repeats `step` as long as it gives a value. A step that gives a value without reading a token
is the last one. -/
def many (step : Walk (Option α)) : Walk (List α) := fun cursor =>
  match step cursor with
  | .error fault after => .error fault after
  | .ok none after => .ok [] after
  | .ok (some first) after =>
    if after.remaining < cursor.remaining then
      match many step after with
      | .ok others after => .ok (first :: others) after
      | .error fault after => .error fault after
    else
      .ok [first] after
termination_by cursor => cursor.remaining
decreasing_by assumption

/-- Lets `step` replace a value as long as it gives a new one. It is told the number of the turn. A
step that gives a value without reading a token is the last one. -/
def grow (step : Nat → α → Walk (Option α)) (turn : Nat) (value : α) : Walk α := fun cursor =>
  match step turn value cursor with
  | .error fault after => .error fault after
  | .ok none after => .ok value after
  | .ok (some next) after =>
    if h : after.remaining < cursor.remaining then grow step (turn + 1) next after
    else .ok next after
termination_by cursor => cursor.remaining
decreasing_by exact h

/-- Does the list of items end here, at its closing mark or at the end of the tokens? -/
def atClose (close : Mark) : Walk Bool := do
  return (← nextIs (.mark close)) || (← atEnd)

/-- Items separated by commas, up to but not including the closing mark. A comma may follow the
last one. -/
def items (close : Mark) (item : Walk α) : Walk (List α) := do
  if ← atClose close then
    return []
  let first ← item
  let others ← many do
    if ← accept .comma then
      if ← atClose close then return none else return some (← item)
    else
      return none
  return first :: others

/-- Items separated by commas, at least one and none after the last comma. -/
def separated (item : Walk α) : Walk (List α) := do
  let first ← item
  let others ← many do
    if ← accept .comma then return some (← item) else return none
  return first :: others

/-! ### Expressions -/

/-- The next operator of a chain with its right operand, as the operator of this number. -/
def chainTurn (tier : Tier) (operand : Walk Expr) (length : Nat) (left : Expr) :
    Walk (Option Expr) := do
  match (← peekKind?).bind (Parser.operatorOf? tier) with
  | some op =>
    checkChain length
    advance
    return some (.binary op left (← operand))
  | none => return none

/-- Goes on after the first operand of a chain. -/
def chain (tier : Tier) (operand : Walk Expr) (left : Expr) : Walk Expr :=
  grow (chainTurn tier operand) 1 left

/-- Operands joined by the operators of the given tiers, the loosest tier first. -/
def tiers (operand : Walk Expr) : List Tier → Walk Expr
  | [] => operand
  | tier :: tighter => do
    let left ← tiers operand tighter
    chain tier (tiers operand tighter) left

/-- An operand with any number of signs before it. -/
def signed (operand plain : Walk Expr) : Walk Expr := do
  match (← peekMark?).bind UnaryOp.ofMark? with
  | some op =>
    advance
    return .unary op (← operand)
  | none => plain

/-- The arguments of a call, in parentheses. -/
def arguments (expression : Walk Expr) : Walk (List Expr) := do
  expect .leftParen
  let arguments ← items .rightParen expression
  expect .rightParen
  return arguments

/-- A call, read from the name of what is called on. -/
def call (expression : Walk Expr) (callee : String) : Walk Expr := do
  advance
  return .call callee (← arguments expression)

/-- A name, which is called if a parenthesis opens behind it. -/
def nameOrCall (expression : Walk Expr) (name : String) : Walk Expr := do
  if (← peekSecondKind?) = some (.mark .leftParen) then
    call expression name
  else
    advance
    return Parser.nameExpr name

/-- A literal, a name, a call, an array or an expression in parentheses. -/
def primary (expression : Walk Expr) : Walk Expr := do
  match ← peekKind? with
  | some (.number value) =>
    advance
    return .number value
  | some (.string raw) =>
    advance
    return .string raw
  | some (.identifier name) => nameOrCall expression name
  | some .consoleLog => call expression "console.log"
  | some (.mark .leftBracket) =>
    advance
    let elements ← items .rightBracket expression
    expect .rightBracket
    return .array elements
  | some (.mark .leftParen) =>
    advance
    let inner ← expression
    expect .rightParen
    return inner
  | _ => unexpected "expression"

/-- The next suffix of an expression, as the suffix of this number. A property is never called. -/
def suffixTurn (expression : Walk Expr) (length : Nat) (object : Expr) : Walk (Option Expr) := do
  match ← peekMark? with
  | some .dot =>
    checkChain length
    advance
    let name ← identifier
    if ← nextIs (.mark .leftParen) then
      unexpected "end of property access"
    else
      return some (.property object name)
  | some .leftBracket =>
    checkChain length
    advance
    let index ← expression
    expect .rightBracket
    return some (.index object index)
  | _ => return none

/-- Goes on after an expression with its suffixes. -/
def suffixes (expression : Walk Expr) (object : Expr) : Walk Expr :=
  grow (suffixTurn expression) 1 object

/-- A primary expression and its suffixes. -/
def suffixed (expression : Walk Expr) : Walk Expr := do
  let object ← primary expression
  suffixes expression object

/-- An assignment, or an expression that is none. What is assigned to is looked at when the whole
assignment has been read. -/
def assignment (target value : Walk Expr) : Walk Expr := do
  let left ← target
  match ← peek? with
  | some ⟨.mark .assign, span⟩ =>
    advance
    let right ← value
    if left.isTarget then
      return .assign left right
    else
      throw (.invalidTarget span)
  | _ => return left

mutual

/-- An expression, which opens a level. -/
def expression : Nat → Walk Expr
  | 0 => tooDeep
  | levels + 1 => fun cursor =>
    nested (assignment (tiers (signed (operand levels) (suffixed (expression levels))) Tier.all)
      (expression levels)) cursor

/-- The operand of a sign, which opens a level. -/
def operand : Nat → Walk Expr
  | 0 => tooDeep
  | levels + 1 => fun cursor =>
    nested (signed (operand levels) (suffixed (expression levels))) cursor

end

/-! ### Statements -/

/-- The declaration of one variable, without its semicolon. -/
def declaration (expression : Walk Expr) : Walk Declaration := do
  match ← peekKind? with
  | some (.keyword (.decl kind)) =>
    advance
    let name ← identifier
    if ← accept .assign then
      return ⟨kind, name, some (← expression)⟩
    else
      return ⟨kind, name, none⟩
  | _ => unexpected "variable declaration"

/-- An expression in parentheses. -/
def condition (expression : Walk Expr) : Walk Expr := do
  expect .leftParen
  let condition ← expression
  expect .rightParen
  return condition

/-- An `if`, read from its keyword on. -/
def branch (expression : Walk Expr) (block : Walk (List Stmt)) (elseIf : Walk Stmt) :
    Walk Stmt := do
  advance
  let test ← condition expression
  let yes ← block
  if ← nextIs (.keyword .elseBranch) then
    advance
    if ← nextIs (.keyword .ifBranch) then
      return .ifElse test yes [← elseIf]
    else
      return .ifElse test yes (← block)
  else
    return .ifThen test yes

/-- A `while`, read from its keyword on. -/
def whileLoop (expression : Walk Expr) (block : Walk (List Stmt)) : Walk Stmt := do
  advance
  let test ← condition expression
  return .whileLoop test (← block)

/-- A `for`, read from its keyword on. -/
def forLoop (expression : Walk Expr) (block : Walk (List Stmt)) : Walk Stmt := do
  advance
  expect .leftParen
  let init ← declaration expression
  expect .semicolon
  let test ← expression
  expect .semicolon
  let update ← expression
  expect .rightParen
  return .forLoop init test update (← block)

/-- A function, read from its keyword on. -/
def function (block : Walk (List Stmt)) : Walk Stmt := do
  advance
  let name ← identifier
  expect .leftParen
  let params ← if ← nextIs (.mark .rightParen) then pure [] else separated identifier
  expect .rightParen
  return .function name params (← block)

/-- A `return`, read from its keyword on. It has no value if the statement, the block or the
script ends with the keyword. -/
def giveBack (expression : Walk Expr) : Walk Stmt := do
  advance
  match ← peekKind? with
  | none => return .giveBack none
  | some (.mark .semicolon) =>
    skip .semicolon
    return .giveBack none
  | some (.mark .rightBrace) => return .giveBack none
  | some _ =>
    let value ← expression
    skip .semicolon
    return .giveBack (some value)

/-- A statement, given the walks for what it holds. -/
def statementWith (expression : Walk Expr) (block : Walk (List Stmt)) (elseIf : Walk Stmt) :
    Walk Stmt := do
  match ← peekKind? with
  | some (.keyword (.decl _)) =>
    let declared ← declaration expression
    skip .semicolon
    return .declare declared
  | some (.keyword .whileLoop) => whileLoop expression block
  | some (.keyword .forLoop) => forLoop expression block
  | some (.keyword .ifBranch) => branch expression block elseIf
  | some (.keyword .function) => function block
  | some (.keyword .returnJump) => giveBack expression
  | some (.keyword .breakJump) =>
    advance
    skip .semicolon
    return .breakLoop
  | some (.keyword .continueJump) =>
    advance
    skip .semicolon
    return .continueLoop
  | _ =>
    let value ← expression
    skip .semicolon
    return .expr value

mutual

/-- Statements in braces. The level opens after the first brace and is left before the last. -/
def block : Nat → Walk (List Stmt)
  | 0 => do
    expect .leftBrace
    tooDeep
  | levels + 1 => do
    expect .leftBrace
    let body ← nested do
      many do
        if ← atClose .rightBrace then
          return none
        else
          return some (← statementWith (expression levels) (block levels) (elseIf levels))
    expect .rightBrace
    return body

/-- An `if` after an `else`, which opens a level. -/
def elseIf : Nat → Walk Stmt
  | 0 => tooDeep
  | levels + 1 => fun cursor =>
    nested (branch (expression levels) (block levels) (elseIf levels)) cursor

end

/-- A statement. -/
def statement : Walk Stmt :=
  statementWith (expression nestingLimit) (block nestingLimit) (elseIf nestingLimit)

/-- Statements up to the end of the tokens. -/
def program : Walk Program := do
  let body ← many do
    if ← atEnd then return none else return some (← statement)
  return ⟨body⟩

end Walk

namespace Cursor

/-- A cursor before the first token. -/
def start (tokens : List Token) : Cursor := { tokens := tokens.toArray }

/-- Reads a program from where the cursor stands: the program, or what is wrong, and the cursor
afterwards. -/
def parse (cursor : Cursor) : Except GrammarFault Program × Cursor :=
  match Walk.program cursor with
  | .ok program after => (.ok program, after)
  | .error fault after => (.error fault, after)

/-- The cursor after it has been used for so many programs. -/
def afterCalls (cursor : Cursor) : Nat → Cursor
  | 0 => cursor
  | calls + 1 => (cursor.afterCalls calls).parse.2

end Cursor

end Offside
