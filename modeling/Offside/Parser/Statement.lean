import Offside.Parser.Expression

/-!
# Reading statements and programs

Statements are told apart by their first token. A block opens a level, and so does an `if` that
follows an `else`; as with expressions, `room` is the number of levels that may still be opened.

`program` reads statements until the tokens end, and `parse` is its result for a whole list of
tokens.
-/

namespace Offside

namespace Parser

/-- The declaration of one variable, without its semicolon. -/
def declaration (expression : Parser Expr) : Parser Declaration := do
  match ← peekKind? with
  | some (.keyword (.decl kind)) =>
    advance
    let name ← identifier
    if ← accept .assign then
      return ⟨kind, name, some (← expression)⟩
    else
      return ⟨kind, name, none⟩
  | _ => unexpected "variable declaration"

/-- An expression in parentheses. -/
def condition (expression : Parser Expr) : Parser Expr := do
  expect .leftParen
  let condition ← expression
  expect .rightParen
  return condition

/-- An `if`, read from its keyword on. -/
def branch (expression : Parser Expr) (block : Parser (List Stmt)) (elseIf : Parser Stmt) :
    Parser Stmt := do
  advance
  let test ← condition expression
  let yes ← block
  if ← nextIs (.keyword .elseBranch) then
    advance
    if ← nextIs (.keyword .ifBranch) then
      return .ifElse test yes [← elseIf]
    else
      return .ifElse test yes (← block)
  else
    return .ifThen test yes

/-- A `while`, read from its keyword on. -/
def whileLoop (expression : Parser Expr) (block : Parser (List Stmt)) : Parser Stmt := do
  advance
  let test ← condition expression
  return .whileLoop test (← block)

/-- A `for`, read from its keyword on. -/
def forLoop (expression : Parser Expr) (block : Parser (List Stmt)) : Parser Stmt := do
  advance
  expect .leftParen
  let init ← declaration expression
  expect .semicolon
  let test ← expression
  expect .semicolon
  let update ← expression
  expect .rightParen
  return .forLoop init test update (← block)

/-- A function, read from its keyword on. -/
def function (block : Parser (List Stmt)) : Parser Stmt := do
  advance
  let name ← identifier
  expect .leftParen
  let params ← if ← nextIs (.mark .rightParen) then pure [] else separated identifier
  expect .rightParen
  return .function name params (← block)

/-- A `return`, read from its keyword on. It has no value if the statement, the block or the
script ends with the keyword. -/
def giveBack (expression : Parser Expr) : Parser Stmt := do
  advance
  match ← peekKind? with
  | none => return .giveBack none
  | some (.mark .semicolon) =>
    skip .semicolon
    return .giveBack none
  | some (.mark .rightBrace) => return .giveBack none
  | some _ =>
    let value ← expression
    skip .semicolon
    return .giveBack (some value)

/-- A statement, given the parsers for what it holds. -/
def statementWith (expression : Parser Expr) (block : Parser (List Stmt))
    (elseIf : Parser Stmt) : Parser Stmt := do
  match ← peekKind? with
  | some (.keyword (.decl _)) =>
    let declared ← declaration expression
    skip .semicolon
    return .declare declared
  | some (.keyword .whileLoop) => whileLoop expression block
  | some (.keyword .forLoop) => forLoop expression block
  | some (.keyword .ifBranch) => branch expression block elseIf
  | some (.keyword .function) => function block
  | some (.keyword .returnJump) => giveBack expression
  | some (.keyword .breakJump) =>
    advance
    skip .semicolon
    return .breakLoop
  | some (.keyword .continueJump) =>
    advance
    skip .semicolon
    return .continueLoop
  | _ =>
    let value ← expression
    skip .semicolon
    return .expr value

mutual

/-- Statements in braces. The level opens after the first brace. -/
def block : Nat → Parser (List Stmt)
  | 0 => do
    expect .leftBrace
    tooDeep
  | room + 1 => do
    expect .leftBrace
    let body ← many do
      if ← atClose .rightBrace then
        return none
      else
        return some (← statementWith (expression room) (block room) (elseIf room))
    expect .rightBrace
    return body

/-- An `if` after an `else`, which opens a level. -/
def elseIf : Nat → Parser Stmt
  | 0 => tooDeep
  | room + 1 => fun tokens => branch (expression room) (block room) (elseIf room) tokens

end

/-- A statement with `room` levels left to open. -/
def statement (room : Nat) : Parser Stmt :=
  statementWith (expression room) (block room) (elseIf room)

/-- Statements up to the end of the tokens. -/
def program : Parser Program := do
  let body ← many do
    if ← atEnd then return none else return some (← statement nestingLimit)
  return ⟨body⟩

end Parser

/-- The program that a list of tokens spells, or what is wrong with it. -/
def parse (tokens : List Token) : Except GrammarFault Program :=
  match Parser.program tokens with
  | .ok program _ => .ok program
  | .error fault _ => .error fault

end Offside
