import Offside.Parser.Basic
import Offside.Tree

/-!
# Reading expressions

An expression is read by descent through the tiers of operators. Depth is counted by the *room*
that is left: `expression room` and `operand room` fail when there is none, and read what is
inside them with one level less. A chain of operators or of suffixes makes a tree as deep as the
chain is long, so it too may only be as long as the room that is left.

Loosest first, an expression is

* an assignment, `target = value`, whose value is again an expression (`assignment`);
* a chain of operands for each tier of binary operators, folded from the left (`tiers`);
* an operand, which may have signs before it (`signed`);
* a primary expression with `.name` and `[index]` suffixes (`suffixed`);
* a literal, a name, a call, an array or an expression in parentheses (`primary`).
-/

namespace Offside

namespace Parser

/-- The operator of the given tier that a token stands for. -/
def operatorOf? (tier : Tier) : Token.Kind → Option BinaryOp
  | .mark mark => (BinaryOp.ofMark? mark).filter fun op => op.tier = tier
  | _ => none

/-- Goes on after the first operand of a chain: `room` operators at most. -/
def chain (tier : Tier) (operand : Parser Expr) : Nat → Expr → Parser Expr
  | 0, left => do
    match (← peekKind?).bind (operatorOf? tier) with
    | some _ => tooDeep
    | none => return left
  | room + 1, left => do
    match (← peekKind?).bind (operatorOf? tier) with
    | some op =>
      advance
      let right ← operand
      chain tier operand room (.binary op left right)
    | none => return left

/-- Operands joined by the operators of the given tiers, the loosest tier first. -/
def tiers (room : Nat) (operand : Parser Expr) : List Tier → Parser Expr
  | [] => operand
  | tier :: tighter => do
    let left ← tiers room operand tighter
    chain tier (tiers room operand tighter) room left

/-- An operand with any number of signs before it. -/
def signed (operand plain : Parser Expr) : Parser Expr := do
  match (← peekMark?).bind UnaryOp.ofMark? with
  | some op =>
    advance
    return .unary op (← operand)
  | none => plain

/-- The arguments of a call, in parentheses. -/
def arguments (expression : Parser Expr) : Parser (List Expr) := do
  expect .leftParen
  let arguments ← items .rightParen expression
  expect .rightParen
  return arguments

/-- What a name alone stands for. -/
def nameExpr (name : String) : Expr :=
  if name = "true" then .boolean true
  else if name = "false" then .boolean false
  else .ident name

/-- A literal, a name, a call, an array or an expression in parentheses. -/
def primary (expression : Parser Expr) : Parser Expr := do
  match ← peekKind? with
  | some (.number value) =>
    advance
    return .number value
  | some (.string raw) =>
    advance
    return .string raw
  | some (.identifier name) =>
    advance
    if ← nextIs (.mark .leftParen) then
      return .call name (← arguments expression)
    else
      return nameExpr name
  | some .consoleLog =>
    advance
    return .call "console.log" (← arguments expression)
  | some (.mark .leftBracket) =>
    advance
    let elements ← items .rightBracket expression
    expect .rightBracket
    return .array elements
  | some (.mark .leftParen) =>
    advance
    let inner ← expression
    expect .rightParen
    return inner
  | _ => unexpected "expression"

/-- Goes on after an expression with its suffixes: `room` of them at most. A property is never
called. -/
def suffixes (expression : Parser Expr) : Nat → Expr → Parser Expr
  | 0, object => do
    match ← peekMark? with
    | some .dot => tooDeep
    | some .leftBracket => tooDeep
    | _ => return object
  | room + 1, object => do
    match ← peekMark? with
    | some .dot =>
      advance
      let name ← identifier
      if ← nextIs (.mark .leftParen) then
        unexpected "end of property access"
      else
        suffixes expression room (.property object name)
    | some .leftBracket =>
      advance
      let index ← expression
      expect .rightBracket
      suffixes expression room (.index object index)
    | _ => return object

/-- A primary expression and its suffixes. -/
def suffixed (room : Nat) (expression : Parser Expr) : Parser Expr := do
  let object ← primary expression
  suffixes expression room object

/-- An assignment, or an expression that is none. What is assigned to is looked at when the whole
assignment has been read. -/
def assignment (target value : Parser Expr) : Parser Expr := do
  let left ← target
  match ← peek? with
  | some ⟨.mark .assign, span⟩ =>
    advance
    let right ← value
    if left.isTarget then
      return .assign left right
    else
      throw (.invalidTarget span)
  | _ => return left

mutual

/-- An expression, which opens a level. -/
def expression : Nat → Parser Expr
  | 0 => tooDeep
  | room + 1 => fun tokens =>
    assignment
      (tiers room (signed (operand room) (suffixed room (expression room))) Tier.all)
      (expression room) tokens

/-- The operand of a sign, which opens a level. -/
def operand : Nat → Parser Expr
  | 0 => tooDeep
  | room + 1 => fun tokens =>
    signed (operand room) (suffixed room (expression room)) tokens

end

end Parser

end Offside
