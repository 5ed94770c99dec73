import Offside.Json.Basic
import Offside.Tree

/-!
# Tokens and programs as JSON

Every choice is written as an object whose only key names the alternative, or as that name alone
when nothing goes with it. Fields follow each other in a fixed order and absent parts are `null`.
-/

namespace Offside

/-! ### Tokens -/

/-- A span as JSON. -/
def Span.toJson (span : Span) : Json :=
  .obj [("start", .nat span.start), ("end", .nat span.stop), ("line", .nat span.line)]

/-- The name of a way to declare. -/
def DeclKind.label : DeclKind → String
  | .varDecl => "Var"
  | .letDecl => "Let"
  | .constDecl => "Const"

/-- The name of a keyword. -/
def Keyword.label : Keyword → String
  | .decl kind => kind.label
  | .forLoop => "For"
  | .whileLoop => "While"
  | .ifBranch => "If"
  | .elseBranch => "Else"
  | .function => "Function"
  | .returnJump => "Return"
  | .breakJump => "Break"
  | .continueJump => "Continue"

/-- The name of a mark. -/
def Mark.label : Mark → String
  | .equal => "EqEq"
  | .notEqual => "NotEq"
  | .lessEqual => "LtEq"
  | .greaterEqual => "GtEq"
  | .andAnd => "AndAnd"
  | .orOr => "OrOr"
  | .plus => "Plus"
  | .minus => "Minus"
  | .star => "Star"
  | .slash => "Slash"
  | .percent => "Percent"
  | .assign => "Assign"
  | .less => "Lt"
  | .greater => "Gt"
  | .bang => "Not"
  | .leftParen => "LParen"
  | .rightParen => "RParen"
  | .leftBrace => "LBrace"
  | .rightBrace => "RBrace"
  | .leftBracket => "LBracket"
  | .rightBracket => "RBracket"
  | .comma => "Comma"
  | .semicolon => "Semicolon"
  | .dot => "Dot"

/-- The kind of a token as JSON. -/
def Token.Kind.toJson : Token.Kind → Json
  | keyword k => .str k.label
  | consoleLog => .str "ConsoleLog"
  | identifier name => .tagged "Identifier" (.str name)
  | number value => .tagged "Number" (.int value)
  | string raw => .tagged "String" (.str raw)
  | mark m => .str m.label

/-- A token as JSON. -/
def Token.toJson (token : Token) : Json :=
  .obj [("kind", token.kind.toJson), ("span", token.span.toJson)]

/-- A list of tokens. -/
def dumpTokens (tokens : List Token) : Json :=
  .arr (tokens.map Token.toJson)

/-! ### Expressions -/

/-- The name of a binary operator. -/
def BinaryOp.label : BinaryOp → String
  | .or => "Or"
  | .and => "And"
  | .eq => "Eq"
  | .ne => "Ne"
  | .lt => "Lt"
  | .gt => "Gt"
  | .le => "Le"
  | .ge => "Ge"
  | .add => "Add"
  | .sub => "Sub"
  | .mul => "Mul"
  | .div => "Div"
  | .mod => "Mod"

/-- The name of the family to which a binary operator belongs. -/
def BinaryOp.family : BinaryOp → String
  | .or => "Logical"
  | .and => "Logical"
  | _ => "Binary"

/-- The name of a unary operator. -/
def UnaryOp.label : UnaryOp → String
  | .neg => "Neg"
  | .not => "Not"

mutual

/-- An expression as JSON. -/
def Expr.toJson : Expr → Json
  | .assign target value =>
    .tagged "Assignment" (.obj [("target", target.toJson), ("value", value.toJson)])
  | .binary op left right =>
    .tagged op.family
      (.obj [("op", .str op.label), ("left", left.toJson), ("right", right.toJson)])
  | .unary op operand =>
    .tagged "Unary" (.obj [("op", .str op.label), ("operand", operand.toJson)])
  | .call callee arguments =>
    .tagged "Call" (.obj [("callee", .str callee), ("args", .arr (dumpExprs arguments))])
  | .ident name => .tagged "Identifier" (.str name)
  | .number value => .tagged "Number" (.int value)
  | .string raw => .tagged "String" (.str raw)
  | .boolean value => .tagged "Boolean" (.bool value)
  | .array elements => .tagged "Array" (.arr (dumpExprs elements))
  | .index object index =>
    .tagged "Index" (.obj [("object", object.toJson), ("index", index.toJson)])
  | .property object name =>
    .tagged "Property" (.obj [("object", object.toJson), ("property", .str name)])

/-- The values of several expressions. -/
def dumpExprs : List Expr → List Json
  | [] => []
  | e :: rest => e.toJson :: dumpExprs rest

end

/-! ### Statements -/

/-- A declaration as JSON. -/
def Declaration.toJson (d : Declaration) : Json :=
  .obj [("kind", .str d.kind.label), ("name", .str d.name),
    ("init", .ofOption Expr.toJson d.init)]

/-- A block of statements, given their values. -/
def blockJson (statements : List Json) : Json :=
  .obj [("stmts", .arr statements)]

mutual

/-- A statement as JSON. -/
def Stmt.toJson : Stmt → Json
  | .declare d => .tagged "VarDeclaration" d.toJson
  | .function name params body =>
    .tagged "FunctionDeclaration" (.obj [("name", .str name),
      ("params", .arr (params.map .str)), ("body", blockJson (dumpStmts body))])
  | .ifThen condition yes =>
    .tagged "If" (.obj [("condition", condition.toJson),
      ("then_block", blockJson (dumpStmts yes)), ("else_block", .null)])
  | .ifElse condition yes no =>
    .tagged "If" (.obj [("condition", condition.toJson),
      ("then_block", blockJson (dumpStmts yes)), ("else_block", blockJson (dumpStmts no))])
  | .whileLoop condition body =>
    .tagged "While" (.obj [("condition", condition.toJson), ("body", blockJson (dumpStmts body))])
  | .forLoop init condition update body =>
    .tagged "For" (.obj [("init", init.toJson), ("condition", condition.toJson),
      ("update", update.toJson), ("body", blockJson (dumpStmts body))])
  | .giveBack value => .tagged "Return" (.obj [("value", .ofOption Expr.toJson value)])
  | .breakLoop => .str "Break"
  | .continueLoop => .str "Continue"
  | .expr value => .tagged "Expression" value.toJson

/-- The values of several statements. -/
def dumpStmts : List Stmt → List Json
  | [] => []
  | s :: rest => s.toJson :: dumpStmts rest

end

/-- A program as JSON. -/
def Program.toJson (program : Program) : Json :=
  .obj [("body", .arr (dumpStmts program.body))]

end Offside
