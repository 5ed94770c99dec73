import Offside.Diagnostic
import Offside.Tree

/-!
# Expressions of the output language

`Expr.text` writes an expression as one piece of Python text. The language binds, from loose to
tight: `or`, `and`, `not`, comparisons, sums, products, the minus sign, and everything else
(`Strength`). An operand that binds more loosely than its place allows is put in parentheses, and
nothing else is:

* an operator groups to the left, so its right operand has to bind more tightly than itself;
* comparisons would chain, so both of their operands have to.

Three things have other names there: `console.log` is `print`, `prompt` is `input`, and the
property `length` is the function `len`. No other property can be written, and no assignment that
is used as a value. An assignment can be a line by itself, though, and so can a chain of them
(`Expr.lineText`).
-/

namespace Offside

/-! ### Binding strength -/

/-- How tightly an expression holds together. -/
inductive Strength where
  | disjunction
  | conjunction
  | negation
  | comparison
  | sum
  | product
  | sign
  | atom
deriving DecidableEq

/-- Strengths in numbers, larger where tighter. -/
def Strength.rank : Strength → Nat
  | disjunction => 1
  | conjunction => 2
  | negation => 3
  | comparison => 4
  | sum => 5
  | product => 6
  | sign => 7
  | atom => 8

/-- The strength of a tier of operators. -/
def Tier.strength : Tier → Strength
  | disjunction => .disjunction
  | conjunction => .conjunction
  | comparison => .comparison
  | sum => .sum
  | product => .product

/-- The strength of an expression, which its outermost operator decides. -/
def Expr.strength : Expr → Strength
  | .binary op _ _ => op.tier.strength
  | .unary .neg _ => .sign
  | .unary .not _ => .negation
  | _ => .atom

/-! ### Operators and names -/

namespace BinaryOp

/-- How an operator is written. -/
def word : BinaryOp → String
  | or => "or"
  | and => "and"
  | eq => "=="
  | ne => "!="
  | lt => "<"
  | gt => ">"
  | le => "<="
  | ge => ">="
  | add => "+"
  | sub => "-"
  | mul => "*"
  | div => "/"
  | mod => "%"

/-- The least rank that the left operand may have. -/
def leftRank (op : BinaryOp) : Nat :=
  if op.tier = .comparison then op.tier.strength.rank + 1 else op.tier.strength.rank

/-- The least rank that the right operand may have. -/
def rightRank (op : BinaryOp) : Nat :=
  op.tier.strength.rank + 1

end BinaryOp

namespace UnaryOp

/-- How an operator is written, with what separates it from its operand. -/
def word : UnaryOp → String
  | neg => "-"
  | not => "not "

/-- The least rank that the operand may have. -/
def operandRank : UnaryOp → Nat
  | neg => Strength.sign.rank
  | not => Strength.negation.rank

end UnaryOp

/-- The name under which a function is called. -/
def calleeName (name : String) : String :=
  if name = "console.log" then "print"
  else if name = "prompt" then "input"
  else name

/-- The property that has a counterpart. -/
def lengthProperty : String := "length"

/-! ### Texts -/

/-- The text of an operand, in parentheses if it binds too loosely. -/
def Expr.asOperand (e : Expr) (least : Nat) (text : String) : String :=
  if e.strength.rank < least then "(" ++ text ++ ")" else text

/-- Texts separated by commas. -/
def commaSeparated (texts : List String) : String :=
  String.intercalate ", " texts

mutual

/-- The text of an expression that is used as a value. -/
def Expr.text : Expr → Except LayoutFault String
  | .assign _ _ => throw (.unsupported "assignment used as a value")
  | .binary op left right => do
    let l ← left.text
    let r ← right.text
    return left.asOperand op.leftRank l ++ " " ++ op.word ++ " " ++ right.asOperand op.rightRank r
  | .unary op operand => do
    let t ← operand.text
    return op.word ++ operand.asOperand op.operandRank t
  | .call callee arguments => do
    let texts ← exprTexts arguments
    return calleeName callee ++ "(" ++ commaSeparated texts ++ ")"
  | .ident name => return name
  | .number value => return value.repr
  | .string raw => return "\"" ++ raw ++ "\""
  | .boolean true => return "True"
  | .boolean false => return "False"
  | .array elements => do
    let texts ← exprTexts elements
    return "[" ++ commaSeparated texts ++ "]"
  | .index object index => do
    let o ← object.text
    let i ← index.text
    return object.asOperand Strength.atom.rank o ++ "[" ++ i ++ "]"
  | .property object name => do
    if name = lengthProperty then
      let t ← object.text
      return "len(" ++ t ++ ")"
    else
      throw (.unsupportedProperty name)

/-- The texts of several expressions. -/
def exprTexts : List Expr → Except LayoutFault (List String)
  | [] => return []
  | e :: rest => do
    let text ← e.text
    let texts ← exprTexts rest
    return text :: texts

end

/-- An assignment has no text as a value. -/
theorem Expr.text_assign (target value : Expr) :
    (assign target value).text = .error (.unsupported "assignment used as a value") := by
  rw [Expr.text]
  rfl

/-- The text of an expression that stands on a line by itself or after a name that is declared. -/
def Expr.lineText : Expr → Except LayoutFault String
  | .assign target value => do
    let t ← target.text
    let v ← value.lineText
    return t ++ " = " ++ v
  | e => e.text

end Offside
