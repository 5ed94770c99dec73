import Offside.Layout.Expr
import Offside.Layout.Line

/-!
# Statements of the output language

`Program.lines` lays a script out as lines. A statement with a body is a header line, which ends
with a colon, and the lines of the body one level further in; a body without statements is the
line `pass`.

* A declaration is an assignment, of `None` if it has no first value.
* An `else` block that is nothing but an `if` continues the chain with `elif`.
* A `for` becomes its first part, a `while` over its condition, and its update as the last line of
  the body. A `continue` that belongs to it would skip the update, so it is refused.
-/

namespace Offside

/-- The name of the output language. -/
def outputLanguage : String := "python"

/-- The line of a declaration. -/
def Declaration.text (d : Declaration) : Except LayoutFault String :=
  match d.init with
  | some value => do
    let v ← value.lineText
    return d.name ++ " = " ++ v
  | none => return d.name ++ " = None"

/-- The lines of a body at the given level. -/
def bodyLines (level : Nat) (lines : List Line) : List Line :=
  if lines.isEmpty then [⟨level, "pass"⟩] else lines

/-- Is the block nothing but an `if`? -/
def isElseIf : List Stmt → Bool
  | [s] => s.isBranch
  | _ => false

mutual

/-- The lines of a statement at the given level. An `if` starts with the word `opening`, and
`inFor` says whether the innermost loop of the function is a `for`. -/
def Stmt.lines (opening : String) (inFor : Bool) (level : Nat) :
    Stmt → Except LayoutFault (List Line)
  | .declare d => do
    let text ← d.text
    return [⟨level, text⟩]
  | .function name params body => do
    let inner ← stmtsLines "if" false (level + 1) body
    return ⟨level, "def " ++ name ++ "(" ++ commaSeparated params ++ "):"⟩ ::
      bodyLines (level + 1) inner
  | .ifThen condition yes => do
    let test ← condition.text
    let inner ← stmtsLines "if" inFor (level + 1) yes
    return ⟨level, opening ++ " " ++ test ++ ":"⟩ :: bodyLines (level + 1) inner
  | .ifElse condition yes no => do
    let test ← condition.text
    let inner ← stmtsLines "if" inFor (level + 1) yes
    let first := ⟨level, opening ++ " " ++ test ++ ":"⟩ :: bodyLines (level + 1) inner
    if isElseIf no then
      let rest ← stmtsLines "elif" inFor level no
      return first ++ rest
    else
      let rest ← stmtsLines "if" inFor (level + 1) no
      return first ++ ⟨level, "else:"⟩ :: bodyLines (level + 1) rest
  | .whileLoop condition body => do
    let test ← condition.text
    let inner ← stmtsLines "if" false (level + 1) body
    return ⟨level, "while " ++ test ++ ":"⟩ :: bodyLines (level + 1) inner
  | .forLoop init condition update body => do
    let first ← init.text
    let test ← condition.text
    let inner ← stmtsLines "if" true (level + 1) body
    let last ← update.lineText
    return ⟨level, first⟩ :: ⟨level, "while " ++ test ++ ":"⟩ :: (inner ++ [⟨level + 1, last⟩])
  | .giveBack none => return [⟨level, "return"⟩]
  | .giveBack (some value) => do
    let text ← value.text
    return [⟨level, "return " ++ text⟩]
  | .breakLoop => return [⟨level, "break"⟩]
  | .continueLoop =>
    if inFor then
      throw (.unsupported "'continue' directly inside a for loop")
    else
      return [⟨level, "continue"⟩]
  | .expr value => do
    let text ← value.lineText
    return [⟨level, text⟩]

/-- The lines of several statements. -/
def stmtsLines (opening : String) (inFor : Bool) (level : Nat) :
    List Stmt → Except LayoutFault (List Line)
  | [] => return []
  | s :: rest => do
    let first ← s.lines opening inFor level
    let others ← stmtsLines opening inFor level rest
    return first ++ others

end

/-- A `continue` is refused where the innermost loop is a `for`. -/
theorem Stmt.lines_continueLoop_of_inFor (opening : String) (level : Nat) :
    continueLoop.lines opening true level =
      .error (.unsupported "'continue' directly inside a for loop") := by
  rw [Stmt.lines]
  rfl

/-- The lines of a script. -/
def Program.lines (program : Program) : Except LayoutFault (List Line) :=
  stmtsLines "if" false 0 program.body

/-- The lines of a script as text, `width` blanks to a level. -/
def Program.layout (width : Nat) (program : Program) : Except LayoutFault (List String) := do
  let lines ← program.lines
  return lines.map (Line.render width)

end Offside
