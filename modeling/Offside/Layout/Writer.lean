import Offside.Layout.Stmt

/-!
# Writing scripts one after another

A `Writer` lays scripts out line by line and can be used again and again. It keeps the lines that it
has written of the current script and the loops around the place at which it is. Writing stops at
the first construct that is refused; the lines up to there stay with the writer until it is used
again.

`Writer.generate` is one use of a writer, and `Writer.afterAll` the writer that earlier uses leave
behind.
-/

namespace Offside

/-- A loop around the place at which a writer is. -/
inductive LoopKind where
  | whileLoop
  /-- A `for`, which is written as a `while` with its update behind the body. -/
  | forLoop
deriving DecidableEq

/-- What a writer keeps. -/
structure Writer where
  /-- The number of blanks for one level. -/
  width : Nat := 4
  /-- The lines of the current script so far. -/
  lines : Array String := #[]
  /-- The loops around within the current function, the innermost first. -/
  loops : List LoopKind := []

/-- Is the innermost loop a `for`? -/
def Writer.inFor (writer : Writer) : Bool :=
  writer.loops.head? = some .forLoop

/-- A step of writing: it may be refused, and what was written before stays. -/
abbrev Writing (α : Type) : Type :=
  ExceptT LayoutFault (StateM Writer) α

namespace Writing

/-- A text, unless it is refused. -/
def ofText (text : Except LayoutFault String) : Writing String :=
  ExceptT.mk (pure text)

/-- Writes one line. -/
def line (level : Nat) (text : String) : Writing Unit :=
  modify fun writer =>
    { writer with lines := writer.lines.push (Line.render writer.width ⟨level, text⟩) }

/-- Writes the body of a loop. -/
def inLoop (kind : LoopKind) (body : Writing Unit) : Writing Unit := fun writer =>
  let ending := body { writer with loops := kind :: writer.loops }
  (ending.1, { ending.2 with loops := ending.2.loops.tail })

/-- Writes the body of a function. The loops around the function do not enclose it. -/
def inFunction (body : Writing Unit) : Writing Unit := fun writer =>
  let ending := body { writer with loops := [] }
  (ending.1, { ending.2 with loops := writer.loops })

/-- Writes the statements of a body, or `pass` if there are none. -/
def orPass (level : Nat) (body : List Stmt) (written : Writing Unit) : Writing Unit :=
  if body.isEmpty then line level "pass" else written

end Writing

mutual

/-- Writes a statement at the given level. An `if` starts with the word `opening`. -/
def Stmt.write (opening : String) (level : Nat) : Stmt → Writing Unit
  | .declare d => do
    let text ← Writing.ofText d.text
    Writing.line level text
  | .function name params body => do
    Writing.line level ("def " ++ name ++ "(" ++ commaSeparated params ++ "):")
    Writing.inFunction (Writing.orPass (level + 1) body (stmtsWrite "if" (level + 1) body))
  | .ifThen condition yes => do
    let test ← Writing.ofText condition.text
    Writing.line level (opening ++ " " ++ test ++ ":")
    Writing.orPass (level + 1) yes (stmtsWrite "if" (level + 1) yes)
  | .ifElse condition yes no => do
    let test ← Writing.ofText condition.text
    Writing.line level (opening ++ " " ++ test ++ ":")
    Writing.orPass (level + 1) yes (stmtsWrite "if" (level + 1) yes)
    if isElseIf no then
      stmtsWrite "elif" level no
    else
      Writing.line level "else:"
      Writing.orPass (level + 1) no (stmtsWrite "if" (level + 1) no)
  | .whileLoop condition body => do
    let test ← Writing.ofText condition.text
    Writing.line level ("while " ++ test ++ ":")
    Writing.inLoop .whileLoop
      (Writing.orPass (level + 1) body (stmtsWrite "if" (level + 1) body))
  | .forLoop init condition update body => do
    let first ← Writing.ofText init.text
    Writing.line level first
    let test ← Writing.ofText condition.text
    Writing.line level ("while " ++ test ++ ":")
    Writing.inLoop .forLoop (stmtsWrite "if" (level + 1) body)
    let last ← Writing.ofText update.lineText
    Writing.line (level + 1) last
  | .giveBack none => Writing.line level "return"
  | .giveBack (some value) => do
    let text ← Writing.ofText value.text
    Writing.line level ("return " ++ text)
  | .breakLoop => Writing.line level "break"
  | .continueLoop => do
    if (← get).inFor then
      throw (.unsupported "'continue' directly inside a for loop")
    else
      Writing.line level "continue"
  | .expr value => do
    let text ← Writing.ofText value.lineText
    Writing.line level text

/-- Writes several statements. -/
def stmtsWrite (opening : String) (level : Nat) : List Stmt → Writing Unit
  | [] => pure ()
  | s :: rest => do
    s.write opening level
    stmtsWrite opening level rest

end

namespace Writer

/-- Lays out a script, whatever is left of the one before: its lines, or why it is refused, and the
writer afterwards. -/
def generate (writer : Writer) (program : Program) :
    Except LayoutFault (List String) × Writer :=
  match stmtsWrite "if" 0 program.body { writer with lines := #[], loops := [] } with
  | (.ok _, after) => (.ok after.lines.toList, { after with lines := #[] })
  | (.error fault, after) => (.error fault, after)

/-- The writer after it has been used for several scripts. -/
def afterAll (writer : Writer) (programs : List Program) : Writer :=
  programs.foldl (fun writer program => (writer.generate program).2) writer

end Writer

end Offside
