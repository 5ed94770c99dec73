import Offside.Layout.Stmt
import Offside.Parser.Statement
import Offside.Scope.Check
import Offside.Token.Piece

/-!
# From a script to its output

`convert` takes a source text through all stages: tokens, program, names, lines. `check` stops
before the lines. Every stage adds its diagnostics after those of the stages before it, so they
stand in this order: lexical faults; then either one grammar fault, which ends the work, or the
semantic faults and at most one fault of the layout.

In strict mode semantic faults keep the lines from being made; otherwise they are made all the
same.
-/

namespace Offside

/-- What semantic faults do to the output. -/
inductive Mode where
  /-- Output is made all the same. -/
  | lenient
  /-- No output is made. -/
  | strict
deriving DecidableEq

/-- How a script is to be converted. -/
structure Settings where
  mode : Mode := .lenient
  /-- The number of blanks for one level. -/
  indent : Nat := 4
deriving DecidableEq

/-- How much a script and its output hold. -/
structure Counts where
  tokens : Nat
  /-- Statements outside of all others. -/
  statements : Nat
  lines : Nat
deriving DecidableEq

/-- What became of a script: its output, if there is one, and all that was found on the way. -/
structure Conversion where
  output : Option String
  diagnostics : List Diagnostic
  counts : Counts
deriving DecidableEq

namespace Conversion

/-- Is anything wrong with the script? Warnings do not count. -/
def hasErrors (conversion : Conversion) : Bool :=
  conversion.diagnostics.any Diagnostic.isError

/-- Is nothing wrong with the script? -/
def success (conversion : Conversion) : Bool :=
  !conversion.hasErrors

/-- What ended the work. -/
def fatal? (conversion : Conversion) : Option Diagnostic :=
  conversion.diagnostics.find? Diagnostic.isFatal

/-- What a stage has found. -/
def foundBy (conversion : Conversion) (stage : Stage) : List Diagnostic :=
  conversion.diagnostics.filter fun d => d.stage = stage

end Conversion

/-- A script as far as it can be understood without making output. -/
structure Reading where
  /-- What has been found so far. -/
  found : Conversion
  /-- The program, if the tokens spell one. -/
  program? : Option Program

/-- Reads a script and checks its names. -/
def read (source : String) : Reading :=
  let tokens := tokens source
  let lexical := (lexicalFaults source).map Diagnostic.lexical
  match parse tokens with
  | .error fault =>
    { found := ⟨none, lexical ++ [.grammar fault], ⟨tokens.length, 0, 0⟩⟩
      program? := none }
  | .ok program =>
    let semantic := (semanticFaults program).map Diagnostic.semantic
    { found := ⟨none, lexical ++ semantic, ⟨tokens.length, program.body.length, 0⟩⟩
      program? := some program }

/-- Everything that can be said about a script without making output. -/
def check (source : String) : Conversion :=
  (read source).found

/-- Converts a script. -/
def convert (settings : Settings) (source : String) : Conversion :=
  let reading := read source
  let found := reading.found
  match reading.program? with
  | none => found
  | some program =>
    if settings.mode = .strict ∧ found.foundBy .semantic ≠ [] then
      found
    else
      match program.layout settings.indent with
      | .ok lines =>
        ⟨some (joinLines lines), found.diagnostics, { found.counts with lines := lines.length }⟩
      | .error fault => { found with diagnostics := found.diagnostics ++ [.layout fault] }

end Offside
