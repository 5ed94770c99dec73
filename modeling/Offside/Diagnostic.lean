import Offside.Span

/-!
# Diagnostics

Everything that can be reported about a script, by the stage that finds it:

* `LexicalFault`: the text could not be cut into tokens cleanly. Only a warning: what is wrong is
  left out or closed, and the work goes on.
* `GrammarFault`: the tokens are no program. Nothing later can run.
* `SemanticFault`: a name, a call or a jump is used where it has no meaning.
* `LayoutFault`: the program uses something the output language has no counterpart for.

A `Diagnostic` is one of these, or a failure of the file system. Its `message`, `code`, `stage` and
`hint?` are functions of the cause, so the wording is decided in this module alone. Its `severity`
is that of its stage.
-/

namespace Offside

/-! ### Causes -/

/-- What can be wrong with the text of a script. -/
inductive LexicalFault where
  /-- No token starts with this character; it is skipped. -/
  | illegalCharacter (char : Char) (span : Span)
  /-- The line, or the text, ends inside a string literal. -/
  | unterminatedString (span : Span)
  /-- A number above the largest signed 64-bit integer; it is skipped. -/
  | numberOverflow (literal : String) (span : Span)
deriving DecidableEq

/-- What can be wrong with a sequence of tokens. -/
inductive GrammarFault where
  | unexpectedToken (expected got : String) (span : Span)
  | unexpectedEnd (expected : String)
  /-- The left side of `=` is neither a name nor an element; the span is that of the `=`. -/
  | invalidTarget (span : Span)
  | nestingTooDeep (limit : Nat) (span : Span)
deriving DecidableEq

/-- What a declared name stands for, as far as messages tell. -/
inductive NameKind where
  | variable
  | function
deriving DecidableEq

/-- What can be wrong with the use of names, calls and jumps. -/
inductive SemanticFault where
  | redeclared (kind : NameKind) (name : String)
  | undeclaredVariable (name : String)
  | uninitializedVariable (name : String)
  | undeclaredAssignment (name : String)
  | undeclaredFunction (name : String)
  | argumentCount (name : String) (expected got : Nat)
  | jumpOutsideLoop (keyword : String)
  | returnOutsideFunction
deriving DecidableEq

/-- What has no counterpart in the output language. -/
inductive LayoutFault where
  | unsupportedProperty (property : String)
  | unsupported (construct : String)
deriving DecidableEq

/-- Anything that can be reported. -/
inductive Diagnostic where
  | lexical (fault : LexicalFault)
  | grammar (fault : GrammarFault)
  | semantic (fault : SemanticFault)
  | layout (fault : LayoutFault)
  | file (text : String)
deriving DecidableEq

/-! ### Stage and severity -/

/-- The stage of the work that reports a diagnostic. -/
inductive Stage where
  | lexical
  | grammar
  | semantic
  | generation
  | files
deriving DecidableEq

/-- The name of the stage in a report. -/
def Stage.label : Stage → String
  | lexical => "Lexical"
  | grammar => "Syntax"
  | semantic => "Semantic"
  | generation => "Generation"
  | files => "Io"

/-- How much a diagnostic stands in the way: a warning not at all, an error makes the script
wrong, a fatal one ends the work. -/
inductive Severity where
  | warning
  | error
  | fatal
deriving DecidableEq

namespace Severity

/-- The name of the severity in a report. -/
def label : Severity → String
  | warning => "Warning"
  | error => "Error"
  | fatal => "Fatal"

/-- The name of the severity in a line of text. -/
def word : Severity → String
  | warning => "warning"
  | error => "error"
  | fatal => "fatal"

/-- Everything but a warning counts as an error. -/
def isError : Severity → Bool
  | warning => false
  | error => true
  | fatal => true

end Severity

/-- Lexical faults are warnings and semantic ones errors; all others end the work. -/
def Stage.severity : Stage → Severity
  | lexical => .warning
  | semantic => .error
  | grammar => .fatal
  | generation => .fatal
  | files => .fatal

/-! ### Wording -/

/-- The place of a span in a message. -/
private def atLine (span : Span) : String :=
  " at line " ++ span.line.repr

/-- The kind of name at the start of a message. -/
def NameKind.label : NameKind → String
  | .variable => "Variable"
  | .function => "Function"

namespace LexicalFault

/-- The number by which the fault is known. -/
def code : LexicalFault → String
  | illegalCharacter .. => "E0001"
  | unterminatedString .. => "E0002"
  | numberOverflow .. => "E0003"

/-- Where the fault lies. -/
def span : LexicalFault → Span
  | illegalCharacter _ span => span
  | unterminatedString span => span
  | numberOverflow _ span => span

/-- The text shown to the reader. -/
def message : LexicalFault → String
  | illegalCharacter c span => "Illegal character '" ++ c.toString ++ "'" ++ atLine span
  | unterminatedString span => "Unterminated string literal" ++ atLine span
  | numberOverflow literal span =>
    "Number literal '" ++ literal ++ "' out of range" ++ atLine span

/-- What to do about the fault, if that can be said. -/
def hint? : LexicalFault → Option String
  | illegalCharacter c _ => some ("Remove '" ++ c.toString ++ "'")
  | unterminatedString _ => some "Close the string with '\"'"
  | numberOverflow .. => none

end LexicalFault

namespace GrammarFault

/-- The number by which the fault is known. -/
def code : GrammarFault → String
  | unexpectedToken .. => "E0101"
  | unexpectedEnd .. => "E0102"
  | invalidTarget .. => "E0103"
  | nestingTooDeep .. => "E0104"

/-- Where the fault lies; the end of the tokens is no place. -/
def span? : GrammarFault → Option Span
  | unexpectedToken _ _ span => some span
  | unexpectedEnd _ => none
  | invalidTarget span => some span
  | nestingTooDeep _ span => some span

/-- The text shown to the reader. -/
def message : GrammarFault → String
  | unexpectedToken expected got span =>
    "Unexpected token: expected " ++ expected ++ ", got " ++ got ++ atLine span
  | unexpectedEnd expected => "Unexpected end of input: expected " ++ expected
  | invalidTarget span => "Invalid assignment target" ++ atLine span
  | nestingTooDeep limit span =>
    "Nesting deeper than " ++ limit.repr ++ " levels" ++ atLine span

/-- What to do about the fault, if that can be said. -/
def hint? : GrammarFault → Option String
  | nestingTooDeep .. => some "Split the expression or block into smaller statements"
  | _ => none

end GrammarFault

namespace SemanticFault

/-- The number by which the fault is known. -/
def code : SemanticFault → String
  | redeclared .. => "E0201"
  | undeclaredVariable .. => "E0202"
  | uninitializedVariable .. => "E0203"
  | undeclaredAssignment .. => "E0204"
  | undeclaredFunction .. => "E0205"
  | argumentCount .. => "E0206"
  | jumpOutsideLoop .. => "E0207"
  | returnOutsideFunction => "E0208"

/-- The text shown to the reader. -/
def message : SemanticFault → String
  | redeclared kind name => kind.label ++ " '" ++ name ++ "' already declared"
  | undeclaredVariable name => "Use of undeclared variable '" ++ name ++ "'"
  | uninitializedVariable name => "Use of uninitialized variable '" ++ name ++ "'"
  | undeclaredAssignment name => "Assignment to undeclared variable '" ++ name ++ "'"
  | undeclaredFunction name => "Call to undeclared function '" ++ name ++ "'"
  | argumentCount name expected got =>
    "Function '" ++ name ++ "' called with " ++ got.repr ++ " argument(s), expected "
      ++ expected.repr
  | jumpOutsideLoop keyword => "'" ++ keyword ++ "' outside of a loop"
  | returnOutsideFunction => "'return' outside of a function"

/-- What to do about the fault, if that can be said. -/
def hint? : SemanticFault → Option String
  | redeclared _ name =>
    some ("Rename the second declaration or assign to '" ++ name ++ "' instead")
  | undeclaredVariable name =>
    some ("Declare '" ++ name ++ "' with var, let or const before using it")
  | uninitializedVariable name => some ("Assign a value to '" ++ name ++ "' before reading it")
  | undeclaredAssignment name => some ("Add 'var " ++ name ++ "' before the assignment")
  | undeclaredFunction name => some ("Declare function '" ++ name ++ "' before calling it")
  | argumentCount _ expected got =>
    if got < expected then
      some ("Add " ++ (expected - got).repr ++ " more argument(s)")
    else
      some ("Remove " ++ (got - expected).repr ++ " extra argument(s)")
  | jumpOutsideLoop _ => none
  | returnOutsideFunction => none

end SemanticFault

namespace LayoutFault

/-- The number by which the fault is known. -/
def code : LayoutFault → String
  | unsupportedProperty .. => "E0301"
  | unsupported .. => "E0302"

/-- The text shown to the reader. -/
def message : LayoutFault → String
  | unsupportedProperty property => "Unsupported property: " ++ property
  | unsupported construct => "Unsupported construct: " ++ construct

/-- What to do about the fault, if that can be said. -/
def hint? : LayoutFault → Option String
  | unsupportedProperty _ => some "Only '.length' has a Python equivalent"
  | unsupported _ => none

end LayoutFault

/-! ### Diagnostics -/

namespace Diagnostic

/-- The stage that reports the diagnostic. -/
def stage : Diagnostic → Stage
  | lexical _ => .lexical
  | grammar _ => .grammar
  | semantic _ => .semantic
  | layout _ => .generation
  | file _ => .files

/-- How much the diagnostic stands in the way. -/
def severity (d : Diagnostic) : Severity :=
  d.stage.severity

/-- The number by which the diagnostic is known. -/
def code : Diagnostic → String
  | lexical fault => fault.code
  | grammar fault => fault.code
  | semantic fault => fault.code
  | layout fault => fault.code
  | file _ => "E0401"

/-- The text shown to the reader. -/
def message : Diagnostic → String
  | lexical fault => fault.message
  | grammar fault => fault.message
  | semantic fault => fault.message
  | layout fault => fault.message
  | file text => "IO error: " ++ text

/-- What the diagnostic points at. -/
def span? : Diagnostic → Option Span
  | lexical fault => some fault.span
  | grammar fault => fault.span?
  | _ => none

/-- The line the diagnostic points at. -/
def line? (d : Diagnostic) : Option Nat :=
  d.span?.map Span.line

/-- What to do about it. -/
def hint? : Diagnostic → Option String
  | lexical fault => fault.hint?
  | grammar fault => fault.hint?
  | semantic fault => fault.hint?
  | layout fault => fault.hint?
  | file _ => none

/-- Is the script wrong because of it? -/
def isError (d : Diagnostic) : Bool :=
  d.severity.isError

/-- Did it end the work? -/
def isFatal (d : Diagnostic) : Bool :=
  d.severity = .fatal

/-- The diagnostic as one line of text: severity, code, message. -/
def summary (d : Diagnostic) : String :=
  d.severity.word ++ "[" ++ d.code ++ "]: " ++ d.message

end Diagnostic

end Offside
