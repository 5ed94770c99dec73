import Offside.Conversion

/-!
# The command line

`Command.ofArguments?` reads the arguments of a call: a command word, then options and the name of
the input file in any order.

* `--name value` and `--name=value` give an option with a value, and so do `-n value`, `-nvalue`
  and `-n=value` where the option has a short name.
* `--name` alone gives a flag.
* After `--` everything is a file name. A lone `-` is one too.
* A value that stands by itself may not look like an option.
* Nothing may be given twice, and nothing that the command does not know.
-/

namespace Offside

/-! ### Options and file names -/

/-- The options that a command knows. -/
structure OptionSpec where
  /-- Long names of options without a value. -/
  flags : List String
  /-- Long names of options with a value. -/
  valued : List String
  /-- Short names, with the long names for which they stand. -/
  shorts : List (Char × String)

/-- Does no text stand twice in the list? -/
def allDifferent : List String → Bool
  | [] => true
  | text :: rest => !rest.contains text && allDifferent rest

/-- What the arguments give. -/
structure Given where
  files : List String
  flags : List String
  values : List (String × String)

namespace Given

/-- Nothing. -/
def none : Given := ⟨[], [], []⟩

/-- One more file name, before the others. -/
def addFile (file : String) (given : Given) : Given :=
  { given with files := file :: given.files }

/-- One more flag. -/
def addFlag (flag : String) (given : Given) : Given :=
  { given with flags := flag :: given.flags }

/-- One more option with its value. -/
def addValue (name value : String) (given : Given) : Given :=
  { given with values := (name, value) :: given.values }

/-- Is nothing given twice? -/
def noneTwice (given : Given) : Bool :=
  allDifferent given.flags && allDifferent (given.values.map Prod.fst)

end Given

/-- What a single argument is. -/
inductive Argument where
  /-- The name of a file. -/
  | file
  /-- From here on everything is a file name. -/
  | onlyFiles
  | flag (name : String)
  /-- An option whose value is the next argument. -/
  | wanting (name : String)
  /-- An option with its value. -/
  | giving (name value : String)
  | unknown
deriving DecidableEq

/-- What a long option is, given what follows its two dashes. -/
def longArgument (spec : OptionSpec) (text : List Char) : Argument :=
  let name := String.ofList (text.takeWhile (· != '='))
  match text.dropWhile (· != '=') with
  | [] =>
    if spec.flags.contains name then .flag name
    else if spec.valued.contains name then .wanting name
    else .unknown
  | _ :: value =>
    if spec.valued.contains name then .giving name (String.ofList value) else .unknown

/-- What a short option is, given what follows its dash. -/
def shortArgument (spec : OptionSpec) (short : Char) (text : List Char) : Argument :=
  match spec.shorts.lookup short, text with
  | none, _ => .unknown
  | some name, [] => .wanting name
  | some name, '=' :: value => .giving name (String.ofList value)
  | some name, value => .giving name (String.ofList value)

/-- What an argument is. -/
def classify (spec : OptionSpec) (argument : String) : Argument :=
  match argument.toList with
  | ['-', '-'] => .onlyFiles
  | '-' :: '-' :: text => longArgument spec text
  | '-' :: short :: text => shortArgument spec short text
  | _ => .file

/-- Can the argument be the value of the option before it? -/
def isValue (argument : String) : Bool :=
  match argument.toList with
  | '-' :: _ :: _ => false
  | _ => true

/-- Sorts arguments into options and file names. -/
def collect (spec : OptionSpec) : List String → Option Given
  | [] => some .none
  | argument :: rest =>
    match classify spec argument with
    | .file => (collect spec rest).map (Given.addFile argument)
    | .onlyFiles => some ⟨rest, [], []⟩
    | .flag name => (collect spec rest).map (Given.addFlag name)
    | .giving name value => (collect spec rest).map (Given.addValue name value)
    | .wanting name =>
      match rest with
      | [] => none
      | value :: rest =>
        if isValue value then (collect spec rest).map (Given.addValue name value) else none
    | .unknown => none

/-! ### Commands -/

/-- What the program can be asked to do with a file. -/
inductive Command where
  /-- Convert it, to the given file or to one named after it. -/
  | build (input : String) (output : Option String) (settings : Settings) (json : Bool)
  /-- Say what is wrong with it. -/
  | check (input : String) (json : Bool)
  /-- Show its tokens. -/
  | tokens (input : String)
  /-- Show its program. -/
  | tree (input : String)
deriving DecidableEq

/-- The file that a command reads. -/
def Command.input : Command → String
  | build input .. => input
  | check input _ => input
  | tokens input => input
  | tree input => input

/-- The largest width of a level that can be asked for: the largest unsigned 64-bit integer. -/
def maxIndent : Nat := 18446744073709551615

/-- Reads a width: decimal digits, perhaps with a plus sign before them. -/
def readIndent? (text : String) : Option Nat :=
  let digits :=
    match text.toList with
    | '+' :: digits => digits
    | digits => digits
  let value := Nat.ofDigitChars 10 digits 0
  if digits ≠ [] ∧ digits.all Char.isDigit ∧ value ≤ maxIndent then some value else none

/-- The one file that is given, whose name is not empty. -/
def Given.file? (given : Given) : Option String :=
  match given.files with
  | [file] => if file = "" then Option.none else some file
  | _ => Option.none

/-- The settings that are given. -/
def Given.settings? (given : Given) : Option Settings :=
  let mode := if given.flags.contains "strict" then Mode.strict else Mode.lenient
  match given.values.lookup "indent" with
  | Option.none => some { mode }
  | some text => (readIndent? text).map fun indent => { mode, indent }

namespace Command

/-- The options of `build`. -/
def buildSpec : OptionSpec :=
  ⟨["strict", "json"], ["output", "indent"], [('o', "output")]⟩

/-- The options of `check`. -/
def checkSpec : OptionSpec :=
  ⟨["json"], [], []⟩

/-- The options of the other commands: none. -/
def plainSpec : OptionSpec :=
  ⟨[], [], []⟩

/-- What the arguments after a command word give, if they are in order. -/
def given? (spec : OptionSpec) (arguments : List String) : Option Given :=
  (collect spec arguments).filter Given.noneTwice

/-- Reads the arguments of a call. -/
def ofArguments? : List String → Option Command
  | "build" :: arguments => do
    let given ← given? buildSpec arguments
    let input ← given.file?
    let settings ← given.settings?
    let output := given.values.lookup "output"
    if output = some "" then none
    else some (build input output settings (given.flags.contains "json"))
  | "check" :: arguments => do
    let given ← given? checkSpec arguments
    let input ← given.file?
    some (check input (given.flags.contains "json"))
  | "tokens" :: arguments => do
    let given ← given? plainSpec arguments
    let input ← given.file?
    some (tokens input)
  | "ast" :: arguments => do
    let given ← given? plainSpec arguments
    let input ← given.file?
    some (tree input)
  | _ => none

end Command

end Offside
