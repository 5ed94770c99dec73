import Offside.Command.Arguments
import Offside.Files.Store
import Offside.Json.Dump
import Offside.Report

/-!
# Running a command

A command reads one file and writes at most one. What it does with the text it has read is a
function, `Command.respond`: it says what to print, with which code to exit, and what to write
where. `Command.run` carries that out on a store of files.

A command exits with 0 if it did what it was asked to do, and with 1 if it did not: if a file could
not be read or written, if there is no output to write, or if a check has found an error. Faulty
arguments make it exit with 2 (`usageExit`).
-/

namespace Offside

/-- The code with which a call with faulty arguments exits. -/
def usageExit : Nat := 2

/-- What the caller of a command sees. -/
structure Outcome where
  exitCode : Nat
  stdout : String
  stderr : String
deriving DecidableEq

/-- What a command does with a text: what its caller sees, and what it writes where. -/
structure Response where
  outcome : Outcome
  file : Option (String × String)

/-- A text as a line of output. -/
def asLine (text : String) : String :=
  text ++ "\n"

/-- One line for each diagnostic. -/
def summaries (diagnostics : List Diagnostic) : String :=
  String.join (diagnostics.map fun d => asLine d.summary)

/-- The outcome of a command that cannot read its input. -/
def unreadable (input : String) (e : FileError) : Outcome :=
  ⟨1, "", asLine ("Error: reading " ++ input ++ ": " ++ (Diagnostic.file e.message).message)⟩

/-- The outcome of a command that cannot write its output. -/
def Outcome.unwritable (outcome : Outcome) (path : String) (e : FileError) : Outcome :=
  { outcome with
    exitCode := 1
    stderr := outcome.stderr ++ asLine ("Error: writing " ++ path ++ ": " ++ e.message) }

/-- How a conversion is shown: as a report on standard output, or as lines on standard error. -/
def showConversion (input : String) (json : Bool) (conversion : Conversion) : Outcome :=
  if json then
    ⟨0, asLine (conversion.report input).text, ""⟩
  else
    ⟨0, "", summaries conversion.diagnostics⟩

/-- The extension of output files. -/
def outputExtension : String := "py"

/-- Converts a script and says where its output goes. -/
def respondBuild (input : String) (output : Option String) (settings : Settings) (json : Bool)
    (source : String) : Response :=
  let conversion := convert settings source
  let shown := showConversion input json conversion
  match conversion.output with
  | none => ⟨{ shown with exitCode := 1 }, none⟩
  | some code =>
    let path := output.getD (Path.withExtension outputExtension input)
    if output.any Path.isStandardOutput then
      ⟨if json then shown else { shown with stdout := asLine code }, none⟩
    else
      ⟨shown, some (path, asLine code)⟩

/-- Checks a script. -/
def respondCheck (input : String) (json : Bool) (source : String) : Outcome :=
  let conversion := check source
  let shown := showConversion input json conversion
  if conversion.success then
    if json then shown else { shown with stdout := asLine "No errors found" }
  else
    { shown with exitCode := 1 }

/-- Shows the tokens of a script. -/
def respondTokens (source : String) : Outcome :=
  ⟨0, asLine (dumpTokens (tokens source)).pretty,
    summaries ((lexicalFaults source).map .lexical)⟩

/-- Shows the program that a script spells. -/
def respondTree (source : String) : Outcome :=
  match parse (tokens source) with
  | .ok program =>
    ⟨0, asLine program.toJson.pretty, summaries ((lexicalFaults source).map .lexical)⟩
  | .error fault => ⟨1, "", summaries [.grammar fault]⟩

namespace Command

/-- What a command does once its input has been read, or could not be. -/
def respond (command : Command) (source : Except FileError String) : Response :=
  match source with
  | .error e => ⟨unreadable command.input e, none⟩
  | .ok source =>
    match command with
    | build input output settings json => respondBuild input output settings json source
    | check input json => ⟨respondCheck input json source, none⟩
    | tokens _ => ⟨respondTokens source, none⟩
    | tree _ => ⟨respondTree source, none⟩

/-- Runs a command on a store of files. -/
def run (store : FileStore) (command : Command) : Outcome × FileStore :=
  let response := command.respond (store.readText command.input)
  match response.file with
  | none => (response.outcome, store)
  | some (path, text) =>
    match store.write path text.toUTF8 with
    | .ok store => (response.outcome, store)
    | .error e => (response.outcome.unwritable path e, store)

end Command

end Offside
