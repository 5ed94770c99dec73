import Offside.Command.Run

/-!
# The program

The outermost layer: it reads the file that a command names, prints what `Command.respond` says,
and writes the file that goes with it.
-/

namespace Offside

/-- What is printed when the arguments of a call are faulty. -/
def usage : String :=
  "Usage:\n" ++
  "  build FILE [-o OUT] [--strict] [--indent N] [--json]\n" ++
  "  check FILE [--json]\n" ++
  "  tokens FILE\n" ++
  "  ast FILE\n"

/-- Why the operating system refuses a file. A path that goes through a file has code 20 and one
that ends in a directory has code 21; either may be reported with its sign turned. -/
def FileError.ofSystem : IO.Error → FileError
  | .noFileOrDirectory .. => .notFound
  | .inappropriateType _ code _ =>
    if code = 20 || code = -20 then .notDirectory else .isDirectory
  | .invalidArgument _ code _ =>
    if code = 36 || code = -36 then .nameTooLong else .other "Invalid argument (os error 22)"
  | .noSuchThing .. => .notFound
  | .permissionDenied _ code _ =>
    if code = 13 || code = -13 then .denied else .other "Operation not permitted (os error 1)"
  | e => .other e.toString

/-- The text of a file. -/
def readSource (path : String) : IO (Except FileError String) := do
  try
    let bytes ← IO.FS.readBinFile path
    match String.fromUTF8? bytes with
    | some text => return .ok text
    | none => return .error .notText
  catch e => return .error (.ofSystem e)

/-- Writes a file. -/
def writeText (path text : String) : IO (Except FileError Unit) := do
  try
    IO.FS.writeFile path text
    return .ok ()
  catch e => return .error (.ofSystem e)

/-- Runs a command on the files of the system. -/
def Command.execute (command : Command) : IO Outcome := do
  let response := command.respond (← readSource command.input)
  match response.file with
  | none => return response.outcome
  | some (path, text) =>
    match ← writeText path text with
    | .ok _ => return response.outcome
    | .error e => return response.outcome.unwritable path e

end Offside

open Offside in
/-- Reads the arguments of the call and runs the command. -/
def main (arguments : List String) : IO UInt32 := do
  match Command.ofArguments? arguments with
  | some command =>
    let outcome ← command.execute
    IO.print outcome.stdout
    IO.eprint outcome.stderr
    return outcome.exitCode.toUInt32
  | none =>
    IO.eprint usage
    return usageExit.toUInt32
