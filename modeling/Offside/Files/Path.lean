/-!
# Path names

A path is a text whose segments are separated by slashes. Nothing here looks at files: these are
questions about the spelling of a path.
-/

namespace Offside

namespace Path

/-- Cuts a text at every slash. -/
def splitSlashes : List Char → List (List Char)
  | [] => [[]]
  | c :: rest =>
    if c = '/' then
      [] :: splitSlashes rest
    else
      match splitSlashes rest with
      | first :: others => (c :: first) :: others
      | [] => [[c]]

/-- The segments of a path. There is an empty one before a slash at the start, between two slashes
and after a slash at the end. -/
def segments (path : String) : List String :=
  (splitSlashes path.toList).map String.ofList

/-- Does the path start at the root? -/
def isAbsolute (path : String) : Bool :=
  path.toList.head? = some '/'

/-- Does the path spell `-`, which stands for standard output? What follows a name without naming
anything, such as a slash at the end, makes no difference. -/
def isStandardOutput (path : String) : Bool :=
  match segments path with
  | "-" :: rest => rest.all fun segment => segment = "" || segment = "."
  | _ => false

/-- Is the segment the name of something in a directory, rather than of the directory itself or the
one around it? -/
def isName (segment : String) : Bool :=
  segment != "" && segment != "." && segment != ".."

/-- The most bytes that a path may have. -/
def maxBytes : Nat := 4095

/-- The most bytes that a name may have. -/
def maxNameBytes : Nat := 255

/-! ### Extensions -/

/-- What stands before the last dot of a file name. A dot at the start does not count. -/
def stem? (name : List Char) : Option (List Char) :=
  match (name.reverse.dropWhile (· != '.')).tail.reverse with
  | [] => none
  | before => some before

/-- A file name without what follows its last dot, or all of it if there is no such dot. -/
def withoutExtension (name : List Char) : List Char :=
  match stem? name with
  | some before => before ++ ['.']
  | none => name

/-- A file name with another extension. The old one is taken off first, and what is left has to be
a name to take a new one: `..x` leaves `..`, the directory around, and that stays as it is. -/
def extendName (extension name : List Char) : List Char :=
  if isName (String.ofList (withoutExtension name)) then
    (stem? name).getD name ++ '.' :: extension
  else
    withoutExtension name

/-- The path with what follows the last dot of its file name replaced, or with an extension added
if there is no such dot. -/
def withExtension (extension path : String) : String :=
  let reversed := path.toList.reverse
  let name := (reversed.takeWhile (· != '/')).reverse
  let directory := (reversed.dropWhile (· != '/')).reverse
  String.ofList (directory ++ extendName extension.toList name)

end Path

end Offside
