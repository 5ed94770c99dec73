/-!
# JSON values and their text

`Json.pretty` writes a value with one element or member per line, each level indented by two
blanks; an empty list and an empty object stay on one line. In strings only the quote, the
backslash and the control characters below U+0020 are escaped, everything else is written as it
is. Members keep the order in which they are given.
-/

namespace Offside

/-- JSON values. The only numbers are integers. -/
inductive Json where
  | null
  | bool (value : Bool)
  | int (value : Int)
  | str (value : String)
  | arr (elements : List Json)
  | obj (members : List (String × Json))

namespace Json

/-- A value, or `null` in its absence. -/
def ofOption {α : Type} (encode : α → Json) : Option α → Json
  | some a => encode a
  | none => null

/-- An object with one member. -/
def tagged (tag : String) (value : Json) : Json :=
  obj [(tag, value)]

/-- A natural number. -/
def nat (value : Nat) : Json :=
  int value

/-! ### Strings -/

/-- A hexadecimal digit, in lower case. -/
def hexDigit (n : Nat) : Char :=
  Nat.digitChar n

/-- How a character is written between quotes. -/
def escape (c : Char) : List Char :=
  if c = '"' then ['\\', '"']
  else if c = '\\' then ['\\', '\\']
  else if c = '\x08' then ['\\', 'b']
  else if c = '\t' then ['\\', 't']
  else if c = '\n' then ['\\', 'n']
  else if c = '\x0c' then ['\\', 'f']
  else if c = '\r' then ['\\', 'r']
  else if c.toNat < 0x20 then
    ['\\', 'u', '0', '0', hexDigit (c.toNat / 16), hexDigit (c.toNat % 16)]
  else [c]

/-- A string in quotes. -/
def quote (text : String) : String :=
  String.ofList ('"' :: text.toList.flatMap escape ++ ['"'])

/-! ### Values -/

/-- The blanks at the start of a line. -/
def margin (level : Nat) : String :=
  "".pushn ' ' (2 * level)

/-- The texts of the parts of a list or object between its brackets. -/
def enclose (left right : String) (level : Nat) (parts : List String) : String :=
  if parts.isEmpty then
    left ++ right
  else
    left ++ "\n" ++ margin (level + 1)
      ++ String.intercalate (",\n" ++ margin (level + 1)) parts
      ++ "\n" ++ margin level ++ right

mutual

/-- The text of a value that stands at the given level. -/
def write (level : Nat) : Json → String
  | null => "null"
  | bool true => "true"
  | bool false => "false"
  | int value => value.repr
  | str value => quote value
  | arr elements => enclose "[" "]" level (writeElements (level + 1) elements)
  | obj members => enclose "\x7b" "\x7d" level (writeMembers (level + 1) members)

/-- The texts of the elements of a list. -/
def writeElements (level : Nat) : List Json → List String
  | [] => []
  | element :: rest => write level element :: writeElements level rest

/-- The texts of the members of an object. -/
def writeMembers (level : Nat) : List (String × Json) → List String
  | [] => []
  | (key, value) :: rest => (quote key ++ ": " ++ write level value) :: writeMembers level rest

end

/-- The text of a value, over several lines and without a newline at the end. -/
def pretty (value : Json) : String :=
  write 0 value

end Json

end Offside
