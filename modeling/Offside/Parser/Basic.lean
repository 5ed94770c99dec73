import Offside.Token.Basic
import Offside.Diagnostic

/-!
# Parsers over tokens

A `Parser` reads from the front of a list of tokens. Its state is what is left of that list, and
a parser that fails keeps it: the fault says what went wrong, the state where. Every parser looks
at most at the first token that is left.

* `peek?`, `advance`, `accept`, `expect` and `identifier` read single tokens.
* `unexpected` and `tooDeep` fail at the token that stands next.
* `many` repeats a step. A step that reads nothing ends the repetition, so it always ends.
-/

namespace Offside

/-- Programs may nest this many levels deep. -/
def nestingLimit : Nat := 256

/-- A parser takes tokens off a list and gives a value, or fails with the tokens it had left. -/
abbrev Parser := EStateM GrammarFault (List Token)

namespace Parser

variable {α : Type}

/-! ### Single tokens -/

/-- The next token. -/
def peek? : Parser (Option Token) := fun tokens =>
  .ok tokens.head? tokens

/-- The kind of the next token. -/
def peekKind? : Parser (Option Token.Kind) := fun tokens =>
  .ok (tokens.head?.map Token.kind) tokens

/-- The next token, if it is a mark. -/
def peekMark? : Parser (Option Mark) := fun tokens =>
  match tokens with
  | ⟨.mark mark, _⟩ :: _ => .ok (some mark) tokens
  | _ => .ok none tokens

/-- Have all tokens been read? -/
def atEnd : Parser Bool := fun tokens =>
  .ok tokens.isEmpty tokens

/-- Does a token of this kind stand next? -/
def nextIs (kind : Token.Kind) : Parser Bool := do
  return (← peekKind?) = some kind

/-- Drops the next token. -/
def advance : Parser Unit := fun tokens =>
  .ok () tokens.tail

/-- Fails because something else than the next token is needed here. -/
def unexpected (expected : String) : Parser α := fun tokens =>
  match tokens with
  | token :: _ =>
    .error (.unexpectedToken expected token.kind.describe token.span) tokens
  | [] => .error (.unexpectedEnd expected) []

/-- Fails because the next token would open one level too many. -/
def tooDeep : Parser α := fun tokens =>
  .error (.nestingTooDeep nestingLimit ((tokens.head?.map Token.span).getD .nowhere)) tokens

/-- Reads the mark if it stands next, and tells whether it did. -/
def accept (mark : Mark) : Parser Bool := do
  if ← nextIs (.mark mark) then
    advance
    return true
  else
    return false

/-- Reads the mark if it stands next. -/
def skip (mark : Mark) : Parser Unit := do
  let _ ← accept mark

/-- Reads the mark, which has to stand next. -/
def expect (mark : Mark) : Parser Unit := do
  if ← nextIs (.mark mark) then
    advance
  else
    unexpected (Token.Kind.mark mark).describe

/-- Reads a name. -/
def identifier : Parser String := do
  match ← peekKind? with
  | some (.identifier name) =>
    advance
    return name
  | _ => unexpected "identifier"

/-! ### Repetition -/

/-- Repeats `step` as long as it gives a value. A step that gives a value without reading a token
is the last one. -/
def many (step : Parser (Option α)) : Parser (List α) := fun tokens =>
  match step tokens with
  | .error fault rest => .error fault rest
  | .ok none rest => .ok [] rest
  | .ok (some first) rest =>
    if rest.length < tokens.length then
      match many step rest with
      | .ok others rest => .ok (first :: others) rest
      | .error fault rest => .error fault rest
    else
      .ok [first] rest
termination_by tokens => tokens.length

/-- Does the list of items end here, at its closing mark or at the end of the tokens? -/
def atClose (close : Mark) : Parser Bool := do
  return (← nextIs (.mark close)) || (← atEnd)

/-- Items separated by commas, up to but not including the closing mark. A comma may follow the
last one. -/
def items (close : Mark) (item : Parser α) : Parser (List α) := do
  if ← atClose close then
    return []
  let first ← item
  let others ← many do
    if ← accept .comma then
      if ← atClose close then return none else return some (← item)
    else
      return none
  return first :: others

/-- Items separated by commas, at least one and none after the last comma. -/
def separated (item : Parser α) : Parser (List α) := do
  let first ← item
  let others ← many do
    if ← accept .comma then return some (← item) else return none
  return first :: others

end Parser

end Offside
