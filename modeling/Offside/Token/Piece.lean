import Offside.Token.Basic
import Offside.Diagnostic

/-!
# Cutting a source text into pieces

A source text is cut, from left to right and without leaving anything out, into *pieces*: blanks,
tokens, and the two kinds of text that are skipped with a warning. Tokens and warnings are then
read off the pieces.

* `cut` takes the first piece off a text. What it takes and what it leaves make up the text
  (`cut_text_append_rest`), and it takes at least one character (`cut_text_ne_nil`).
* `Piece.scan` cuts a whole text and gives every piece its place.
* `tokens` and `lexicalFaults` are what the pieces of a source hold; `nextToken` reads pieces up
  to and including the next token.

The character classes are those of ASCII: no other character is a letter, a digit or a blank.
-/

namespace Offside

/-! ### Character classes -/

/-- Blank, tab, carriage return and line feed separate tokens. -/
def isBlank (c : Char) : Bool :=
  c == ' ' || c == '\t' || c == '\r' || c == '\n'

/-- A name starts with an ASCII letter or an underscore. -/
def isNameStart (c : Char) : Bool :=
  c.isAlpha || c == '_'

/-- A name goes on with ASCII letters, digits and underscores. -/
def isNameChar (c : Char) : Bool :=
  c.isAlphanum || c == '_'

/-! ### The first piece of a text -/

/-- What a stretch of source text is. -/
inductive Lexeme where
  /-- White space, or a comment. -/
  | blank
  | token (kind : Token.Kind)
  /-- A string literal whose closing quote is missing; it counts as the literal `raw`. -/
  | unclosed (raw : String)
  /-- A character with which no token starts. -/
  | illegal (char : Char)
  /-- A number that is too large. -/
  | oversized (digits : String)
deriving DecidableEq

/-- A text taken apart: its first piece and what follows it. -/
structure Cut where
  lexeme : Lexeme
  text : List Char
  rest : List Char

/-- The body of a block comment up to and including the first `*/`, or all of the text when there
is none; and what follows. -/
def commentBody : List Char → List Char × List Char
  | [] => ([], [])
  | '*' :: '/' :: rest => (['*', '/'], rest)
  | c :: rest => (c :: (commentBody rest).1, (commentBody rest).2)

/-- How a string literal goes on after its opening quote. -/
structure StringBody where
  /-- The text up to the closing quote, escapes as they are written. -/
  raw : List Char
  /-- Is there a closing quote? -/
  closed : Bool
  rest : List Char

/-- Puts characters in front of the body. -/
def StringBody.cons (c : Char) (body : StringBody) : StringBody :=
  { body with raw := c :: body.raw }

/-- A string literal runs up to the next quote that no backslash escapes. The end of the line and
the end of the text leave it open, and a backslash does not escape them. -/
def stringBody : List Char → StringBody
  | [] => ⟨[], false, []⟩
  | '"' :: rest => ⟨[], true, rest⟩
  | '\n' :: rest => ⟨[], false, '\n' :: rest⟩
  | ['\\'] => ⟨['\\'], false, []⟩
  | '\\' :: '\n' :: rest => ⟨['\\'], false, '\n' :: rest⟩
  | '\\' :: c :: rest => ((stringBody rest).cons c).cons '\\'
  | c :: rest => (stringBody rest).cons c

/-- What follows `.log`, if the text starts with it and it is not the start of a longer name. -/
def afterLog? : List Char → Option (List Char)
  | '.' :: 'l' :: 'o' :: 'g' :: rest =>
    if rest.head?.any isNameChar then none else some rest
  | _ => none

/-- A word that is not reserved is an identifier. -/
def wordKind (word : String) : Token.Kind :=
  match Keyword.ofSpelling? word with
  | some keyword => .keyword keyword
  | none => .identifier word

/-- The word at the start of a text. The name `console` with `.log` after it is one token. -/
def cutWord (text : List Char) : Cut :=
  let word := text.takeWhile isNameChar
  let rest := text.dropWhile isNameChar
  match if word = "console".toList then afterLog? rest else none with
  | some rest => ⟨.token .consoleLog, word ++ ".log".toList, rest⟩
  | none => ⟨.token (wordKind (String.ofList word)), word, rest⟩

/-- The largest number that a script can hold: the largest signed 64-bit integer. -/
def maxNumber : Nat := 9223372036854775807

/-- The value of a sequence of decimal digits. -/
def decimalValue (digits : List Char) : Nat :=
  Nat.ofDigitChars 10 digits 0

/-- The digits at the start of a text, as many as there are. -/
def cutNumber (text : List Char) : Cut :=
  let digits := text.takeWhile Char.isDigit
  let rest := text.dropWhile Char.isDigit
  let value := decimalValue digits
  if value ≤ maxNumber then
    ⟨.token (.number value), digits, rest⟩
  else
    ⟨.oversized (String.ofList digits), digits, rest⟩

/-- The string literal whose opening quote stands before the text. -/
def cutString (text : List Char) : Cut :=
  let body := stringBody text
  let raw := String.ofList body.raw
  if body.closed then
    ⟨.token (.string raw), '"' :: (body.raw ++ ['"']), body.rest⟩
  else
    ⟨.unclosed raw, '"' :: body.raw, body.rest⟩

/-- The mark at the start of a text; a character that starts none is illegal. -/
def cutMark (c : Char) (rest : List Char) : Cut :=
  match Mark.leading? (c :: rest) with
  | some mark =>
    let text := mark.spelling.toList
    ⟨.token (.mark mark), text, (c :: rest).drop text.length⟩
  | none => ⟨.illegal c, [c], rest⟩

/-- Takes the first piece off the text `c :: rest`. -/
def cut (c : Char) (rest : List Char) : Cut :=
  if isBlank c then
    ⟨.blank, [c], rest⟩
  else if isNameStart c then
    cutWord (c :: rest)
  else if c.isDigit then
    cutNumber (c :: rest)
  else if c = '"' then
    cutString rest
  else
    match c, rest with
    | '/', '/' :: rest =>
      ⟨.blank, '/' :: '/' :: rest.takeWhile (· != '\n'), rest.dropWhile (· != '\n')⟩
    | '/', '*' :: rest =>
      ⟨.blank, '/' :: '*' :: (commentBody rest).1, (commentBody rest).2⟩
    | c, rest => cutMark c rest

/-! ### Nothing is lost -/

theorem commentBody_append (text : List Char) :
    (commentBody text).1 ++ (commentBody text).2 = text := by
  fun_induction commentBody text with
  | case1 => rfl
  | case2 => rfl
  | case3 c rest _ ih => simp [ih]

/-- The text of a string literal after its opening quote, put together again. -/
def StringBody.text (body : StringBody) : List Char :=
  body.raw ++ (if body.closed then '"' :: body.rest else body.rest)

@[simp]
theorem StringBody.text_cons (c : Char) (body : StringBody) :
    (body.cons c).text = c :: body.text := rfl

theorem stringBody_text (text : List Char) : (stringBody text).text = text := by
  fun_induction stringBody text with
  | case1 => rfl
  | case2 => rfl
  | case3 => rfl
  | case4 => rfl
  | case5 => rfl
  | case6 c rest _ ih => simp [ih]
  | case7 c rest _ _ _ _ _ ih => simp [ih]

theorem afterLog?_eq_some {text rest : List Char} (h : afterLog? text = some rest) :
    ".log".toList ++ rest = text := by
  unfold afterLog? at h
  split at h
  · split at h <;> simp_all
  · simp at h

theorem cutWord_append (text : List Char) :
    (cutWord text).text ++ (cutWord text).rest = text := by
  have hsplit := List.takeWhile_append_dropWhile (p := isNameChar) (l := text)
  simp only [cutWord]
  split
  · next rest hlog =>
    split at hlog
    · rw [List.append_assoc, afterLog?_eq_some hlog, hsplit]
    · simp at hlog
  · exact hsplit

theorem cutNumber_append (text : List Char) :
    (cutNumber text).text ++ (cutNumber text).rest = text := by
  simp only [cutNumber]
  split <;> exact List.takeWhile_append_dropWhile

theorem cutString_append (text : List Char) :
    (cutString text).text ++ (cutString text).rest = '"' :: text := by
  have hbody := stringBody_text text
  simp only [StringBody.text] at hbody
  simp only [cutString]
  split <;> simp_all

theorem Mark.leading?_eq_some {text : List Char} {mark : Mark}
    (h : Mark.leading? text = some mark) : mark.spelling.toList <+: text := by
  have hfound := List.find?_some
    (p := fun mark : Mark => mark.spelling.toList.isPrefixOf text) h
  exact List.isPrefixOf_iff_prefix.mp hfound

theorem cutMark_append (c : Char) (rest : List Char) :
    (cutMark c rest).text ++ (cutMark c rest).rest = c :: rest := by
  simp only [cutMark]
  split
  · next mark hmark =>
    obtain ⟨after, hafter⟩ := Mark.leading?_eq_some hmark
    simp [← hafter]
  · rfl

/-- **Nothing is lost**: what `cut` takes and what it leaves make up the text. -/
theorem cut_text_append_rest (c : Char) (rest : List Char) :
    (cut c rest).text ++ (cut c rest).rest = c :: rest := by
  unfold cut
  split
  · rfl
  · split
    · exact cutWord_append _
    · split
      · exact cutNumber_append _
      · split
        · next h => rw [cutString_append, h]
        · split
          · simp
          · simp [commentBody_append]
          · exact cutMark_append _ _

/-! ### Every piece has a character -/

theorem Mark.spelling_ne_nil (mark : Mark) : mark.spelling.toList ≠ [] := by
  cases mark <;> simp [Mark.spelling]

theorem cutMark_text_ne_nil (c : Char) (rest : List Char) : (cutMark c rest).text ≠ [] := by
  simp only [cutMark]
  split
  · exact Mark.spelling_ne_nil _
  · simp

theorem isNameChar_of_isNameStart {c : Char} (h : isNameStart c) : isNameChar c := by
  simp only [isNameStart, isNameChar, Char.isAlphanum, Bool.or_eq_true] at *
  rcases h with h | h
  · exact .inl (.inl h)
  · exact .inr h

/-- **Progress**: `cut` takes at least one character. -/
theorem cut_text_ne_nil (c : Char) (rest : List Char) : (cut c rest).text ≠ [] := by
  unfold cut
  split
  · simp
  · split
    · next h =>
      simp only [cutWord]
      split <;> simp [isNameChar_of_isNameStart h]
    · split
      · next h =>
        simp only [cutNumber]
        split <;> simp [h]
      · split
        · simp only [cutString]
          split <;> simp
        · split
          · simp
          · simp
          · exact cutMark_text_ne_nil _ _

theorem length_cut_rest_lt (c : Char) (rest : List Char) :
    (cut c rest).rest.length < (c :: rest).length := by
  have hpos := List.length_pos_iff.mpr (cut_text_ne_nil c rest)
  have hsum := congrArg List.length (cut_text_append_rest c rest)
  rw [List.length_append] at hsum
  omega

/-! ### All pieces of a source -/

/-- A stretch of source text, what it is and where it lies. -/
structure Piece where
  lexeme : Lexeme
  text : List Char
  span : Span
deriving DecidableEq

namespace Piece

/-- Cuts a text that starts at the given offset and line into its pieces. -/
def scan (offset line : Nat) : List Char → List Piece
  | [] => []
  | c :: rest =>
    let first := cut c rest
    ⟨first.lexeme, first.text, ⟨offset, offset + first.text.length, line⟩⟩ ::
      scan (offset + first.text.length) (line + first.text.count '\n') first.rest
termination_by text => text.length
decreasing_by exact length_cut_rest_lt c rest

/-- The token that a piece holds. -/
def token? (piece : Piece) : Option Token :=
  match piece.lexeme with
  | .token kind => some ⟨kind, piece.span⟩
  | .unclosed raw => some ⟨.string raw, piece.span⟩
  | _ => none

/-- What is wrong with a piece. -/
def fault? (piece : Piece) : Option LexicalFault :=
  match piece.lexeme with
  | .unclosed _ => some (.unterminatedString piece.span)
  | .illegal c => some (.illegalCharacter c piece.span)
  | .oversized digits => some (.numberOverflow digits piece.span)
  | _ => none

end Piece

/-- The pieces of a whole source text. -/
def pieces (source : String) : List Piece :=
  Piece.scan 0 1 source.toList

/-- The tokens of a source text. -/
def tokens (source : String) : List Token :=
  (pieces source).filterMap Piece.token?

/-- What is wrong with a source text, from left to right. -/
def lexicalFaults (source : String) : List LexicalFault :=
  (pieces source).filterMap Piece.fault?

/-- One step of reading token by token. -/
structure NextToken where
  /-- The faults met on the way, that of the token itself included. -/
  faults : List LexicalFault
  /-- The token, unless the pieces end before one comes. -/
  token? : Option Token
  /-- The pieces after the token. -/
  rest : List Piece

/-- Reads pieces up to and including the next token. -/
def nextToken : List Piece → NextToken
  | [] => ⟨[], none, []⟩
  | piece :: rest =>
    match piece.token? with
    | some token => ⟨piece.fault?.toList, some token, rest⟩
    | none =>
      let next := nextToken rest
      { next with faults := piece.fault?.toList ++ next.faults }

end Offside
