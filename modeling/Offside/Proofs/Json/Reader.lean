import Mathlib.Data.List.Forall2
import Mathlib.Tactic.SplitIfs
import Offside.Json.Basic
import Offside.Proofs.Python.Token

/-!
# Reading JSON

A reader for JSON texts, written from the grammar alone: it knows nothing of how `Json.pretty` lays
a value out. Numbers with a fraction or an exponent are refused, as `Json` has no value for them.

* `tokenize` cuts a text into marks, strings and bare words (`null`, `true`, `false` and integers),
  with any white space between them. In a string every escape of the grammar is known, a pair of
  surrogates included, and a control character must be escaped.
* `step` is a pushdown machine over these tokens. Its `State` says what may come next, its frames
  are the lists and objects that are still open.
* `read?` runs the machine and gives the value that is left when all are closed.

The main statement is `read?_pretty`: reading gives back every value that is written. It is the
composition of `spells_write`, a written value is cut into the value's own tokens, and
`run_tokens`, the machine builds a value from its own tokens.
-/

namespace Offside

namespace Json

/-! ### Characters of a string -/

/-- The value of a hexadecimal digit, in either case. -/
def hexValue? (c : Char) : Option Nat :=
  if c.isDigit then some (c.toNat - '0'.toNat)
  else if 'a' ≤ c ∧ c ≤ 'f' then some (c.toNat - 'a'.toNat + 10)
  else if 'A' ≤ c ∧ c ≤ 'F' then some (c.toNat - 'A'.toNat + 10)
  else none

/-- The number that the four hexadecimal digits at the start of a text write. -/
def hexUnit? : List Char → Option (Nat × List Char)
  | a :: b :: c :: d :: rest =>
    ([a, b, c, d].mapM hexValue?).map fun digits => (digits.foldl (16 * · + ·) 0, rest)
  | _ => none

/-- The character whose number stands behind `\u`. One above U+FFFF takes two numbers, a high and a
low surrogate; neither of them stands alone. -/
def unicode? (text : List Char) : Option (Char × List Char) :=
  match hexUnit? text with
  | none => none
  | some (unit, rest) =>
    if unit.isValidChar then some (Char.ofNat unit, rest)
    else if 0xDC00 ≤ unit then none
    else
      match rest with
      | '\\' :: 'u' :: text =>
        match hexUnit? text with
        | none => none
        | some (low, rest) =>
          if 0xDC00 ≤ low ∧ low < 0xE000 then
            some (Char.ofNat (0x10000 + (unit - 0xD800) * 0x400 + (low - 0xDC00)), rest)
          else none
      | _ => none

/-- The characters that are written as a backslash and a single letter or mark. -/
def shortEscapes : List (Char × Char) :=
  [('"', '"'), ('\\', '\\'), ('/', '/'), ('b', '\x08'), ('f', '\x0c'), ('n', '\n'), ('r', '\r'),
    ('t', '\t')]

/-- The first character inside a string, and what follows it. -/
def character? : List Char → Option (Char × List Char)
  | [] => none
  | '\\' :: 'u' :: rest => unicode? rest
  | '\\' :: c :: rest => (shortEscapes.lookup c).map fun char => (char, rest)
  | c :: rest => if c = '"' ∨ c = '\\' ∨ c.toNat < 0x20 then none else some (c, rest)

theorem suffix_of_hexUnit? {text rest : List Char} {unit : Nat}
    (h : hexUnit? text = some (unit, rest)) : rest <:+ text := by
  unfold hexUnit? at h
  split at h
  · next a b c d rest' =>
    obtain ⟨digits, -, heq⟩ := Option.map_eq_some_iff.mp h
    obtain ⟨-, rfl⟩ := Prod.mk.inj heq
    exact List.suffix_append [a, b, c, d] rest'
  · simp at h

theorem suffix_of_unicode? {text rest : List Char} {char : Char}
    (h : unicode? text = some (char, rest)) : rest <:+ text := by
  unfold unicode? at h
  split at h
  · simp at h
  · next unit rest₁ hunit =>
    have hfirst := suffix_of_hexUnit? hunit
    split at h
    · obtain ⟨-, rfl⟩ := Prod.mk.inj (Option.some.inj h)
      exact hfirst
    · split at h
      · simp at h
      · split at h
        · next text₂ =>
          split at h
          · simp at h
          · next low rest₂ hlow =>
            split at h
            · obtain ⟨-, rfl⟩ := Prod.mk.inj (Option.some.inj h)
              have hmark := List.suffix_append ['\\', 'u'] text₂
              exact ((suffix_of_hexUnit? hlow).trans hmark).trans hfirst
            · simp at h
        · simp at h

/-- Every character takes at least one of the text. -/
theorem length_lt_of_character? {text rest : List Char} {char : Char}
    (h : character? text = some (char, rest)) : rest.length < text.length := by
  unfold character? at h
  split at h
  · simp at h
  · have := (suffix_of_unicode? h).length_le
    simp only [List.length_cons]
    omega
  · obtain ⟨_, -, heq⟩ := Option.map_eq_some_iff.mp h
    obtain ⟨-, rfl⟩ := Prod.mk.inj heq
    simp only [List.length_cons]
    omega
  · split at h
    · simp at h
    · obtain ⟨-, rfl⟩ := Prod.mk.inj (Option.some.inj h)
      simp

/-- What stands inside a string up to its closing quote, and what follows the quote. -/
def stringRest? (text : List Char) : Option (List Char × List Char) :=
  if text.head? = some '"' then some ([], text.tail)
  else
    match _h : character? text with
    | none => none
    | some (char, rest) => (stringRest? rest).map fun (chars, after) => (char :: chars, after)
termination_by text.length
decreasing_by exact length_lt_of_character? _h

theorem length_le_of_stringRest? {text chars after : List Char}
    (h : stringRest? text = some (chars, after)) : after.length ≤ text.length := by
  fun_induction stringRest? text generalizing chars after with
  | case1 text hquote =>
    obtain ⟨-, rfl⟩ := Prod.mk.inj (Option.some.inj h)
    simp
  | case2 => simp at h
  | case3 text hquote char rest hchar ih =>
    obtain ⟨⟨chars', after'⟩, hrest, heq⟩ := Option.map_eq_some_iff.mp h
    obtain ⟨-, rfl⟩ := Prod.mk.inj heq
    have := length_lt_of_character? hchar
    have := ih hrest
    omega

/-! ### Tokens -/

/-- A token of JSON. -/
inductive Token where
  | leftBracket
  | rightBracket
  | leftBrace
  | rightBrace
  | comma
  | colon
  | null
  | bool (value : Bool)
  | int (value : Int)
  | str (value : String)
deriving DecidableEq

/-- The token that a mark is. -/
def markToken? : Char → Option Token
  | '[' => some .leftBracket
  | ']' => some .rightBracket
  | '\x7b' => some .leftBrace
  | '\x7d' => some .rightBrace
  | ',' => some .comma
  | ':' => some .colon
  | _ => none

/-- The number that decimal digits write. Only `0` itself starts with the digit zero. -/
def natural? (digits : List Char) : Option Nat :=
  if digits = [] ∨ ¬ digits.all Char.isDigit then none
  else if digits.head? = some '0' ∧ digits ≠ ['0'] then none
  else some (decimalValue digits)

/-- The integer that a word writes. -/
def integer? : List Char → Option Int
  | '-' :: digits => (natural? digits).map fun n => -n
  | digits => (natural? digits).map fun n => n

/-- The words that are values. -/
def literals : List (String × Token) :=
  [("null", .null), ("true", .bool true), ("false", .bool false)]

/-- The token that a bare word is. -/
def wordToken? (word : List Char) : Option Token :=
  (integer? word).map .int <|> literals.lookup (String.ofList word)

/-- A character of a bare word. -/
def isWordChar (c : Char) : Bool :=
  c.isAlphanum || c == '-' || c == '+' || c == '.'

/-- The first token of the text `c :: rest`, and what follows it. -/
def cutToken? (c : Char) (rest : List Char) : Option (Token × List Char) :=
  match markToken? c with
  | some mark => some (mark, rest)
  | none =>
    if c = '"' then (stringRest? rest).map fun (chars, after) => (.str (String.ofList chars), after)
    else if isWordChar c then
      (wordToken? ((c :: rest).takeWhile isWordChar)).map fun token =>
        (token, (c :: rest).dropWhile isWordChar)
    else none

/-- White space. -/
def isSpace (c : Char) : Bool :=
  c == ' ' || c == '\t' || c == '\n' || c == '\r'

theorem length_lt_of_cutToken? {c : Char} {rest after : List Char} {token : Token}
    (h : cutToken? c rest = some (token, after)) : after.length < (c :: rest).length := by
  unfold cutToken? at h
  split at h
  · obtain ⟨-, rfl⟩ := Prod.mk.inj (Option.some.inj h)
    simp
  · split at h
    · obtain ⟨⟨chars, after'⟩, hrest, heq⟩ := Option.map_eq_some_iff.mp h
      obtain ⟨-, rfl⟩ := Prod.mk.inj heq
      have := length_le_of_stringRest? hrest
      simp only [List.length_cons]
      omega
    · split at h
      · next hc =>
        obtain ⟨_, -, heq⟩ := Option.map_eq_some_iff.mp h
        obtain ⟨-, rfl⟩ := Prod.mk.inj heq
        rw [List.dropWhile_cons_of_pos hc]
        have := (List.dropWhile_suffix isWordChar (l := rest)).length_le
        simp only [List.length_cons]
        omega
      · simp at h

/-- The tokens of a text. -/
def tokenize : List Char → Option (List Token)
  | [] => some []
  | c :: rest =>
    if isSpace c then tokenize rest
    else
      match _h : cutToken? c rest with
      | none => none
      | some (token, after) => (tokenize after).map (token :: ·)
termination_by text => text.length
decreasing_by
  · simp
  · exact length_lt_of_cutToken? _h

/-! ### The machine -/

/-- A list or an object that has been opened and not yet closed, with what has been read of it, the
last part first. In an object the next value belongs to `key`. -/
inductive Frame where
  | arr (done : List Json)
  | obj (done : List (String × Json)) (key : String)

/-- What has been read and what may come next. The frames stand in the order in which they are
closed. -/
inductive State where
  /-- A value comes next. -/
  | value (frames : List Frame)
  /-- A list has just been opened. -/
  | element (frames : List Frame)
  /-- An object has just been opened. -/
  | member (frames : List Frame)
  /-- The key of a further member comes next. -/
  | key (done : List (String × Json)) (frames : List Frame)
  /-- A key has been read. -/
  | colon (done : List (String × Json)) (key : String) (frames : List Frame)
  /-- A value has been read. -/
  | read (value : Json) (frames : List Frame)

/-- The first token of a value. -/
def begin? (frames : List Frame) : Token → Option State
  | .null => some (.read null frames)
  | .bool value => some (.read (bool value) frames)
  | .int value => some (.read (int value) frames)
  | .str value => some (.read (str value) frames)
  | .leftBracket => some (.element frames)
  | .leftBrace => some (.member frames)
  | _ => none

/-- What a token does. -/
def step : State → Token → Option State
  | .value frames, token => begin? frames token
  | .element frames, .rightBracket => some (.read (arr []) frames)
  | .element frames, token => begin? (.arr [] :: frames) token
  | .member frames, .rightBrace => some (.read (obj []) frames)
  | .member frames, .str key => some (.colon [] key frames)
  | .key done frames, .str key => some (.colon done key frames)
  | .colon done key frames, .colon => some (.value (.obj done key :: frames))
  | .read value (.arr done :: frames), .comma => some (.value (.arr (value :: done) :: frames))
  | .read value (.arr done :: frames), .rightBracket =>
    some (.read (arr (value :: done).reverse) frames)
  | .read value (.obj done key :: frames), .comma => some (.key ((key, value) :: done) frames)
  | .read value (.obj done key :: frames), .rightBrace =>
    some (.read (obj ((key, value) :: done).reverse) frames)
  | _, _ => none

/-- What tokens do, one after the other. -/
def run (tokens : List Token) (state : State) : Option State :=
  tokens.foldlM step state

/-- The value that has been read, if nothing is open. -/
def State.result? : State → Option Json
  | .read json [] => some json
  | _ => none

/-- The value of a text. -/
def read? (text : String) : Option Json := do
  let tokens ← tokenize text.toList
  let state ← run tokens (.value [])
  state.result?

/-! ### The tokens of a value -/

mutual

/-- The tokens that make up a value. -/
def tokens : Json → List Token
  | null => [.null]
  | bool value => [.bool value]
  | int value => [.int value]
  | str value => [.str value]
  | arr elements =>
    .leftBracket :: List.intercalate [.comma] (elementTokens elements) ++ [.rightBracket]
  | obj members => .leftBrace :: List.intercalate [.comma] (memberTokens members) ++ [.rightBrace]

/-- The tokens of the elements of a list. -/
def elementTokens : List Json → List (List Token)
  | [] => []
  | element :: rest => tokens element :: elementTokens rest

/-- The tokens of the members of an object. -/
def memberTokens : List (String × Json) → List (List Token)
  | [] => []
  | (key, value) :: rest => (.str key :: .colon :: tokens value) :: memberTokens rest

end

theorem run_cons (token : Token) (rest : List Token) (state : State) :
    run (token :: rest) state = (step state token).bind (run rest) := by
  rw [run, List.foldlM_cons]
  rfl

theorem exists_intercalate_cons (first : List Token) (more : List (List Token)) :
    ∃ after, List.intercalate [.comma] (first :: more) = first ++ after := by
  cases more with
  | nil => exact ⟨[], by simp⟩
  | cons second more => exact ⟨_, by rw [List.intercalate_cons_cons, List.append_assoc]⟩

/-- A list that is not closed at once has a first element, read like every other value. -/
theorem run_element (value : Json) (frames : List Frame) (rest : List Token) :
    run (tokens value ++ rest) (.element frames)
      = run (tokens value ++ rest) (.value (.arr [] :: frames)) := by
  cases value <;> simp only [tokens, List.cons_append, run_cons] <;> rfl

/-- An object that is not closed at once has a first key, read like every other key. -/
theorem run_member (key : String) (frames : List Frame) (rest : List Token) :
    run (.str key :: rest) (.member frames) = run (.str key :: rest) (.key [] frames) := by
  rw [run_cons, run_cons]
  rfl

mutual

/-- The machine builds a value from its tokens. -/
theorem run_tokens (value : Json) (frames : List Frame) (rest : List Token) :
    run (tokens value ++ rest) (.value frames) = run rest (.read value frames) := by
  cases value with
  | null => simp [tokens, run_cons, step, begin?]
  | bool => simp [tokens, run_cons, step, begin?]
  | int => simp [tokens, run_cons, step, begin?]
  | str => simp [tokens, run_cons, step, begin?]
  | arr elements =>
    have hopen : step (.value frames) .leftBracket = some (.element frames) := rfl
    rw [tokens, List.cons_append, List.cons_append, run_cons, hopen, Option.bind_some,
      List.append_assoc, List.singleton_append]
    cases elements with
    | nil => simp [elementTokens, run_cons, step]
    | cons first more =>
      have helements := run_elements (first :: more) [] frames rest (List.cons_ne_nil _ _)
      -- Only the first token tells the state of an empty list from that of one with elements.
      obtain ⟨after, hafter⟩ := exists_intercalate_cons (tokens first) (elementTokens more)
      rw [elementTokens, hafter, List.append_assoc] at helements ⊢
      rw [run_element, helements]
      rfl
  | obj members =>
    have hopen : step (.value frames) .leftBrace = some (.member frames) := rfl
    rw [tokens, List.cons_append, List.cons_append, run_cons, hopen, Option.bind_some,
      List.append_assoc, List.singleton_append]
    cases members with
    | nil => simp [memberTokens, run_cons, step]
    | cons first more =>
      have hmembers := run_members (first :: more) [] frames rest (List.cons_ne_nil _ _)
      obtain ⟨after, hafter⟩ := exists_intercalate_cons (.str first.1 :: .colon :: tokens first.2)
        (memberTokens more)
      rw [memberTokens, hafter, List.append_assoc, List.cons_append] at hmembers ⊢
      rw [run_member, hmembers]
      rfl

/-- The elements of an open list are read up to the bracket that closes it. -/
theorem run_elements (elements : List Json) (done : List Json) (frames : List Frame)
    (rest : List Token) (h : elements ≠ []) :
    run (List.intercalate [.comma] (elementTokens elements) ++ .rightBracket :: rest)
        (.value (.arr done :: frames))
      = run rest (.read (arr (done.reverse ++ elements)) frames) := by
  cases elements with
  | nil => exact absurd rfl h
  | cons first more =>
    cases more with
    | nil =>
      rw [elementTokens, elementTokens, List.intercalate_singleton, run_tokens first, run_cons]
      simp [step]
    | cons second more =>
      have hcomma : step (.read first (.arr done :: frames)) .comma
          = some (.value (.arr (first :: done) :: frames)) := rfl
      have hmore := run_elements (second :: more) (first :: done) frames rest
        (List.cons_ne_nil _ _)
      rw [elementTokens] at hmore
      rw [elementTokens, elementTokens, List.intercalate_cons_cons, List.append_assoc,
        List.append_assoc, run_tokens first, List.singleton_append, run_cons, hcomma,
        Option.bind_some, hmore, List.reverse_cons, List.append_assoc, List.singleton_append]

/-- The members of an open object are read up to the brace that closes it. -/
theorem run_members (members : List (String × Json)) (done : List (String × Json))
    (frames : List Frame) (rest : List Token) (h : members ≠ []) :
    run (List.intercalate [.comma] (memberTokens members) ++ .rightBrace :: rest)
        (.key done frames)
      = run rest (.read (obj (done.reverse ++ members)) frames) := by
  cases members with
  | nil => exact absurd rfl h
  | cons first more =>
    cases first with
    | mk key value =>
      cases more with
      | nil =>
        rw [memberTokens, memberTokens, List.intercalate_singleton, List.cons_append,
          List.cons_append, run_cons, step, Option.bind_some, run_cons, step, Option.bind_some,
          run_tokens value, run_cons]
        simp [step]
      | cons second more =>
        have hcomma : step (.read value (.obj done key :: frames)) .comma
            = some (.key ((key, value) :: done) frames) := rfl
        have hmore := run_members (second :: more) ((key, value) :: done) frames rest
          (List.cons_ne_nil _ _)
        rw [memberTokens] at hmore
        rw [memberTokens, memberTokens, List.intercalate_cons_cons, List.append_assoc,
          List.append_assoc, List.cons_append, List.cons_append, run_cons, step, Option.bind_some,
          run_cons, step, Option.bind_some, run_tokens value, List.singleton_append, run_cons,
          hcomma, Option.bind_some, hmore, List.reverse_cons, List.append_assoc,
          List.singleton_append]

end

/-! ### Texts and their tokens -/

@[simp]
theorem tokenize_nil : tokenize [] = some [] := by
  rw [tokenize]

theorem tokenize_of_cutToken? {c : Char} {rest after : List Char} {token : Token}
    (hc : isSpace c = false) (h : cutToken? c rest = some (token, after)) :
    tokenize (c :: rest) = (tokenize after).map (token :: ·) := by
  rw [tokenize, if_neg (by simp [hc])]
  split
  · next hnone => simp [h] at hnone
  · next token' after' hsome =>
    obtain ⟨rfl, rfl⟩ : token = token' ∧ after = after' := by simpa [h] using hsome
    rfl

/-- Cutting `text` gives `tokens` first and then the tokens of `rest`. -/
def Cuts (text : List Char) (tokens : List Token) (rest : List Char) : Prop :=
  tokenize text = (tokenize rest).map (tokens ++ ·)

theorem Cuts.trans {a b c : List Char} {ta tb : List Token} (hab : Cuts a ta b)
    (hbc : Cuts b tb c) : Cuts a (ta ++ tb) c := by
  rw [Cuts, hab, hbc, Option.map_map]
  congr 1
  funext tokens
  simp

theorem cuts_space {c : Char} (hc : isSpace c) (rest : List Char) : Cuts (c :: rest) [] rest := by
  rw [Cuts, tokenize, if_pos hc]
  exact Option.map_id'.symm

/-- A mark is neither a blank nor part of a bare word. -/
theorem chars_of_markToken? {c : Char} {token : Token} (h : markToken? c = some token) :
    isSpace c = false ∧ isWordChar c = false := by
  unfold markToken? at h
  split at h
  case h_7 => cases h
  all_goals exact ⟨rfl, rfl⟩

theorem cuts_mark {c : Char} {token : Token} (h : markToken? c = some token) (rest : List Char) :
    Cuts (c :: rest) [token] rest := by
  refine tokenize_of_cutToken? (chars_of_markToken? h).1 ?_
  rw [cutToken?, h]

/-- The margin of a line does not count. -/
theorem cuts_margin (level : Nat) (rest : List Char) :
    Cuts ((margin level).toList ++ rest) [] rest := by
  rw [margin]
  induction 2 * level generalizing rest with
  | zero => exact Option.map_id'.symm
  | succ n ih =>
    have hsucc : "".pushn ' ' (n + 1) = ("".pushn ' ' n).push ' ' := rfl
    rw [hsucc, String.toList_push, List.append_assoc]
    exact (ih _).trans (cuts_space rfl rest)

/-- A text in front of which every bare word ends. -/
def Breaks (rest : List Char) : Prop :=
  ∀ c ∈ rest.head?, ¬ isWordChar c

theorem breaks_cons {c : Char} (hc : isWordChar c = false) (rest : List Char) :
    Breaks (c :: rest) := by
  simpa [Breaks] using hc

/-- `text` is cut into `tokens` wherever a bare word at its end is complete. -/
def Spells (text : String) (tokens : List Token) : Prop :=
  ∀ rest, Breaks rest → Cuts (text.toList ++ rest) tokens rest

/-- Four digits write the number of a control character. -/
theorem hexUnit?_control {n : Nat} (h : n < 0x20) (rest : List Char) :
    hexUnit? ('0' :: '0' :: hexDigit (n / 16) :: hexDigit (n % 16) :: rest) = some (n, rest) := by
  have hdigits : ∀ n < 0x20, (['0', '0', hexDigit (n / 16), hexDigit (n % 16)].mapM hexValue?).map
      (List.foldl (16 * · + ·) 0) = some n := by decide
  obtain ⟨digits, hmap, hfold⟩ := Option.map_eq_some_iff.mp (hdigits n h)
  rw [hexUnit?, hmap, Option.map_some, hfold]

theorem unicode?_control {c : Char} (h : c.toNat < 0x20) (rest : List Char) :
    unicode? ('0' :: '0' :: hexDigit (c.toNat / 16) :: hexDigit (c.toNat % 16) :: rest)
      = some (c, rest) := by
  rw [unicode?, hexUnit?_control h]
  simp only [if_pos (show c.toNat.isValidChar from c.valid), Char.ofNat_toNat]

/-- Every character is read back from what is written for it. -/
theorem character?_escape (c : Char) (rest : List Char) :
    character? (escape c ++ rest) = some (c, rest) := by
  unfold escape
  -- The cases stand in the order in which `escape` asks; the last two are all other characters.
  split_ifs with hquote hbackslash hb ht hn hf hr hcontrol
  · subst hquote
    rfl
  · subst hbackslash
    rfl
  · exact hb ▸ rfl
  · exact ht ▸ rfl
  · exact hn ▸ rfl
  · exact hf ▸ rfl
  · exact hr ▸ rfl
  · exact unicode?_control hcontrol rest
  · rw [List.singleton_append, character?, if_neg (by simp [hquote, hbackslash, hcontrol])]
    · intro _ heq
      exact absurd heq hbackslash
    · intro _ _ heq
      exact absurd heq hbackslash

theorem head?_escape (c : Char) (rest : List Char) : (escape c ++ rest).head? ≠ some '"' := by
  unfold escape
  split_ifs with hquote
  case neg => simpa using hquote
  all_goals simp

/-- The inside of a string is read back up to the closing quote. -/
theorem stringRest?_escape (chars rest : List Char) :
    stringRest? (chars.flatMap escape ++ '"' :: rest) = some (chars, rest) := by
  induction chars with
  | nil =>
    rw [stringRest?]
    rfl
  | cons c chars ih =>
    rw [List.flatMap_cons, List.append_assoc, stringRest?, if_neg (head?_escape c _)]
    split
    · next hnone => simp [character?_escape] at hnone
    · next char after hsome =>
      obtain ⟨rfl, rfl⟩ := Prod.mk.inj (Option.some.inj ((character?_escape c _).symm.trans hsome))
      rw [ih]
      rfl

/-- A quoted text is one token, whatever follows it. -/
theorem cuts_quote (text : String) (rest : List Char) :
    Cuts ((quote text).toList ++ rest) [.str text] rest := by
  have hchars : (quote text).toList ++ rest
      = '"' :: (text.toList.flatMap escape ++ '"' :: rest) := by
    simp [quote]
  rw [hchars]
  refine tokenize_of_cutToken? rfl ?_
  have hmark : markToken? '"' = none := rfl
  simp only [cutToken?, hmark, if_true, stringRest?_escape, Option.map_some, String.ofList_toList]

/-- A bare word is one token. -/
theorem spells_word {word : List Char} {token : Token} (h : wordToken? word = some token)
    (hword : ∀ c ∈ word, isWordChar c) : Spells (String.ofList word) [token] := by
  intro rest hrest
  obtain ⟨c, text, rfl⟩ : ∃ c text, word = c :: text := by
    cases word with
    | nil => cases h
    | cons c text => exact ⟨c, text, rfl⟩
  have hc : isWordChar c := hword c List.mem_cons_self
  obtain ⟨htake, hdrop⟩ := Python.takeWhile_append_of_breaks rest hword hrest
  have hcut : cutToken? c (text ++ rest) = some (token, rest) := by
    have hmark : markToken? c = none := Option.eq_none_iff_forall_ne_some.mpr fun mark hmark =>
      Bool.eq_false_iff.mp (chars_of_markToken? hmark).2 hc
    have hquote : c ≠ '"' := by
      rintro rfl
      exact absurd hc (by decide)
    rw [List.cons_append] at htake hdrop
    simp only [cutToken?, hmark, if_neg hquote, if_pos hc, htake, hdrop, h, Option.map_some]
  have hspace : isSpace c = false := by
    refine Bool.eq_false_iff.mpr fun hspace => ?_
    simp only [isSpace, Bool.or_eq_true, beq_iff_eq] at hspace
    rcases hspace with ((rfl | rfl) | rfl) | rfl <;> exact absurd hc (by decide)
  rw [String.toList_ofList, List.cons_append]
  exact tokenize_of_cutToken? hspace hcut

theorem natural?_toDigits (n : Nat) : natural? (Nat.toDigits 10 n) = some n := by
  have hvalue : decimalValue (Nat.toDigits 10 n) = n := Nat.ofDigitChars_ten_toDigits
  have hdigits : (Nat.toDigits 10 n).all Char.isDigit := List.all_eq_true.mpr fun c hc =>
    Nat.isDigit_of_mem_toDigits (by decide) (by decide) hc
  have hzero : ¬ ((Nat.toDigits 10 n).head? = some '0' ∧ Nat.toDigits 10 n ≠ ['0']) := by
    rintro ⟨hhead, hne⟩
    obtain rfl := Python.eq_zero_of_head?_toDigits hhead
    exact hne (Nat.toDigits_zero 10)
  rw [natural?, if_neg (by simp [hdigits, Nat.toDigits_ne_nil]), if_neg hzero, hvalue]

/-- The text of an integer is read back. -/
theorem integer?_repr (value : Int) : integer? value.repr.toList = some value := by
  cases value with
  | ofNat n =>
    have hrepr : (Int.ofNat n).repr.toList = Nat.toDigits 10 n := Nat.toList_repr
    rw [hrepr, integer?, natural?_toDigits]
    · rfl
    · intro digits heq
      have hminus : '-' ∈ Nat.toDigits 10 n := heq ▸ List.mem_cons_self
      exact absurd (Nat.isDigit_of_mem_toDigits (by decide) (by decide) hminus) (by decide)
  | negSucc n =>
    have hrepr : (Int.negSucc n).repr.toList = '-' :: Nat.toDigits 10 (n + 1) := by
      rw [← Nat.toList_repr]
      exact String.toList_append
    rw [hrepr, integer?, natural?_toDigits]
    rfl

theorem isWordChar_of_isDigit {c : Char} (h : c.isDigit) : isWordChar c := by
  simp [isWordChar, Char.isAlphanum, h]

theorem isWordChar_of_mem_repr {value : Int} {c : Char} (h : c ∈ value.repr.toList) :
    isWordChar c := by
  have hdigit : ∀ n : Nat, c ∈ n.repr.toList → isWordChar c := by
    intro n hc
    rw [Nat.toList_repr] at hc
    exact isWordChar_of_isDigit (Nat.isDigit_of_mem_toDigits (by decide) (by decide) hc)
  cases value with
  | ofNat n => exact hdigit n h
  | negSucc n =>
    have hrepr : (Int.negSucc n).repr.toList = '-' :: (n + 1).repr.toList := String.toList_append
    rw [hrepr, List.mem_cons] at h
    rcases h with rfl | h
    · rfl
    · exact hdigit (n + 1) h

/-- An integer is one bare word. -/
theorem spells_int (value : Int) : Spells value.repr [.int value] := by
  have hword : wordToken? value.repr.toList = some (.int value) := by
    rw [wordToken?, integer?_repr]
    rfl
  have hspells := spells_word hword fun c hc => isWordChar_of_mem_repr hc
  rwa [String.ofList_toList] at hspells

/-- The parts of a list or an object are cut one by one, with the commas between them. -/
theorem spells_intercalate (level : Nat) {parts : List String} {tokens : List (List Token)}
    (h : List.Forall₂ Spells parts tokens) :
    Spells (String.intercalate (",\n" ++ margin level) parts)
      (List.intercalate [.comma] tokens) := by
  induction h with
  | nil =>
    intro rest _
    exact Option.map_id'.symm
  | cons hpart hparts ih =>
    cases hparts with
    | nil =>
      rw [String.intercalate_singleton, List.intercalate_singleton]
      exact hpart
    | cons hsecond hmore =>
      intro rest hrest
      have hcuts := (hpart _ (breaks_cons rfl _)).trans <| (cuts_mark (c := ',') rfl _).trans <|
        (cuts_space (c := '\n') rfl _).trans <| (cuts_margin level _).trans (ih rest hrest)
      rw [String.intercalate_cons_cons, List.intercalate_cons_cons]
      simpa using hcuts

/-- The text of a list or an object is cut into its brackets and what stands between them. -/
theorem spells_enclose {left right : String} {opening closing : Token} (level : Nat)
    {parts : List String} {tokens : List (List Token)}
    (hleft : ∀ rest, Cuts (left.toList ++ rest) [opening] rest)
    (hright : ∀ rest, Cuts (right.toList ++ rest) [closing] rest)
    (h : List.Forall₂ Spells parts tokens) :
    Spells (enclose left right level parts)
      (opening :: List.intercalate [.comma] tokens ++ [closing]) := by
  intro rest hrest
  by_cases hempty : parts = []
  · subst hempty
    cases h
    simpa [enclose] using (hleft _).trans (hright rest)
  · have hcuts := (hleft _).trans <| (cuts_space (c := '\n') rfl _).trans <|
      (cuts_margin (level + 1) _).trans <|
      (spells_intercalate (level + 1) h _ (breaks_cons (c := '\n') rfl _)).trans <|
      (cuts_space rfl _).trans <| (cuts_margin level _).trans (hright rest)
    rw [enclose, if_neg (by simpa using hempty)]
    simpa using hcuts

mutual

/-- A written value is cut into the tokens of the value. -/
theorem spells_write (value : Json) (level : Nat) : Spells (write level value) (tokens value) := by
  cases value with
  | null => exact spells_word rfl (List.all_eq_true.mp rfl)
  | bool value =>
    cases value with
    | false => exact spells_word rfl (List.all_eq_true.mp rfl)
    | true => exact spells_word rfl (List.all_eq_true.mp rfl)
  | int value => exact spells_int value
  | str text => exact fun rest _ => cuts_quote text rest
  | arr elements =>
    exact spells_enclose level (cuts_mark (c := '[') rfl) (cuts_mark (c := ']') rfl)
      (spells_writeElements elements (level + 1))
  | obj members =>
    exact spells_enclose level (cuts_mark (c := '\x7b') rfl) (cuts_mark (c := '\x7d') rfl)
      (spells_writeMembers members (level + 1))

theorem spells_writeElements (elements : List Json) (level : Nat) :
    List.Forall₂ Spells (writeElements level elements) (elementTokens elements) := by
  cases elements with
  | nil => exact .nil
  | cons first more => exact .cons (spells_write first level) (spells_writeElements more level)

theorem spells_writeMembers (members : List (String × Json)) (level : Nat) :
    List.Forall₂ Spells (writeMembers level members) (memberTokens members) := by
  cases members with
  | nil => exact .nil
  | cons first more =>
    cases first with
    | mk key value =>
      refine .cons (fun rest hrest => ?_) (spells_writeMembers more level)
      have hcuts := (cuts_quote key _).trans <| (cuts_mark (c := ':') rfl _).trans <|
        (cuts_space (c := ' ') rfl _).trans (spells_write value level rest hrest)
      simpa using hcuts

end

/-- Every value is read back from its text. -/
theorem read?_pretty (value : Json) : read? value.pretty = some value := by
  have hcuts : Cuts value.pretty.toList (tokens value) [] := by
    simpa [pretty] using spells_write value 0 [] (by simp [Breaks])
  have htokens : tokenize value.pretty.toList = some (tokens value) := by
    simpa [Cuts] using hcuts
  have hrun : run (tokens value) (.value []) = some (.read value []) := by
    simpa [run] using run_tokens value [] []
  simp [read?, htokens, hrun, State.result?]

end Json

end Offside
