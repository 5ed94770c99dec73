import Offside.Token.Piece

/-!
# Tokens of the output language

Python cuts a line of text into words, numbers, strings and operators. `tokenize` does so for the
part of the language that stands on one line and is written in ASCII outside of strings; it gives
`none` for everything else (floats, prefixed or triple-quoted strings, comments, a second line), so
that a text without the character NUL that it accepts is cut as Python cuts it.

* `reservedWords` cannot be names.
* `tokenize ends` takes blanks off and cuts the rest token by token, the longest operator first. The
  characters that `ends` names end the line, also inside a string. For Python these are the newline
  and the carriage return (`endsLine`); the writer of a line knows the newline only (`isNewline`).
* `Spells ends after text tokens` says that `text` is cut into `tokens` whatever stands behind it,
  as long as that is something `after` allows. Texts are put together with `Spells.append`.
-/

namespace Offside

/-- Does the character end a line of a script? -/
def isNewline (c : Char) : Bool :=
  c == '\n'

@[simp]
theorem isNewline_eq_false_iff {c : Char} : isNewline c = false ↔ c ≠ '\n' := by
  rw [isNewline, beq_eq_false_iff_ne]

namespace Python

/-- Does the character end a line of Python? -/
def endsLine (c : Char) : Bool :=
  c == '\n' || c == '\r'

variable {ends : Char → Bool}

/-! ### Words, operators, tokens -/

/-- The words that Python keeps for itself. -/
def reservedWords : List String :=
  ["False", "None", "True", "and", "as", "assert", "async", "await", "break", "class", "continue",
    "def", "del", "elif", "else", "except", "finally", "for", "from", "global", "if", "import",
    "in", "is", "lambda", "nonlocal", "not", "or", "pass", "raise", "return", "try", "while",
    "with", "yield"]

/-- The operators and delimiters of Python, the longer before the shorter. -/
def operators : List String :=
  ["**=", "//=", ">>=", "<<=", "...", "**", "//", ">>", "<<", "<=", ">=", "==", "!=", "->", "+=",
    "-=", "*=", "/=", "%=", "&=", "|=", "^=", "@=", ":=", "+", "-", "*", "/", "%", "@", "&", "|",
    "^", "~", "<", ">", "(", ")", "[", "]", "\x7b", "\x7d", ",", ":", ".", ";", "="]

/-- A token of Python. A string keeps the text between its quotes as it is written. -/
inductive Token where
  | keyword (word : String)
  | name (word : String)
  | number (value : Nat)
  | string (raw : String)
  | operator (spelling : String)
deriving DecidableEq

/-- A word that is not reserved is a name. -/
def Token.ofWord (word : String) : Token :=
  if word ∈ reservedWords then .keyword word else .name word

/-- Is the text an ASCII identifier? -/
def isIdentifier : List Char → Bool
  | [] => false
  | c :: rest => isNameStart c && rest.all isNameChar

/-! ### Cutting -/

/-- The word at the start of a text. Right before a quote it would belong to the string. -/
def cutWord? (text : List Char) : Option (Token × List Char) :=
  let rest := text.dropWhile isNameChar
  if rest.head? = some '"' then none
  else some (.ofWord (String.ofList (text.takeWhile isNameChar)), rest)

/-- The decimal integer at the start of a text. It does not run on into a name or a fraction, and
only zero starts with the digit zero. -/
def cutNumber? (text : List Char) : Option (Token × List Char) :=
  let digits := text.takeWhile Char.isDigit
  let rest := text.dropWhile Char.isDigit
  if rest.head?.any fun c => isNameChar c || c == '.' then none
  else if digits.head? = some '0' ∧ decimalValue digits ≠ 0 then none
  else some (.number (decimalValue digits), rest)

/-- The rest of a string behind its opening quote: what is inside and what follows the closing
quote. A backslash takes the next character along, and the line must not end inside. -/
def stringRest? (ends : Char → Bool) : List Char → Option (List Char × List Char)
  | [] => none
  | '"' :: rest => some ([], rest)
  | '\\' :: c :: rest =>
    if ends c then none
    else (stringRest? ends rest).map fun (raw, after) => ('\\' :: c :: raw, after)
  | c :: rest =>
    if ends c then none
    else (stringRest? ends rest).map fun (raw, after) => (c :: raw, after)

/-- The string whose opening quote stands before the text. Three quotes open another kind. -/
def cutString? (ends : Char → Bool) (text : List Char) : Option (Token × List Char) :=
  if ['"', '"'].isPrefixOf text then none
  else (stringRest? ends text).map fun (raw, after) => (.string (String.ofList raw), after)

/-- The longest operator at the start of a text. A dot before a digit starts a fraction. -/
def cutOperator? (text : List Char) : Option (Token × List Char) :=
  if text.head? = some '.' ∧ text.tail.head?.any Char.isDigit then none
  else (operators.find? fun spelling => spelling.toList.isPrefixOf text).map fun spelling =>
    (.operator spelling, text.drop spelling.toList.length)

/-- The first token of the text `c :: rest` and what follows it. -/
def cutToken? (ends : Char → Bool) (c : Char) (rest : List Char) : Option (Token × List Char) :=
  if isNameStart c then cutWord? (c :: rest)
  else if c.isDigit then cutNumber? (c :: rest)
  else if c = '"' then cutString? ends rest
  else cutOperator? (c :: rest)

theorem length_lt_of_stringRest? {text raw after : List Char}
    (h : stringRest? ends text = some (raw, after)) : after.length < text.length := by
  fun_induction stringRest? ends text generalizing raw after with
  | case1 => simp at h
  | case2 rest =>
    simp only [Option.some.injEq, Prod.mk.injEq] at h
    simp [← h.2]
  | case3 => cases h
  | case4 c rest _ ih =>
    obtain ⟨⟨raw', after'⟩, hrest, heq⟩ := Option.map_eq_some_iff.mp h
    simp only [Prod.mk.injEq] at heq
    have := ih hrest
    simp only [← heq.2, List.length_cons]
    omega
  | case5 => cases h
  | case6 c rest _ _ _ ih =>
    obtain ⟨⟨raw', after'⟩, hrest, heq⟩ := Option.map_eq_some_iff.mp h
    simp only [Prod.mk.injEq] at heq
    have := ih hrest
    simp only [← heq.2, List.length_cons]
    omega

private theorem operators_length_pos : ∀ spelling ∈ operators, 0 < spelling.toList.length := by
  decide

/-- Every token takes at least one character. -/
theorem length_lt_of_cutToken? {c : Char} {rest after : List Char} {token : Token}
    (h : cutToken? ends c rest = some (token, after)) : after.length < (c :: rest).length := by
  have hdrop : ∀ p : Char → Bool, p c → ((c :: rest).dropWhile p).length < (c :: rest).length := by
    intro p hp
    rw [List.dropWhile_cons_of_pos hp]
    have := (List.dropWhile_suffix p (l := rest)).length_le
    simp only [List.length_cons]
    omega
  unfold cutToken? at h
  split at h
  · next hc =>
    simp only [cutWord?] at h
    split at h
    · simp at h
    · simp only [Option.some.injEq, Prod.mk.injEq] at h
      exact h.2 ▸ hdrop _ (isNameChar_of_isNameStart hc)
  · split at h
    · next hc =>
      simp only [cutNumber?] at h
      split at h
      · simp at h
      · split at h
        · simp at h
        · simp only [Option.some.injEq, Prod.mk.injEq] at h
          exact h.2 ▸ hdrop _ hc
    · split at h
      · simp only [cutString?] at h
        split at h
        · simp at h
        · obtain ⟨⟨raw, after'⟩, hrest, heq⟩ := Option.map_eq_some_iff.mp h
          simp only [Prod.mk.injEq] at heq
          have := length_lt_of_stringRest? hrest
          simp only [← heq.2, List.length_cons]
          omega
      · simp only [cutOperator?] at h
        split at h
        · simp at h
        · obtain ⟨spelling, hfound, heq⟩ := Option.map_eq_some_iff.mp h
          have hpos := operators_length_pos spelling (List.mem_of_find?_eq_some hfound)
          simp only [Prod.mk.injEq] at heq
          simp only [← heq.2, List.length_drop, List.length_cons]
          omega

/-- Blanks that may stand between two tokens of one line. -/
def isSpace (c : Char) : Bool :=
  c == ' ' || c == '\t'

/-- The tokens of a line of text. -/
def tokenize (ends : Char → Bool) : List Char → Option (List Token)
  | [] => some []
  | c :: rest =>
    if isSpace c then tokenize ends rest
    else
      match _h : cutToken? ends c rest with
      | none => none
      | some (token, after) => (tokenize ends after).map (token :: ·)
termination_by text => text.length
decreasing_by
  · simp
  · exact length_lt_of_cutToken? _h

@[simp]
theorem tokenize_nil : tokenize ends [] = some [] := by
  rw [tokenize]

@[simp]
theorem tokenize_space (rest : List Char) : tokenize ends (' ' :: rest) = tokenize ends rest := by
  rw [tokenize]
  simp [isSpace]

theorem tokenize_of_cutToken? {c : Char} {rest after : List Char} {token : Token}
    (hc : isSpace c = false) (h : cutToken? ends c rest = some (token, after)) :
    tokenize ends (c :: rest) = (tokenize ends after).map (token :: ·) := by
  rw [tokenize, if_neg (by simp [hc])]
  split
  · next hnone => simp [h] at hnone
  · next token' after' hsome =>
    obtain ⟨rfl, rfl⟩ : token = token' ∧ after = after' := by simpa [h] using hsome
    rfl

/-! ### Texts and their tokens -/

/-- `text` is cut into `tokens` in front of everything that `after` allows. -/
def Spells (ends : Char → Bool) (after : List Char → Prop) (text : List Char)
    (tokens : List Token) : Prop :=
  ∀ rest, after rest → tokenize ends (text ++ rest) = (tokenize ends rest).map (tokens ++ ·)

/-- A character that ends a word, a number or a string before it. -/
def isBreak (c : Char) : Bool :=
  !isNameChar c && c != '"' && c != '.'

/-- A text in front of which every token ends. -/
def Breaks (rest : List Char) : Prop :=
  ∀ c ∈ rest.head?, isBreak c

theorem breaks_nil : Breaks [] := by
  simp [Breaks]

theorem breaks_cons {c : Char} (rest : List Char) (hc : isBreak c) : Breaks (c :: rest) := by
  simpa [Breaks] using hc

namespace Spells

variable {P Q : List Char → Prop} {a b : List Char} {ta tb : List Token}

theorem weaken (h : Spells ends P a ta) (hPQ : ∀ rest, Q rest → P rest) : Spells ends Q a ta :=
  fun rest hrest => h rest (hPQ rest hrest)

/-- Texts one behind the other spell their tokens one behind the other. -/
theorem append (ha : Spells ends P a ta) (hb : Spells ends Q b tb)
    (h : ∀ rest, Q rest → P (b ++ rest)) : Spells ends Q (a ++ b) (ta ++ tb) := by
  intro rest hrest
  rw [List.append_assoc, ha _ (h rest hrest), hb rest hrest, Option.map_map]
  congr 1
  funext tokens
  simp

/-- A text that spells something is cut into just that. -/
theorem tokenize_eq (h : Spells ends Breaks a ta) : tokenize ends a = some ta := by
  have := h [] breaks_nil
  simpa using this

theorem of_cutToken? {c : Char} {text : List Char} {token : Token} (hc : isSpace c = false)
    (h : ∀ rest, P rest → cutToken? ends c (text ++ rest) = some (token, rest)) :
    Spells ends P (c :: text) [token] := by
  intro rest hrest
  exact tokenize_of_cutToken? hc (h rest hrest)

/-- Blanks around a text do not count. -/
theorem spaces (h : Spells ends (fun rest => rest.head? = some ' ') a ta) :
    Spells ends (fun _ => True) (' ' :: (a ++ [' '])) ta := by
  intro rest _
  have := h (' ' :: rest) rfl
  simpa using this

end Spells

/-! ### Words -/

theorem takeWhile_append_of_breaks {p : Char → Bool} {word : List Char} (rest : List Char)
    (hword : ∀ c ∈ word, p c) (hrest : ∀ c ∈ rest.head?, ¬ p c) :
    (word ++ rest).takeWhile p = word ∧ (word ++ rest).dropWhile p = rest := by
  rw [List.takeWhile_append_of_pos hword, List.dropWhile_append_of_pos hword]
  cases rest with
  | nil => simp
  | cons c rest =>
    have hc : ¬ p c := hrest c rfl
    rw [List.takeWhile_cons_of_neg hc, List.dropWhile_cons_of_neg hc]
    simp

theorem not_isNameChar_of_isBreak {c : Char} (h : isBreak c) : ¬ isNameChar c := by
  simp only [isBreak, Bool.and_eq_true] at h
  simpa using h.1.1

theorem isNameChar_of_mem_identifier {word : List Char} (h : isIdentifier word) :
    ∀ c ∈ word, isNameChar c := by
  cases word with
  | nil => simp [isIdentifier] at h
  | cons c rest =>
    simp only [isIdentifier, Bool.and_eq_true, List.all_eq_true] at h
    rintro d (_ | ⟨_, hd⟩)
    · exact isNameChar_of_isNameStart h.1
    · exact h.2 d hd

theorem not_isSpace_of_isNameStart {c : Char} (h : isNameStart c) : isSpace c = false := by
  refine Bool.eq_false_iff.mpr fun hspace => ?_
  simp only [isSpace, Bool.or_eq_true, beq_iff_eq] at hspace
  rcases hspace with rfl | rfl <;> exact absurd h (by decide)

/-- An identifier is cut as one word. -/
theorem spells_word {word : String} (h : isIdentifier word.toList) :
    Spells ends Breaks word.toList [Token.ofWord word] := by
  obtain ⟨c, text, hchars⟩ : ∃ c text, word.toList = c :: text := by
    cases hw : word.toList with
    | nil => simp [hw, isIdentifier] at h
    | cons c text => exact ⟨c, text, rfl⟩
  have hstart : isNameStart c := by
    rw [hchars] at h
    simp only [isIdentifier, Bool.and_eq_true] at h
    exact h.1
  rw [hchars]
  refine Spells.of_cutToken? (not_isSpace_of_isNameStart hstart) fun rest hrest => ?_
  have hcut := takeWhile_append_of_breaks rest (isNameChar_of_mem_identifier h)
    fun d hd => not_isNameChar_of_isBreak (hrest d hd)
  rw [hchars] at hcut
  -- A word right before a quote would be a prefix of the string.
  have hquote : rest.head? ≠ some '"' := by
    intro hq
    have := hrest '"' hq
    simp [isBreak] at this
  rw [cutToken?, if_pos hstart, cutWord?, ← List.cons_append, hcut.1, hcut.2, if_neg hquote,
    ← hchars, String.ofList_toList]

/-! ### Numbers -/

theorem eq_zero_of_head?_toDigits {n : Nat} (h : (Nat.toDigits 10 n).head? = some '0') :
    n = 0 := by
  induction n using Nat.strongRecOn with
  | ind n ih =>
    rcases Nat.lt_or_ge n 10 with hlt | hge
    · rw [Nat.toDigits_of_lt_base hlt] at h
      simpa using h
    · -- The leading digit is that of `n / 10`, which is not zero.
      obtain ⟨d, ds, hds⟩ := List.exists_cons_of_ne_nil (Nat.toDigits_ne_nil (n := n / 10) (b := 10))
      rw [Nat.toDigits_of_base_le (by decide) hge, hds] at h
      have hdiv := ih (n / 10) (by omega) (by rw [hds]; simpa using h)
      omega

theorem not_isNameStart_of_isDigit {c : Char} (h : c.isDigit) : isNameStart c = false := by
  have hval : c.val ≥ 48 ∧ c.val ≤ 57 := by simpa [Char.isDigit] using h
  refine Bool.eq_false_iff.mpr fun hstart => ?_
  have hupper : c.isUpper = decide (c.val ≥ 65 ∧ c.val ≤ 90) := rfl
  have hlower : c.isLower = (decide (c.val ≥ 97) && decide (c.val ≤ 122)) := rfl
  have halpha : c.isAlpha = (c.isUpper || c.isLower) := rfl
  simp only [isNameStart, halpha, hupper, hlower, Bool.or_eq_true, Bool.and_eq_true,
    decide_eq_true_eq, beq_iff_eq] at hstart
  rcases hstart with (⟨h1, -⟩ | ⟨h1, -⟩) | rfl
  · exact absurd (UInt32.le_trans h1 hval.2) (by decide)
  · exact absurd (UInt32.le_trans h1 hval.2) (by decide)
  · exact absurd h (by decide)

theorem isNameChar_of_isDigit {c : Char} (h : c.isDigit) : isNameChar c := by
  simp [isNameChar, Char.isAlphanum, h]

/-- A number in decimal digits is cut as that number. -/
theorem spells_number (n : Nat) : Spells ends Breaks n.repr.toList [Token.number n] := by
  have hdigit : ∀ c ∈ Nat.toDigits 10 n, c.isDigit := fun c hc =>
    Nat.isDigit_of_mem_toDigits (by decide) (by decide) hc
  have hvalue : decimalValue (Nat.toDigits 10 n) = n := Nat.ofDigitChars_ten_toDigits
  have hzero : ¬ ((Nat.toDigits 10 n).head? = some '0' ∧ n ≠ 0) := fun h =>
    h.2 (eq_zero_of_head?_toDigits h.1)
  rw [Nat.repr_eq_ofList_toDigits, String.toList_ofList]
  obtain ⟨c, text, hchars⟩ := List.exists_cons_of_ne_nil (Nat.toDigits_ne_nil (n := n) (b := 10))
  rw [hchars] at hdigit hvalue hzero ⊢
  have hc : c.isDigit := hdigit c (by simp)
  have hspace : isSpace c = false := by
    refine Bool.eq_false_iff.mpr fun hspace => ?_
    simp only [isSpace, Bool.or_eq_true, beq_iff_eq] at hspace
    rcases hspace with rfl | rfl <;> exact absurd hc (by decide)
  refine Spells.of_cutToken? hspace fun rest hrest => ?_
  have hcut := takeWhile_append_of_breaks rest hdigit fun d hd hdd =>
    not_isNameChar_of_isBreak (hrest d hd) (isNameChar_of_isDigit hdd)
  have hend : ¬ (rest.head?.any fun d => isNameChar d || d == '.') := by
    cases rest with
    | nil => simp
    | cons d rest =>
      have hd : isBreak d := hrest d rfl
      simp only [isBreak, Bool.and_eq_true, Bool.not_eq_true', bne_iff_ne] at hd
      simp [hd.1.1, hd.2]
  rw [cutToken?, if_neg (by simp [not_isNameStart_of_isDigit hc]), if_pos hc, cutNumber?,
    ← List.cons_append, hcut.1, hcut.2, hvalue, if_neg hend, if_neg hzero]

/-! ### Strings -/

/-- Is the text of a string complete in itself? It has no end of a line in it, every quote is
escaped, and no backslash at its end would escape the closing quote. -/
def isClosed (ends : Char → Bool) : List Char → Bool
  | [] => true
  | ['\\'] => false
  | '\\' :: c :: rest => !ends c && isClosed ends rest
  | c :: rest => c != '"' && !ends c && isClosed ends rest

theorem stringRest?_of_isClosed {raw : List Char} (h : isClosed ends raw) (rest : List Char) :
    stringRest? ends (raw ++ '"' :: rest) = some (raw, rest) := by
  fun_induction isClosed ends raw with
  | case1 => simp [stringRest?]
  | case2 => simp at h
  | case3 c raw ih =>
    simp only [Bool.and_eq_true, Bool.not_eq_true'] at h
    simp [stringRest?, h.1, ih h.2]
  | case4 c raw hlone hescape ih =>
    simp only [Bool.and_eq_true, bne_iff_ne, Bool.not_eq_true'] at h
    have hbackslash : c ≠ '\\' := by
      rintro rfl
      cases raw with
      | nil => exact hlone rfl rfl
      | cons d raw => exact hescape d raw rfl rfl
    rw [List.cons_append, stringRest?, ih h.2]
    · simp [h.1.2]
    · exact h.1.1
    · intro d after hd
      exact absurd hd hbackslash

/-- A complete string between quotes is cut as one token. -/
theorem spells_string {raw : String} (h : isClosed ends raw.toList) :
    Spells ends Breaks ("\"" ++ raw ++ "\"").toList [Token.string raw] := by
  have hchars : ("\"" ++ raw ++ "\"").toList = '"' :: (raw.toList ++ ['"']) := by
    simp [String.toList_append]
  rw [hchars]
  refine Spells.of_cutToken? (by decide) fun rest hrest => ?_
  have hone : ¬ ['"', '"'].isPrefixOf (raw.toList ++ ['"'] ++ rest) := by
    cases hraw : raw.toList with
    | nil =>
      -- An empty string is not followed by a third quote.
      cases rest with
      | nil => simp
      | cons c rest =>
        have hc : isBreak c := hrest c rfl
        simp only [isBreak, Bool.and_eq_true, bne_iff_ne] at hc
        simp [List.isPrefixOf, Ne.symm hc.1.2]
    | cons c raw' =>
      rw [hraw] at h
      have hc : c ≠ '"' := by
        rintro rfl
        simp [isClosed] at h
      simp [List.isPrefixOf, Ne.symm hc]
  rw [cutToken?, if_neg (by decide), if_neg (by decide), if_pos rfl, cutString?, if_neg hone,
    List.append_assoc, List.singleton_append, stringRest?_of_isClosed h]
  simp

/-! ### Operators -/

/-- A text of one operator is cut as that operator if no longer one starts there. -/
theorem spells_operator {P : List Char → Prop} {c : Char} {text : List Char} {spelling : String}
    (hchars : spelling.toList = c :: text)
    (hc : !isSpace c && !isNameStart c && !c.isDigit && c != '"' && c != '.')
    (h : ∀ rest, P rest → (operators.find? fun op => op.toList.isPrefixOf (c :: (text ++ rest))) =
      some spelling) :
    Spells ends P spelling.toList [Token.operator spelling] := by
  simp only [Bool.and_eq_true, Bool.not_eq_true', bne_iff_ne] at hc
  obtain ⟨⟨⟨⟨hspace, hname⟩, hdigit⟩, hquote⟩, hdot⟩ := hc
  rw [hchars]
  refine Spells.of_cutToken? hspace fun rest hrest => ?_
  have hfraction : ¬ ((c :: (text ++ rest)).head? = some '.' ∧
      (c :: (text ++ rest)).tail.head?.any Char.isDigit) := by
    simp [hdot]
  have hdrop : (c :: (text ++ rest)).drop spelling.toList.length = rest := by
    rw [hchars, ← List.cons_append, List.drop_left]
  rw [cutToken?, if_neg (by simp [hname]), if_neg (by simp [hdigit]), if_neg hquote, cutOperator?,
    if_neg hfraction, h rest hrest, Option.map_some, hdrop]

end Python

end Offside
