import Offside.Proofs.Token.Following

/-!
# A newline separates

Lines are cut independently of each other. If a text does not end within a block comment, what
stands below it is cut as if it stood alone, only further on (`tokens_append_newline`): a newline
ends a word, a number, a mark, a string and a comment in one line exactly as the end of the text
would, whatever they were about to become. So no open string, no illegal character and no number
that is too large has an effect on the lines below it.

* `Lexeme.Spelled.append_newline`: a piece stays the same piece when a newline comes behind the
  text. A block comment that is never closed is the exception.
* `scan_append_newline`: the pieces of two texts with a newline in between are the pieces of the
  first, the newline, and the pieces of the second.
* `scan_add`: where a text starts makes no difference but for the spans.
-/

namespace Offside

/-! ### Moving spans -/

/-- The span, so many characters and so many lines further on. -/
def Span.shift (chars lines : Nat) (span : Span) : Span :=
  ⟨span.start + chars, span.stop + chars, span.line + lines⟩

/-- The token, so many characters and so many lines further on. -/
def Token.shift (chars lines : Nat) (token : Token) : Token :=
  { token with span := token.span.shift chars lines }

/-- The fault, so many characters and so many lines further on. -/
def LexicalFault.shift (chars lines : Nat) : LexicalFault → LexicalFault
  | illegalCharacter c span => illegalCharacter c (span.shift chars lines)
  | unterminatedString span => unterminatedString (span.shift chars lines)
  | numberOverflow digits span => numberOverflow digits (span.shift chars lines)

namespace Piece

/-- The piece, so many characters and so many lines further on. -/
def shift (chars lines : Nat) (piece : Piece) : Piece :=
  { piece with span := piece.span.shift chars lines }

theorem token?_shift (chars lines : Nat) (piece : Piece) :
    (piece.shift chars lines).token? = piece.token?.map (Token.shift chars lines) := by
  obtain ⟨lexeme, text, span⟩ := piece
  cases lexeme <;> rfl

theorem fault?_shift (chars lines : Nat) (piece : Piece) :
    (piece.shift chars lines).fault? = piece.fault?.map (LexicalFault.shift chars lines) := by
  obtain ⟨lexeme, text, span⟩ := piece
  cases lexeme <;> rfl

/-- A text that starts further on has the same pieces further on. -/
theorem scan_add (chars lines offset line : Nat) (text : List Char) :
    scan (offset + chars) (line + lines) text =
      (scan offset line text).map (shift chars lines) := by
  induction offset, line, text using scan.induct with
  | case1 offset line => rw [scan, scan, List.map_nil]
  | case2 offset line c rest first ih =>
    have hstop : offset + first.text.length + chars = offset + chars + first.text.length := by
      omega
    have hline : line + first.text.count '\n' + lines = line + lines + first.text.count '\n' := by
      omega
    rw [hstop, hline] at ih
    rw [scan, scan, List.map_cons, ← ih, shift, Span.shift, hstop]

theorem filterMap_token?_shift (chars lines : Nat) (pieces : List Piece) :
    (pieces.map (shift chars lines)).filterMap token? =
      (pieces.filterMap token?).map (Token.shift chars lines) := by
  rw [List.filterMap_map, List.map_filterMap]
  exact congrArg (List.filterMap · pieces) (funext (token?_shift chars lines))

theorem filterMap_fault?_shift (chars lines : Nat) (pieces : List Piece) :
    (pieces.map (shift chars lines)).filterMap fault? =
      (pieces.filterMap fault?).map (LexicalFault.shift chars lines) := by
  rw [List.filterMap_map, List.map_filterMap]
  exact congrArg (List.filterMap · pieces) (funext (fault?_shift chars lines))

end Piece

/-! ### What a newline ends -/

/-- What does not hold a character does not reach over it. -/
theorem prefix_of_append_cons {c : Char} {front text rest : List Char} (hfront : c ∉ front)
    (h : front <+: text ++ c :: rest) : front <+: text := by
  rcases List.prefix_or_prefix_of_prefix h (List.prefix_append text (c :: rest)) with
    h' | ⟨tail, rfl⟩
  · exact h'
  · obtain ⟨after, hafter⟩ := (List.prefix_append_right_inj text).mp h
    cases tail with
    | nil => simp
    | cons d tail =>
      obtain rfl : d = c := (List.cons.inj hafter).1
      exact absurd (by simp) hfront

section Newline

variable {before text after : List Char} (rest : List Char)

/-- The rest of `console.log` is not found in another line. -/
theorem startsLog_of_append_newline (h : StartsLog (after ++ '\n' :: rest)) : StartsLog after := by
  obtain ⟨tail, htail, hends⟩ := h
  have hlog : ".log".toList <+: after := prefix_of_append_cons (by decide) ⟨tail, htail.symm⟩
  obtain ⟨left, rfl⟩ := hlog
  rw [List.append_assoc] at htail
  obtain rfl := List.append_cancel_left htail
  refine ⟨left, rfl, fun c hc => hends c ?_⟩
  rw [List.head?_append, Option.mem_def.mp hc]
  rfl

/-- A newline ends what the end of the text ends. -/
theorem eases_append_newline (after : List Char) : Eases after (after ++ '\n' :: rest) where
  head := by
    cases after with
    | nil =>
      rintro c ⟨⟩
      exact .inr rfl
    | cons d after => exact fun c hc => .inl hc
  line := by
    intro h
    cases after with
    | nil =>
      rintro c ⟨⟩
      rfl
    | cons d after => exact h
  reach := by
    intro text front hfront h
    rw [← List.append_assoc] at h
    refine prefix_of_append_cons (fun hnewline => ?_) h
    cases hfront _ hnewline
  log := startsLog_of_append_newline rest

/-- The text of a block comment that is never closed. -/
def IsOpenComment (text : List Char) : Prop :=
  ['/', '*'] <+: text ∧ ¬ ['*', '/'] <:+: text.drop 2

instance (text : List Char) : Decidable (IsOpenComment text) :=
  inferInstanceAs (Decidable (_ ∧ _))

/-- An open comment goes on to the end of the text. -/
theorem IsBlankText.eq_nil_of_isOpenComment (h : IsBlankText text after)
    (hopen : IsOpenComment text) : after = [] := by
  obtain ⟨hstart, hnever⟩ := hopen
  cases h with
  | space hblank => simp at hstart
  | line hbody hafter => simp at hstart
  | @block body after hfirst => exact absurd (List.suffix_append body ['*', '/']).isInfix hnever
  | openBlock _ => rfl

theorem IsBlankText.append_newline (h : IsBlankText text after) (hclosed : ¬ IsOpenComment text) :
    IsBlankText text (after ++ '\n' :: rest) := by
  cases h with
  | space hblank => exact .space hblank
  | line hbody hafter => exact .line hbody ((eases_append_newline rest _).line hafter)
  | block hfirst => exact .block hfirst
  | openBlock hnever => exact absurd ⟨List.prefix_append ['/', '*'] _, hnever⟩ hclosed

/-- **A newline ends a piece as the end of the text does**, unless the piece is an open comment. -/
theorem Lexeme.Spelled.append_newline {lexeme : Lexeme} (h : lexeme.Spelled before text after)
    (hclosed : lexeme = .blank → ¬ IsOpenComment text) :
    lexeme.Spelled before text (after ++ '\n' :: rest) := by
  by_cases hlexeme : lexeme = .blank
  · subst hlexeme
    exact IsBlankText.append_newline rest h (hclosed rfl)
  · exact h.ease hlexeme (eases_append_newline rest after)

end Newline

/-! ### Two texts with a newline in between -/

/-- Is the piece a block comment that is never closed? -/
def Piece.isOpenComment (piece : Piece) : Bool :=
  piece.lexeme = .blank && decide (IsOpenComment piece.text)

/-- Does cutting the text end inside a block comment? -/
def endsInComment (source : String) : Bool :=
  (pieces source).getLast?.any Piece.isOpenComment

theorem scan_newline (offset line : Nat) (rest : List Char) :
    Piece.scan offset line ('\n' :: rest) =
      ⟨.blank, ['\n'], ⟨offset, offset + 1, line⟩⟩ :: Piece.scan (offset + 1) (line + 1) rest := by
  have hspelled : Lexeme.blank.Spelled [] ['\n'] rest := .space rfl
  exact scan_eq_of_spelled (by simp) hspelled offset line

/-- The pieces of two texts with a newline in between. The induction is on the pieces of the first
text: each is spelled in front of the newline as it was before, and only the last can be an open
comment. -/
theorem scan_append_newline (b : List Char) (offset line : Nat) (a : List Char)
    (h : (Piece.scan offset line a).getLast?.any Piece.isOpenComment = false) :
    Piece.scan offset line (a ++ '\n' :: b) =
      Piece.scan offset line a ++
        Piece.scan (offset + a.length) (line + a.count '\n') ('\n' :: b) := by
  induction offset, line, a using Piece.scan.induct with
  | case1 offset line =>
    rw [Piece.scan.eq_1]
    rfl
  | case2 offset line c rest first ih =>
    have hfirst : first.lexeme.Spelled [] first.text first.rest :=
      cut_spelled (by simp [BreaksDigits])
    have hwhole : c :: rest = first.text ++ first.rest := (cut_text_append_rest c rest).symm
    have htext : first.text ≠ [] := cut_text_ne_nil c rest
    have hscan := scan_eq_of_spelled htext hfirst offset line
    rw [← hwhole] at hscan
    rw [hscan] at h ⊢
    have hclosed : first.lexeme = .blank → ¬ IsOpenComment first.text := by
      intro hblank hopen
      rw [hblank] at hfirst
      have hend : first.rest = [] := IsBlankText.eq_nil_of_isOpenComment hfirst hopen
      rw [hend, Piece.scan.eq_1, List.getLast?_singleton, Option.any_some, Piece.isOpenComment,
        decide_eq_true hblank, decide_eq_true hopen] at h
      cases h
    have hlast : (Piece.scan (offset + first.text.length) (line + first.text.count '\n')
        first.rest).getLast?.any Piece.isOpenComment = false := by
      rw [List.getLast?_cons] at h
      generalize (Piece.scan _ _ first.rest).getLast? = last at h ⊢
      cases last with
      | none => rfl
      | some piece => exact h
    have hnext := scan_eq_of_spelled htext (hfirst.append_newline b hclosed) offset line
    rw [← List.append_assoc, ← hwhole] at hnext
    rw [hnext, ih hlast, List.cons_append, hwhole, List.length_append, List.count_append,
      Nat.add_assoc, Nat.add_assoc]

/-- **A newline separates.** If cutting `a` does not end inside a block comment, the tokens of `a`
and of `b` below it are the tokens of `a` and those of `b`, moved on by the characters and the lines
of `a` and its newline; and it is the same with what is wrong. -/
theorem tokens_append_newline {a : String} (h : endsInComment a = false) (b : String) :
    tokens (a ++ "\n" ++ b) =
        tokens a ++ (tokens b).map (Token.shift (a.length + 1) (a.toList.count '\n' + 1)) ∧
      lexicalFaults (a ++ "\n" ++ b) =
        lexicalFaults a ++
          (lexicalFaults b).map (LexicalFault.shift (a.length + 1) (a.toList.count '\n' + 1)) := by
  have htext : (a ++ "\n" ++ b).toList = a.toList ++ '\n' :: b.toList := by
    rw [String.toList_append, String.toList_append, List.append_assoc]
    rfl
  have hb : Piece.scan (a.length + 1) (a.toList.count '\n' + 1 + 1) b.toList =
      (pieces b).map (Piece.shift (a.length + 1) (a.toList.count '\n' + 1)) := by
    rw [pieces, ← Piece.scan_add, Nat.zero_add, Nat.add_comm 1]
  have hpieces : pieces (a ++ "\n" ++ b) = pieces a ++
      ⟨.blank, ['\n'], ⟨a.length, a.length + 1, a.toList.count '\n' + 1⟩⟩ ::
        (pieces b).map (Piece.shift (a.length + 1) (a.toList.count '\n' + 1)) := by
    rw [pieces, htext, scan_append_newline b.toList 0 1 a.toList h, scan_newline,
      String.length_toList, Nat.zero_add, Nat.add_comm 1, hb]
    rfl
  constructor
  · rw [tokens, hpieces, List.filterMap_append, List.filterMap_cons_none rfl,
      Piece.filterMap_token?_shift]
    rfl
  · rw [lexicalFaults, hpieces, List.filterMap_append, List.filterMap_cons_none rfl,
      Piece.filterMap_fault?_shift]
    rfl

/-- The first text ends with a number that is too large, an illegal half of a mark, and a string
that is cut off behind a backslash; the second starts with a quote, which does not close it. -/
theorem tokens_append_newline_of_cut_off :
    let a := "console /* x */\n99999999999999999999 & \"b\\"
    let b := "\"c\".log & 1"
    endsInComment a = false ∧
      tokens a = [⟨.identifier "console", ⟨0, 7, 1⟩⟩, ⟨.string "b\\", ⟨39, 42, 2⟩⟩] ∧
      tokens b = [⟨.string "c", ⟨0, 3, 1⟩⟩, ⟨.mark .dot, ⟨3, 4, 1⟩⟩,
        ⟨.identifier "log", ⟨4, 7, 1⟩⟩, ⟨.number 1, ⟨10, 11, 1⟩⟩] ∧
      tokens (a ++ "\n" ++ b) =
        [⟨.identifier "console", ⟨0, 7, 1⟩⟩, ⟨.string "b\\", ⟨39, 42, 2⟩⟩,
          ⟨.string "c", ⟨43, 46, 3⟩⟩, ⟨.mark .dot, ⟨46, 47, 3⟩⟩,
          ⟨.identifier "log", ⟨47, 50, 3⟩⟩, ⟨.number 1, ⟨53, 54, 3⟩⟩] ∧
      lexicalFaults a =
        [.numberOverflow "99999999999999999999" ⟨16, 36, 2⟩, .illegalCharacter '&' ⟨37, 38, 2⟩,
          .unterminatedString ⟨39, 42, 2⟩] ∧
      lexicalFaults b = [.illegalCharacter '&' ⟨8, 9, 1⟩] ∧
      lexicalFaults (a ++ "\n" ++ b) =
        [.numberOverflow "99999999999999999999" ⟨16, 36, 2⟩, .illegalCharacter '&' ⟨37, 38, 2⟩,
          .unterminatedString ⟨39, 42, 2⟩, .illegalCharacter '&' ⟨51, 52, 3⟩] := by
  intro a b
  have hcomment : endsInComment a = false := by decide +kernel
  have hlength : a.length = 42 := by decide
  have hlines : a.toList.count '\n' = 1 := by decide
  have htokens : tokens a = [⟨.identifier "console", ⟨0, 7, 1⟩⟩, ⟨.string "b\\", ⟨39, 42, 2⟩⟩] := by
    decide +kernel
  have htokens' : tokens b = [⟨.string "c", ⟨0, 3, 1⟩⟩, ⟨.mark .dot, ⟨3, 4, 1⟩⟩,
      ⟨.identifier "log", ⟨4, 7, 1⟩⟩, ⟨.number 1, ⟨10, 11, 1⟩⟩] := by decide +kernel
  have hfaults : lexicalFaults a =
      [.numberOverflow "99999999999999999999" ⟨16, 36, 2⟩, .illegalCharacter '&' ⟨37, 38, 2⟩,
        .unterminatedString ⟨39, 42, 2⟩] := by decide +kernel
  have hfaults' : lexicalFaults b = [.illegalCharacter '&' ⟨8, 9, 1⟩] := by decide +kernel
  obtain ⟨hboth, hboth'⟩ := tokens_append_newline hcomment b
  rw [hlength, hlines, htokens, htokens'] at hboth
  rw [hlength, hlines, hfaults, hfaults'] at hboth'
  exact ⟨hcomment, htokens, htokens', hboth, hfaults, hfaults', hboth'⟩

end Offside
