import Offside.Proofs.Token.Spelling

/-!
# A spelling determines its piece

The first piece of a text is spelled as it should be (`cut_spelled`). Here is the other direction:
if a text is spelled as some piece should be, given what follows it, then this piece is what `cut`
takes off. So whether a text is cut in a certain way can be told from its spelling alone, without
going through `cut` again.

* `cut_eq_of_spelled` says it for one piece;
* `scan_eq_of_spelled` for a piece at the start of a text that is cut as a whole.
-/

namespace Offside

/-! ### Which kind of piece a character starts -/

theorem not_isBlank_of_isNameChar {c : Char} (h : isNameChar c) : isBlank c = false := by
  refine Bool.eq_false_iff.mpr fun hblank => ?_
  simp only [isBlank, Bool.or_eq_true, beq_iff_eq] at hblank
  rcases hblank with ((rfl | rfl) | rfl) | rfl <;> exact absurd h (by decide)

theorem cut_of_isNameStart {c : Char} (h : isNameStart c) (rest : List Char) :
    cut c rest = cutWord (c :: rest) := by
  unfold cut
  rw [not_isBlank_of_isNameChar (isNameChar_of_isNameStart h), h]
  rfl

theorem cut_of_isDigit {c : Char} (h : c.isDigit) (rest : List Char) :
    cut c rest = cutNumber (c :: rest) := by
  unfold cut
  rw [not_isBlank_of_isNameChar (Python.isNameChar_of_isDigit h),
    Python.not_isNameStart_of_isDigit h, h]
  rfl

/-- What is neither blank, word, number nor string and starts no comment is cut as a mark. -/
theorem cut_eq_cutMark {c : Char} {rest : List Char} (hblank : isBlank c = false)
    (hname : isNameStart c = false) (hdigit : c.isDigit = false) (hquote : c ≠ '"')
    (hcomment : ¬ StartsComment (c :: rest)) : cut c rest = cutMark c rest := by
  unfold cut
  rw [hblank, hname, hdigit, if_neg hquote]
  simp only [Bool.false_eq_true, if_false]
  split
  · exact absurd (.inl (List.prefix_append ['/', '/'] _)) hcomment
  · exact absurd (.inr (List.prefix_append ['/', '*'] _)) hcomment
  · rfl

/-! ### Words -/

theorem afterLog?_eq_none {text : List Char} (h : ¬ StartsLog text) : afterLog? text = none := by
  cases hlog : afterLog? text with
  | none => rfl
  | some rest =>
    exact absurd ⟨rest, (afterLog?_eq_some hlog).symm, endsName_of_afterLog? hlog⟩ h

theorem wordKind_keyword (keyword : Keyword) :
    wordKind keyword.spelling = .keyword keyword := by
  cases keyword with
  | decl kind => cases kind <;> decide
  | _ => decide

theorem Keyword.ofSpelling?_eq_none {name : String}
    (h : ∀ keyword : Keyword, keyword.spelling ≠ name) : Keyword.ofSpelling? name = none :=
  List.find?_eq_none.mpr fun keyword _ => by simpa using h keyword

theorem wordKind_identifier {name : String} (h : ∀ keyword : Keyword, keyword.spelling ≠ name) :
    wordKind name = .identifier name := by
  rw [wordKind, Keyword.ofSpelling?_eq_none h]

theorem isNameStart_of_isIdentifier {c : Char} {rest : List Char}
    (h : Python.isIdentifier (c :: rest)) : isNameStart c :=
  (Bool.and_eq_true_iff.mp h).1

/-- A keyword is a word, and it is not the one with which `console.log` starts. -/
theorem Keyword.isIdentifier_spelling (keyword : Keyword) :
    Python.isIdentifier keyword.spelling.toList ∧
      keyword.spelling.toList ≠ "console".toList := by
  cases keyword with
  | decl kind => cases kind <;> decide
  | _ => decide

/-- A word is cut off as far as it goes. -/
theorem cutWord_eq {word after : List Char} (hword : Python.isIdentifier word)
    (hends : EndsName after) (hlog : word = "console".toList → ¬ StartsLog after) :
    cutWord (word ++ after) = ⟨.token (wordKind (String.ofList word)), word, after⟩ := by
  obtain ⟨htake, hdrop⟩ := Python.takeWhile_append_of_breaks after
    (Python.isNameChar_of_mem_identifier hword) hends
  have hnone : (if word = "console".toList then afterLog? after else none) = none := by
    split
    · next hconsole => exact afterLog?_eq_none (hlog hconsole)
    · rfl
  simp only [cutWord, htake, hdrop, hnone]

theorem cutWord_log {after : List Char} (hends : EndsName after) :
    cutWord ("console.log".toList ++ after) =
      ⟨.token .consoleLog, "console.log".toList, after⟩ := by
  have hsplit : "console.log".toList ++ after = "console".toList ++ (".log".toList ++ after) := rfl
  have hword : ∀ c ∈ "console".toList, isNameChar c := List.all_eq_true.mp rfl
  have hdot : ∀ c ∈ (".log".toList ++ after).head?, ¬ isNameChar c := by
    intro c hc
    cases hc
    decide
  obtain ⟨htake, hdrop⟩ := Python.takeWhile_append_of_breaks (".log".toList ++ after) hword hdot
  simp only [cutWord, hsplit, htake, hdrop, if_true, afterLog?_log hends]
  rfl

/-! ### Numbers -/

theorem cutNumber_eq {before digits after : List Char} (h : IsDigitRun before digits after) :
    cutNumber (digits ++ after) =
      if decimalValue digits ≤ maxNumber then
        ⟨.token (.number (decimalValue digits)), digits, after⟩
      else ⟨.oversized (String.ofList digits), digits, after⟩ := by
  obtain ⟨htake, hdrop⟩ := Python.takeWhile_append_of_breaks after h.isDigit h.right
  simp only [cutNumber, htake, hdrop]

/-! ### Strings -/

/-- A text that is closed in itself is read as a whole. -/
theorem stringBody_append {front : List Char} (h : Python.isClosed isNewline front)
    (text : List Char) :
    stringBody (front ++ text) =
      { stringBody text with raw := front ++ (stringBody text).raw } := by
  fun_induction Python.isClosed isNewline front with
  | case1 => rfl
  | case2 => cases h
  | case3 c front ih =>
    obtain ⟨hc, hfront⟩ := Bool.and_eq_true_iff.mp h
    have hstep : stringBody ('\\' :: c :: (front ++ text)) =
        ((stringBody (front ++ text)).cons c).cons '\\' := by
      rw [stringBody]
      rintro rfl
      cases hc
    rw [List.cons_append, List.cons_append, hstep, ih hfront]
    rfl
  | case4 c front hlone hescape ih =>
    simp only [Bool.and_eq_true, bne_iff_ne, Bool.not_eq_true', isNewline_eq_false_iff] at h
    obtain ⟨⟨hquote, hnewline⟩, hfront⟩ := h
    have hplain : c ≠ '\\' := by
      rintro rfl
      cases front with
      | nil => exact hlone rfl rfl
      | cons d front => exact hescape d front rfl rfl
    have hstep : stringBody (c :: (front ++ text)) = (stringBody (front ++ text)).cons c := by
      rw [stringBody] <;> simp_all
    rw [List.cons_append, hstep, ih hfront]
    rfl

/-- A text that is closed in itself is a string with the quote behind it. -/
theorem cutString_of_isClosed {raw : List Char} (h : Python.isClosed isNewline raw)
    (after : List Char) :
    cutString (raw ++ '"' :: after) =
      ⟨.token (.string (String.ofList raw)), '"' :: (raw ++ ['"']), after⟩ := by
  have hbody : stringBody (raw ++ '"' :: after) = ⟨raw, true, after⟩ := by
    rw [stringBody_append h, stringBody, List.append_nil]
  rw [cutString, hbody]
  rfl

/-- A text that nothing closes is an open string up to the end of the line. -/
theorem cutString_of_isOpenText {raw after : List Char} (h : IsOpenText raw)
    (hends : EndsLine after) :
    cutString (raw ++ after) = ⟨.unclosed (String.ofList raw), '"' :: raw, after⟩ := by
  have hbody : stringBody (raw ++ after) = ⟨raw, false, after⟩ := by
    obtain ⟨body, hclosed, rfl | rfl⟩ := h
    · cases after with
      | nil => rw [stringBody_append hclosed, stringBody, List.append_nil]
      | cons c rest =>
        obtain rfl := hends c rfl
        rw [stringBody_append hclosed, stringBody, List.append_nil]
    · rw [List.append_assoc, stringBody_append hclosed]
      cases after with
      | nil => rfl
      | cons c rest =>
        obtain rfl := hends c rfl
        rfl
  rw [cutString, hbody]
  rfl

/-! ### Comments -/

theorem cut_line {body after : List Char} (hbody : '\n' ∉ body) (hafter : EndsLine after) :
    cut '/' ('/' :: (body ++ after)) = ⟨.blank, '/' :: '/' :: body, after⟩ := by
  have hline : ∀ c ∈ body, (c != '\n') = true := fun c hc =>
    bne_iff_ne.mpr fun heq => hbody (heq ▸ hc)
  have hend : ∀ c ∈ after.head?, ¬ (c != '\n') = true := by
    intro c hc
    rw [hafter c hc]
    decide
  obtain ⟨htake, hdrop⟩ := Python.takeWhile_append_of_breaks after hline hend
  have hcut : cut '/' ('/' :: (body ++ after)) = ⟨.blank,
      '/' :: '/' :: (body ++ after).takeWhile (· != '\n'),
      (body ++ after).dropWhile (· != '\n')⟩ := rfl
  rw [hcut, htake, hdrop]

/-- The body of a comment goes on over a character with which no `*/` starts. -/
theorem commentBody_cons {c : Char} {text : List Char} (h : ¬ ['*', '/'] <+: c :: text) :
    commentBody (c :: text) = (c :: (commentBody text).1, (commentBody text).2) := by
  rw [commentBody]
  rintro rest rfl rfl
  exact h (List.prefix_append ['*', '/'] rest)

theorem commentBody_of_first {body : List Char} (h : ¬ ['*', '/'] <:+: body ++ ['*'])
    (after : List Char) :
    commentBody (body ++ ['*', '/'] ++ after) = (body ++ ['*', '/'], after) := by
  induction body with
  | nil => rfl
  | cons c body ih =>
    rw [List.cons_append, List.infix_cons_iff, not_or] at h
    have hhead : ¬ ['*', '/'] <+: c :: (body ++ ['*', '/'] ++ after) := by
      intro hprefix
      refine h.1 ((List.prefix_of_prefix_length_le hprefix ?_ ?_))
      · exact ⟨'/' :: after, by simp⟩
      · simp
    rw [List.cons_append, List.cons_append, commentBody_cons hhead, ih h.2]

theorem commentBody_of_never {body : List Char} (h : ¬ ['*', '/'] <:+: body) :
    commentBody body = (body, []) := by
  induction body with
  | nil => rfl
  | cons c body ih =>
    rw [List.infix_cons_iff, not_or] at h
    rw [commentBody_cons h.1, ih h.2]

theorem cut_block (text : List Char) :
    cut '/' ('*' :: text) =
      ⟨.blank, '/' :: '*' :: (commentBody text).1, (commentBody text).2⟩ := rfl

/-! ### Marks -/

theorem Mark.eq_of_spelling_eq {a b : Mark} (h : a.spelling = b.spelling) : a = b := by
  revert h
  cases a <;> cases b <;> decide

/-- The longest mark at the start of a text is the one that is found there. -/
theorem Mark.leading?_eq {mark : Mark} {after : List Char}
    (h : ∀ other : Mark, other.spelling.toList <+: mark.spelling.toList ++ after →
      other.spelling.length ≤ mark.spelling.length) :
    Mark.leading? (mark.spelling.toList ++ after) = some mark := by
  have hmark : mark.spelling.toList <+: mark.spelling.toList ++ after := List.prefix_append _ _
  cases hfound : Mark.leading? (mark.spelling.toList ++ after) with
  | none => exact absurd hmark (Mark.not_isPrefix_of_leading? hfound mark)
  | some other =>
    have hother := Mark.leading?_eq_some hfound
    have hlength := Nat.le_antisymm (h other hother) (Mark.length_le_of_leading? hfound hmark)
    have hlist : other.spelling.toList = mark.spelling.toList :=
      List.prefix_iff_eq_take.mp hother |>.trans
        (by rw [String.length_toList, hlength, ← String.length_toList, List.take_left])
    rw [Mark.eq_of_spelling_eq (String.toList_inj.mp hlist)]

/-- A mark starts with a character with which nothing else starts, but for comments. -/
theorem Mark.head_spelling {mark : Mark} {c : Char} {rest : List Char}
    (h : mark.spelling.toList = c :: rest) :
    isBlank c = false ∧ isNameStart c = false ∧ c.isDigit = false ∧ c ≠ '"' := by
  have hhead : mark.spelling.toList.head? = some c := by rw [h]; rfl
  cases mark <;> cases hhead <;> decide

theorem cutMark_eq {mark : Mark} {c : Char} {rest after : List Char}
    (htext : mark.spelling.toList = c :: rest)
    (h : Mark.leading? (mark.spelling.toList ++ after) = some mark) :
    cutMark c (rest ++ after) = ⟨.token (.mark mark), mark.spelling.toList, after⟩ := by
  rw [htext, List.cons_append] at h
  rw [cutMark, h]
  simp only [htext, ← List.cons_append, List.drop_left]

/-! ### One piece -/

theorem Token.Kind.Spelled.cut_eq {kind : Token.Kind} {before after : List Char} {c : Char}
    {rest : List Char} (h : kind.Spelled before (c :: rest) after) :
    cut c (rest ++ after) = ⟨.token kind, c :: rest, after⟩ := by
  cases kind with
  | keyword k =>
    obtain ⟨htext, hends⟩ := h
    have hword : Python.isIdentifier (c :: rest) ∧ c :: rest ≠ "console".toList := by
      rw [htext]
      exact k.isIdentifier_spelling
    rw [cut_of_isNameStart (isNameStart_of_isIdentifier hword.1), ← List.cons_append,
      cutWord_eq hword.1 hends fun hlog => absurd hlog hword.2, htext, String.ofList_toList,
      wordKind_keyword]
  | consoleLog =>
    obtain ⟨htext, hends⟩ := h
    obtain ⟨rfl, rfl⟩ := List.cons.inj htext
    exact (cut_of_isNameStart (by decide) _).trans (cutWord_log hends)
  | identifier name =>
    obtain ⟨htext, hword, hkeyword, hends, hlog⟩ := h
    have hconsole : c :: rest = "console".toList → ¬ StartsLog after := fun heq =>
      hlog (String.toList_inj.mp (htext.symm.trans heq))
    rw [cut_of_isNameStart (isNameStart_of_isIdentifier hword), ← List.cons_append,
      cutWord_eq hword hends hconsole, htext, String.ofList_toList, wordKind_identifier hkeyword]
  | number value =>
    obtain ⟨hrun, rfl, hsmall⟩ := h
    rw [cut_of_isDigit (hrun.isDigit c List.mem_cons_self), ← List.cons_append,
      cutNumber_eq hrun, if_pos hsmall]
  | string raw =>
    obtain ⟨htext, hclosed⟩ := h
    obtain ⟨rfl, rfl⟩ := List.cons.inj htext
    have hcut := cutString_of_isClosed hclosed after
    rw [String.ofList_toList] at hcut
    rw [List.append_assoc]
    exact hcut
  | mark m =>
    obtain ⟨htext, hcomment, hlongest⟩ := h
    have hmark := Mark.leading?_eq fun other hother => hlongest other (htext ▸ hother)
    obtain ⟨hblank, hname, hdigit, hquote⟩ := Mark.head_spelling htext.symm
    rw [List.cons_append] at hcomment
    rw [cut_eq_cutMark hblank hname hdigit hquote hcomment, cutMark_eq htext.symm hmark, htext]

theorem IsBlankText.cut_eq {after : List Char} {c : Char} {rest : List Char}
    (h : IsBlankText (c :: rest) after) : cut c (rest ++ after) = ⟨.blank, c :: rest, after⟩ := by
  generalize htext : c :: rest = text at h
  cases h with
  | @space d after hblank =>
    obtain ⟨rfl, rfl⟩ := List.cons.inj htext
    unfold cut
    rw [if_pos hblank]
    rfl
  | @line body after hbody hafter =>
    obtain ⟨rfl, rfl⟩ := List.cons.inj htext
    exact cut_line hbody hafter
  | @block body after hfirst =>
    obtain ⟨rfl, rfl⟩ := List.cons.inj htext
    rw [List.cons_append, cut_block, commentBody_of_first hfirst]
  | @openBlock body hnever =>
    obtain ⟨rfl, rfl⟩ := List.cons.inj htext
    rw [List.append_nil, cut_block, commentBody_of_never hnever]

/-- **A spelling determines its piece**: a text that is spelled as a piece should be, in front of
what follows it, is cut off as that piece. -/
theorem cut_eq_of_spelled {lexeme : Lexeme} {before after : List Char} {c : Char}
    {rest : List Char} (h : lexeme.Spelled before (c :: rest) after) :
    cut c (rest ++ after) = ⟨lexeme, c :: rest, after⟩ := by
  cases lexeme with
  | blank => exact IsBlankText.cut_eq h
  | token kind => exact Token.Kind.Spelled.cut_eq h
  | unclosed raw =>
    obtain ⟨htext, hopen, hends⟩ := h
    obtain ⟨rfl, rfl⟩ := List.cons.inj htext
    have hcut := cutString_of_isOpenText hopen hends
    rw [String.ofList_toList] at hcut
    exact hcut
  | illegal d =>
    obtain ⟨htext, hnothing⟩ := h
    obtain ⟨rfl, rfl⟩ := List.cons.inj htext
    -- A comment starts with a slash, which is a mark by itself.
    have hcomment : ¬ StartsComment (c :: after) := by
      rintro (⟨tail, hafter⟩ | ⟨tail, hafter⟩)
      · exact hnothing.mark .slash ⟨_, hafter⟩
      · exact hnothing.mark .slash ⟨_, hafter⟩
    have hnone : Mark.leading? (c :: after) = none := by
      cases hfound : Mark.leading? (c :: after) with
      | none => rfl
      | some mark => exact absurd (Mark.leading?_eq_some hfound) (hnothing.mark mark)
    rw [List.nil_append, cut_eq_cutMark (Bool.eq_false_iff.mpr hnothing.blank)
      (Bool.eq_false_iff.mpr hnothing.name) (Bool.eq_false_iff.mpr hnothing.digit) hnothing.quote
      hcomment, cutMark, hnone]
  | oversized digits =>
    obtain ⟨htext, hrun, hlarge⟩ := h
    rw [cut_of_isDigit (hrun.isDigit c List.mem_cons_self), ← List.cons_append,
      cutNumber_eq hrun, if_neg (Nat.not_le.mpr hlarge), htext, String.ofList_toList]

/-- The piece at the start of a text is taken off, and the rest is cut by itself. -/
theorem scan_eq_of_spelled {lexeme : Lexeme} {before text after : List Char} (htext : text ≠ [])
    (h : lexeme.Spelled before text after) (offset line : Nat) :
    Piece.scan offset line (text ++ after) =
      ⟨lexeme, text, ⟨offset, offset + text.length, line⟩⟩ ::
        Piece.scan (offset + text.length) (line + text.count '\n') after := by
  obtain ⟨c, rest, rfl⟩ := List.exists_cons_of_ne_nil htext
  have hcut := cut_eq_of_spelled h
  rw [List.cons_append, Piece.scan]
  simp only [hcut]

end Offside
