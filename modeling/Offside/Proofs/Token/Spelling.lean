import Offside.Proofs.Token.Names

/-!
# How a piece is spelled

What a stretch of source text has to look like to be a blank, a token or one of the two kinds of
skipped text. `Lexeme.Spelled` says it for a text together with what stands before and after it,
since words, numbers and marks reach as far as they can: a text is taken apart in one way only.

`cut_spelled` is the main statement: the first piece that `cut` takes off a text is spelled as it
should be, given that no run of digits was broken off before it; and `Lexeme.Spelled.breaksDigits`
hands this condition on to the piece that follows.
-/

namespace Offside

/-! ### What follows a text, and what stands before it -/

/-- No name goes on here. -/
def EndsName (after : List Char) : Prop :=
  ∀ c ∈ after.head?, ¬ isNameChar c

/-- The line, or the whole text, ends here. -/
def EndsLine (after : List Char) : Prop :=
  ∀ c ∈ after.head?, c = '\n'

/-- No run of digits goes on from `before` into `after`. -/
def BreaksDigits (before after : List Char) : Prop :=
  ∀ c ∈ before.getLast?, ∀ d ∈ after.head?, ¬ (c.isDigit ∧ d.isDigit)

/-- A run of digits that is as long as it can be on both sides. -/
structure IsDigitRun (before text after : List Char) : Prop where
  isDigit : ∀ c ∈ text, c.isDigit
  left : ∀ c ∈ before.getLast?, ¬ c.isDigit
  right : ∀ c ∈ after.head?, ¬ c.isDigit

/-- A comment starts here. -/
def StartsComment (text : List Char) : Prop :=
  ['/', '/'] <+: text ∨ ['/', '*'] <+: text

/-- The rest of `console.log` comes next. -/
def StartsLog (text : List Char) : Prop :=
  ∃ rest, text = ".log".toList ++ rest ∧ EndsName rest

/-! ### Spellings -/

/-- White space and comments. A comment in one line ends with the line; a block comment ends with
the first `*/`, or is open up to the end of the text. -/
inductive IsBlankText : List Char → List Char → Prop where
  | space {c : Char} {after : List Char} (hblank : isBlank c) : IsBlankText [c] after
  | line {body after : List Char} (hbody : '\n' ∉ body) (hafter : EndsLine after) :
      IsBlankText ('/' :: '/' :: body) after
  | block {body after : List Char} (hfirst : ¬ ['*', '/'] <:+: body ++ ['*']) :
      IsBlankText ('/' :: '*' :: (body ++ ['*', '/'])) after
  | openBlock {body : List Char} (hnever : ¬ ['*', '/'] <:+: body) :
      IsBlankText ('/' :: '*' :: body) []

/-- The text is that of a token. Words are as long as they can be, and so are numbers and marks;
a string ends with its first quote that is not escaped. -/
def Token.Kind.Spelled (before text after : List Char) : Token.Kind → Prop
  | .keyword k => text = k.spelling.toList ∧ EndsName after
  | .consoleLog => text = "console.log".toList ∧ EndsName after
  | .identifier name =>
    text = name.toList ∧ Python.isIdentifier text ∧ (∀ k : Keyword, k.spelling ≠ name) ∧
      EndsName after ∧ (name = "console" → ¬ StartsLog after)
  | .number value =>
    IsDigitRun before text after ∧ value = decimalValue text ∧ decimalValue text ≤ maxNumber
  | .string raw => text = '"' :: (raw.toList ++ ['"']) ∧ Python.isClosed isNewline raw.toList
  | .mark m =>
    text = m.spelling.toList ∧ ¬ StartsComment (text ++ after) ∧
      ∀ other : Mark, other.spelling.toList <+: text ++ after →
        other.spelling.length ≤ m.spelling.length

/-- No blank and no token starts with `c` when `after` follows. -/
structure StartsNothing (c : Char) (after : List Char) : Prop where
  blank : ¬ isBlank c
  name : ¬ isNameStart c
  digit : ¬ c.isDigit
  quote : c ≠ '"'
  mark : ∀ mark : Mark, ¬ mark.spelling.toList <+: c :: after

/-- Nothing in the text of a string closes it, though a backslash can be left over at its end. -/
def IsOpenText (raw : List Char) : Prop :=
  ∃ body, Python.isClosed isNewline body ∧ (raw = body ∨ raw = body ++ ['\\'])

/-- The text is that of a piece. -/
def Lexeme.Spelled (before text after : List Char) : Lexeme → Prop
  | .blank => IsBlankText text after
  | .token kind => kind.Spelled before text after
  | .unclosed raw => text = '"' :: raw.toList ∧ IsOpenText raw.toList ∧ EndsLine after
  | .illegal c => text = [c] ∧ StartsNothing c after
  | .oversized digits =>
    text = digits.toList ∧ IsDigitRun before text after ∧ maxNumber < decimalValue text

/-! ### Words -/

theorem not_of_mem_head?_dropWhile {p : Char → Bool} {text : List Char} :
    ∀ c ∈ (text.dropWhile p).head?, ¬ p c := by
  intro c hc
  have hstop := List.head?_dropWhile_not p text
  rw [Option.mem_def.mp hc] at hstop
  simp [hstop]

theorem Keyword.mem_all (keyword : Keyword) : keyword ∈ Keyword.all := by
  cases keyword with
  | decl kind => cases kind <;> decide
  | _ => decide

theorem wordKind_spelled {before after : List Char} {word : String}
    (hname : Python.isIdentifier word.toList) (hends : EndsName after)
    (hlog : word = "console" → ¬ StartsLog after) :
    (wordKind word).Spelled before word.toList after := by
  unfold wordKind Keyword.ofSpelling?
  split
  · next keyword hfound =>
    have hspelling := List.find?_some
      (p := fun keyword : Keyword => keyword.spelling == word) hfound
    exact ⟨by rw [beq_iff_eq.mp hspelling], hends⟩
  · next hnone =>
    refine ⟨rfl, hname, fun keyword hspelling => ?_, hends, hlog⟩
    have hnot := List.find?_eq_none.mp hnone keyword keyword.mem_all
    exact hnot (beq_iff_eq.mpr hspelling)

theorem endsName_of_afterLog? {text rest : List Char} (h : afterLog? text = some rest) :
    EndsName rest := by
  unfold afterLog? at h
  split at h
  · split at h
    · cases h
    · next hgoes =>
      cases h
      intro c hc hname
      rw [Option.mem_def.mp hc] at hgoes
      exact hgoes hname
  · cases h

theorem afterLog?_log {rest : List Char} (h : EndsName rest) :
    afterLog? (".log".toList ++ rest) = some rest := by
  have hstop : rest.head?.any isNameChar = false := by
    cases hhead : rest.head? with
    | none => rfl
    | some c => simpa using h c hhead
  simp [afterLog?, hstop]

theorem not_startsLog {text : List Char} (h : afterLog? text = none) : ¬ StartsLog text := by
  rintro ⟨rest, rfl, hends⟩
  rw [afterLog?_log hends] at h
  cases h

theorem cutWord_spelled {before : List Char} {c : Char} (rest : List Char)
    (hstart : isNameStart c) :
    (cutWord (c :: rest)).lexeme.Spelled before (cutWord (c :: rest)).text
      (cutWord (c :: rest)).rest := by
  have hname := isIdentifier_takeWhile rest hstart
  have hends : EndsName ((c :: rest).dropWhile isNameChar) := not_of_mem_head?_dropWhile
  simp only [cutWord]
  generalize (c :: rest).takeWhile isNameChar = word at *
  generalize (c :: rest).dropWhile isNameChar = after at *
  split
  · next rest' hlog =>
    split at hlog
    · next hword =>
      subst hword
      exact ⟨rfl, endsName_of_afterLog? hlog⟩
    · cases hlog
  · next hlog =>
    rw [← String.toList_ofList (l := word)] at hname
    have hlog : String.ofList word = "console" → ¬ StartsLog after := by
      intro hword
      have hlist : word = "console".toList := by rw [← hword, String.toList_ofList]
      rw [if_pos hlist] at hlog
      exact not_startsLog hlog
    have hspelled : (wordKind (String.ofList word)).Spelled before _ after :=
      wordKind_spelled hname hends hlog
    rwa [String.toList_ofList] at hspelled

/-! ### Numbers -/

theorem cutNumber_spelled {before : List Char} {c : Char} {rest : List Char}
    (hdigit : c.isDigit) (hbreaks : BreaksDigits before (c :: rest)) :
    (cutNumber (c :: rest)).lexeme.Spelled before (cutNumber (c :: rest)).text
      (cutNumber (c :: rest)).rest := by
  have hrun : IsDigitRun before ((c :: rest).takeWhile Char.isDigit)
      ((c :: rest).dropWhile Char.isDigit) :=
    { isDigit := List.all_eq_true.mp List.all_takeWhile
      left := fun d hd hdigit' => hbreaks d hd c rfl ⟨hdigit', hdigit⟩
      right := not_of_mem_head?_dropWhile }
  simp only [cutNumber]
  split
  · next hsmall =>
    exact ⟨hrun, rfl, hsmall⟩
  · next hlarge =>
    exact ⟨String.toList_ofList.symm, hrun, Nat.lt_of_not_le hlarge⟩

/-! ### Strings -/

theorem isClosed_cons {c : Char} {raw : List Char} (hc : c ≠ '\\') :
    Python.isClosed isNewline (c :: raw) =
      (c != '"' && !isNewline c && Python.isClosed isNewline raw) := by
  rw [Python.isClosed]
  · rintro rfl
    exact absurd rfl hc
  · rintro d rest rfl
    exact absurd rfl hc

theorem isClosed_escape {c : Char} {raw : List Char} :
    Python.isClosed isNewline ('\\' :: c :: raw) =
      (!isNewline c && Python.isClosed isNewline raw) := by
  rw [Python.isClosed]

/-- The string goes up to a quote that closes it, or to the end of the line. -/
def StringBody.Spelled (body : StringBody) : Prop :=
  if body.closed then Python.isClosed isNewline body.raw = true
  else IsOpenText body.raw ∧ EndsLine body.rest

/-- Characters that are closed in themselves can be put in front of a string. -/
theorem StringBody.Spelled.append {body : StringBody} (h : body.Spelled) {front : List Char}
    (hfront : ∀ raw, Python.isClosed isNewline raw → Python.isClosed isNewline (front ++ raw)) :
    { body with raw := front ++ body.raw : StringBody }.Spelled := by
  unfold StringBody.Spelled at *
  split at h
  · next hclosed =>
    rw [if_pos hclosed]
    exact hfront _ h
  · next hopen =>
    rw [if_neg hopen]
    obtain ⟨⟨text, htext, hraw⟩, hends⟩ := h
    refine ⟨⟨front ++ text, hfront _ htext, ?_⟩, hends⟩
    rcases hraw with hraw | hraw
    · exact .inl (by rw [hraw])
    · exact .inr (by rw [hraw, List.append_assoc])

theorem stringBody_spelled (text : List Char) : (stringBody text).Spelled := by
  have hopen : IsOpenText [] := ⟨[], rfl, .inl rfl⟩
  have hlone : IsOpenText ['\\'] := ⟨[], rfl, .inr rfl⟩
  have hend : EndsLine [] := by simp [EndsLine]
  have hline (rest : List Char) : EndsLine ('\n' :: rest) := by simp [EndsLine]
  fun_induction stringBody text with
  | case1 => exact ⟨hopen, hend⟩
  | case2 => rfl
  | case3 rest => exact ⟨hopen, hline rest⟩
  | case4 => exact ⟨hlone, hend⟩
  | case5 rest => exact ⟨hlone, hline rest⟩
  | case6 c rest hc ih =>
    have hescape (raw : List Char) (h : Python.isClosed isNewline raw) :
        Python.isClosed isNewline (['\\', c] ++ raw) := by
      simpa [isClosed_escape, h] using hc
    exact ih.append hescape
  | case7 c rest hquote hnewline hlast _ hescape ih =>
    -- A backslash at this place would escape the next character or be the last one.
    have hplain : c ≠ '\\' := by
      rintro rfl
      cases rest with
      | nil => exact hlast rfl rfl
      | cons d rest => exact hescape d rest rfl rfl
    have hcons (raw : List Char) (h : Python.isClosed isNewline raw) :
        Python.isClosed isNewline ([c] ++ raw) := by
      rw [List.singleton_append, isClosed_cons hplain, h]
      simpa using ⟨hquote, hnewline⟩
    exact ih.append hcons

theorem cutString_spelled {before : List Char} (text : List Char) :
    (cutString text).lexeme.Spelled before (cutString text).text (cutString text).rest := by
  have hbody := stringBody_spelled text
  unfold StringBody.Spelled at hbody
  simp only [cutString]
  split at hbody
  · next hclosed =>
    rw [if_pos hclosed]
    refine ⟨?_, ?_⟩
    · rw [String.toList_ofList]
    · rwa [String.toList_ofList]
  · next hopen =>
    rw [if_neg hopen]
    refine ⟨?_, ?_, hbody.2⟩
    · rw [String.toList_ofList]
    · rw [String.toList_ofList]
      exact hbody.1

/-! ### Comments -/

theorem isBlankText_line (text : List Char) :
    IsBlankText ('/' :: '/' :: text.takeWhile (· != '\n')) (text.dropWhile (· != '\n')) := by
  refine .line (fun hmem => ?_) (fun c hc => ?_)
  · have hall := List.all_eq_true.mp (List.all_takeWhile (p := (· != '\n')) (l := text))
    simpa using hall _ hmem
  · simpa using not_of_mem_head?_dropWhile c hc

/-- The body of a block comment stops at the first `*/`. -/
theorem commentBody_cases (text : List Char) :
    (∃ body, (commentBody text).1 = body ++ ['*', '/'] ∧ ¬ ['*', '/'] <:+: body ++ ['*']) ∨
      (commentBody text).2 = [] ∧ ¬ ['*', '/'] <:+: (commentBody text).1 := by
  fun_induction commentBody text with
  | case1 => exact .inr ⟨rfl, by simp⟩
  | case2 rest => exact .inl ⟨[], rfl, by decide⟩
  | case3 c rest hc ih =>
    -- An occurrence that starts with `c` would make `c :: rest` start with `*/`.
    have hhead {tail : List Char} (htail : tail <+: rest) : ¬ ['*', '/'] <+: c :: tail := by
      rintro ⟨after, hafter⟩
      obtain ⟨after', rfl⟩ := htail
      obtain ⟨rfl, rfl⟩ := List.cons.inj hafter
      exact hc _ rfl rfl
    have hbegins : (commentBody rest).1 <+: rest := ⟨_, commentBody_append rest⟩
    rcases ih with ⟨body, hbody, hfirst⟩ | ⟨hrest, hnever⟩
    · refine .inl ⟨c :: body, by rw [hbody]; rfl, ?_⟩
      rw [List.cons_append, List.infix_cons_iff]
      have hbody' : body ++ ['*'] <+: rest := by
        refine List.IsPrefix.trans ⟨['/'], ?_⟩ hbegins
        rw [hbody, List.append_assoc]
        rfl
      exact fun h => h.elim (hhead hbody') hfirst
    · refine .inr ⟨hrest, ?_⟩
      rw [List.infix_cons_iff]
      exact fun h => h.elim (hhead hbegins) hnever

theorem isBlankText_block (text : List Char) :
    IsBlankText ('/' :: '*' :: (commentBody text).1) (commentBody text).2 := by
  rcases commentBody_cases text with ⟨body, hbody, hfirst⟩ | ⟨hrest, hnever⟩
  · rw [hbody]
    exact .block hfirst
  · rw [hrest]
    exact .openBlock hnever

/-! ### Marks -/

theorem Mark.mem_all (mark : Mark) : mark ∈ Mark.all := by
  cases mark <;> decide

/-- Longer marks are tried first. -/
theorem Mark.pairwise_all :
    Mark.all.Pairwise fun a b => b.spelling.length ≤ a.spelling.length := by
  decide

/-- No longer mark starts where a mark is found. -/
theorem Mark.length_le_of_leading? {text : List Char} {mark other : Mark}
    (hmark : Mark.leading? text = some mark) (hother : other.spelling.toList <+: text) :
    other.spelling.length ≤ mark.spelling.length := by
  obtain ⟨-, earlier, later, hall, hearlier⟩ := List.find?_eq_some_iff_append.mp hmark
  have hmem : other ∈ earlier ++ mark :: later := hall ▸ other.mem_all
  have hsorted := Mark.pairwise_all
  rw [hall, List.pairwise_append, List.pairwise_cons] at hsorted
  rcases List.mem_append.mp hmem with hmem | hmem
  · -- A mark that is tried earlier would have been found.
    have hbegins := List.isPrefixOf_iff_prefix.mpr hother
    have hnot := hearlier other hmem
    rw [hbegins] at hnot
    cases hnot
  · rcases List.mem_cons.mp hmem with rfl | hmem
    · exact Nat.le_refl _
    · exact hsorted.2.1.1 other hmem

theorem Mark.not_isPrefix_of_leading? {text : List Char} (h : Mark.leading? text = none)
    (mark : Mark) : ¬ mark.spelling.toList <+: text := by
  intro hmark
  have hbegins := List.isPrefixOf_iff_prefix.mpr hmark
  exact List.find?_eq_none.mp h mark mark.mem_all hbegins

theorem cutMark_spelled {before : List Char} {c : Char} {rest : List Char} (hblank : ¬ isBlank c)
    (hname : ¬ isNameStart c) (hdigit : ¬ c.isDigit) (hquote : c ≠ '"')
    (hcomment : ¬ StartsComment (c :: rest)) :
    (cutMark c rest).lexeme.Spelled before (cutMark c rest).text (cutMark c rest).rest := by
  have hwhole := cutMark_append c rest
  unfold cutMark at *
  split
  · next mark hmark =>
    rw [hmark] at hwhole
    refine ⟨rfl, ?_, ?_⟩
    · rwa [hwhole]
    · intro other hother
      rw [hwhole] at hother
      exact Mark.length_le_of_leading? hmark hother
  · next hnone =>
    exact ⟨rfl, hblank, hname, hdigit, hquote, Mark.not_isPrefix_of_leading? hnone⟩

/-! ### The first piece of a text -/

/-- The first piece of a text is spelled as it should be. -/
theorem cut_spelled {before : List Char} {c : Char} {rest : List Char}
    (hbreaks : BreaksDigits before (c :: rest)) :
    (cut c rest).lexeme.Spelled before (cut c rest).text (cut c rest).rest := by
  unfold cut
  split
  · next hblank => exact .space hblank
  · next hblank =>
    split
    · next hname => exact cutWord_spelled rest hname
    · next hname =>
      split
      · next hdigit => exact cutNumber_spelled hdigit hbreaks
      · next hdigit =>
        split
        · exact cutString_spelled rest
        · next hquote =>
          split
          · exact isBlankText_line _
          · exact isBlankText_block _
          · next hline hblock =>
            refine cutMark_spelled hblank hname hdigit hquote ?_
            rintro (⟨after, hafter⟩ | ⟨after, hafter⟩)
            · obtain ⟨rfl, rfl⟩ := List.cons.inj hafter
              exact hline _ rfl rfl
            · obtain ⟨rfl, rfl⟩ := List.cons.inj hafter
              exact hblock _ rfl rfl

/-! ### Digits at the seams -/

theorem not_isDigit_of_endsName {after : List Char} (h : EndsName after) :
    ∀ d ∈ after.head?, ¬ d.isDigit := by
  intro d hd hdigit
  exact h d hd (Python.isNameChar_of_isDigit hdigit)

theorem not_isDigit_of_endsLine {after : List Char} (h : EndsLine after) :
    ∀ d ∈ after.head?, ¬ d.isDigit := by
  intro d hd
  rw [h d hd]
  decide

theorem breaksDigits_of_right {text after : List Char} (h : ∀ d ∈ after.head?, ¬ d.isDigit) :
    BreaksDigits text after :=
  fun _ _ d hd hdigits => h d hd hdigits.2

theorem breaksDigits_of_left {text after : List Char} {c : Char} (hlast : text.getLast? = some c)
    (hc : ¬ c.isDigit) : BreaksDigits text after := by
  intro d hd e _ hdigits
  rw [hlast] at hd
  cases hd
  exact hc hdigits.1

theorem IsBlankText.breaksDigits {text after : List Char} (h : IsBlankText text after) :
    BreaksDigits text after := by
  cases h with
  | @space c after hblank =>
    have hdigit : ¬ c.isDigit := by
      simp only [isBlank, Bool.or_eq_true, beq_iff_eq] at hblank
      rcases hblank with ((rfl | rfl) | rfl) | rfl <;> decide
    exact breaksDigits_of_left rfl hdigit
  | line hbody hafter => exact breaksDigits_of_right (not_isDigit_of_endsLine hafter)
  | @block body after hfirst =>
    have hlast : ('/' :: '*' :: (body ++ ['*', '/'])).getLast? = some '/' := by
      simp [List.getLast?_cons]
    exact breaksDigits_of_left hlast (by decide)
  | openBlock hnever => exact breaksDigits_of_right (by simp)

theorem Token.Kind.Spelled.breaksDigits {kind : Token.Kind} {before text after : List Char}
    (h : kind.Spelled before text after) : BreaksDigits text after := by
  cases kind with
  | keyword k => exact breaksDigits_of_right (not_isDigit_of_endsName h.2)
  | consoleLog => exact breaksDigits_of_right (not_isDigit_of_endsName h.2)
  | identifier name => exact breaksDigits_of_right (not_isDigit_of_endsName h.2.2.2.1)
  | number value => exact breaksDigits_of_right h.1.right
  | string raw =>
    have hlast : text.getLast? = some '"' := by
      rw [h.1, ← List.cons_append]
      exact List.getLast?_concat
    exact breaksDigits_of_left hlast (by decide)
  | mark m =>
    obtain ⟨rfl, -⟩ := h
    cases m <;> exact breaksDigits_of_left rfl (by decide)

/-- No piece ends within a run of digits. -/
theorem Lexeme.Spelled.breaksDigits {lexeme : Lexeme} {before text after : List Char}
    (h : lexeme.Spelled before text after) : BreaksDigits text after := by
  cases lexeme with
  | blank => exact IsBlankText.breaksDigits h
  | token kind => exact Token.Kind.Spelled.breaksDigits h
  | unclosed raw => exact breaksDigits_of_right (not_isDigit_of_endsLine h.2.2)
  | illegal c =>
    obtain ⟨rfl, hnothing⟩ := h
    exact breaksDigits_of_left rfl hnothing.digit
  | oversized digits => exact breaksDigits_of_right h.2.1.right

end Offside
