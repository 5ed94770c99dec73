import Mathlib.Data.List.Nodup
import Offside.Proofs.Token.Spelling

/-!
# The pieces tile the source

Every character of a source text belongs to exactly one token, one skipped stretch or one gap of
blanks and comments, and the text of each of them is spelled as it should be. The faults of strings
that are never closed are no tiles of their own: they point at the token of the string.

* `abut_scan`: the pieces of a text stand one right after the other, from its start to its end.
* `Piece.isAt_of_mem_scan`: each of them lies where its span says and is spelled as it should be.
* `itemSpans_gapSpans_perm`: tokens, skipped stretches and gaps together are all the pieces.
* `exists_tiling` puts them together: the tokens and the faults of a source text tile it.
-/

namespace Offside

/-! ### Spans in a text -/

namespace Span

/-- The characters of a text that a span covers. -/
def textIn (source : List Char) (span : Span) : List Char :=
  (source.take span.stop).drop span.start

/-- A span covers at least one character of a text, and has the line on which it starts. -/
structure LiesIn (source : List Char) (span : Span) : Prop where
  nonempty : span.start < span.stop
  inside : span.stop ≤ source.length
  line_eq : span.line = 1 + (source.take span.start).count '\n'

/-- The first span ends before the second one starts. -/
def Precedes (a b : Span) : Prop := a.stop ≤ b.start

/-- Two spans have no character in common. -/
def Apart (a b : Span) : Prop := a.Precedes b ∨ b.Precedes a

/-- The spans stand one right after the other and lead from `lo` to `hi`. -/
def Abut : Nat → List Span → Nat → Prop
  | lo, [], hi => lo = hi
  | lo, span :: spans, hi => span.start = lo ∧ lo < span.stop ∧ Abut span.stop spans hi

variable {lo hi : Nat} {spans : List Span}

theorem Abut.le_start (h : Abut lo spans hi) : ∀ span ∈ spans, lo ≤ span.start := by
  induction spans generalizing lo with
  | nil => simp
  | cons first rest ih =>
    obtain ⟨hstart, hlt, hrest⟩ := h
    intro span hspan
    rcases List.mem_cons.mp hspan with rfl | hspan
    · exact Nat.le_of_eq hstart.symm
    · exact Nat.le_trans (Nat.le_of_lt hlt) (ih hrest span hspan)

theorem Abut.pairwise (h : Abut lo spans hi) : spans.Pairwise Precedes := by
  induction spans generalizing lo with
  | nil => exact .nil
  | cons first rest ih =>
    obtain ⟨-, -, hrest⟩ := h
    exact .cons hrest.le_start (ih hrest)

/-- Spans that abut leave nothing out. -/
theorem Abut.exists_mem (h : Abut lo spans hi) {i : Nat} (hlo : lo ≤ i) (hhi : i < hi) :
    ∃ span ∈ spans, span.start ≤ i ∧ i < span.stop := by
  induction spans generalizing lo with
  | nil =>
    have hend : lo = hi := h
    omega
  | cons first rest ih =>
    obtain ⟨hstart, hlt, hrest⟩ := h
    by_cases hi : i < first.stop
    · exact ⟨first, List.mem_cons_self, by omega, hi⟩
    · obtain ⟨span, hspan, hcovers⟩ := ih hrest (by omega)
      exact ⟨span, List.mem_cons_of_mem _ hspan, hcovers⟩

variable (before text after : List Char)

/-- The span of a part of a text covers that part. -/
theorem textIn_append (line : Nat) :
    textIn (before ++ (text ++ after)) ⟨before.length, before.length + text.length, line⟩ =
      text := by
  rw [textIn, ← List.append_assoc, ← List.length_append, List.take_left, List.drop_left]

theorem drop_stop_append :
    (before ++ (text ++ after)).drop (before.length + text.length) = after := by
  rw [← List.append_assoc, ← List.length_append, List.drop_left]

end Span

/-! ### The pieces of a text -/

/-- The text at a span is spelled as a lexeme of this kind should be. -/
def Lexeme.SpelledAt (source : List Char) (span : Span) (lexeme : Lexeme) : Prop :=
  lexeme.Spelled (source.take span.start) (span.textIn source) (source.drop span.stop)

/-- A piece lies where its span says, and the text there is spelled as it should be. -/
structure Piece.IsAt (source : List Char) (piece : Piece) : Prop where
  lies : piece.span.LiesIn source
  spelled : piece.lexeme.SpelledAt source piece.span

/-- **The pieces abut**: each starts where the one before it ends, and the last ends with the
text. -/
theorem abut_scan (offset line : Nat) (text : List Char) :
    Span.Abut offset ((Piece.scan offset line text).map Piece.span) (offset + text.length) := by
  induction offset, line, text using Piece.scan.induct with
  | case1 offset line =>
    rw [Piece.scan]
    rfl
  | case2 offset line c rest first ih =>
    have hpos := List.length_pos_iff.mpr (cut_text_ne_nil c rest)
    have hlength := congrArg List.length (cut_text_append_rest c rest)
    rw [List.length_append] at hlength
    rw [Piece.scan, List.map_cons, ← hlength, ← Nat.add_assoc]
    exact ⟨rfl, Nat.lt_add_of_pos_right hpos, ih⟩

theorem BreaksDigits.append_left {text after : List Char} (h : BreaksDigits text after)
    (htext : text ≠ []) (before : List Char) : BreaksDigits (before ++ text) after := by
  intro c hc
  rw [List.getLast?_append_of_ne_nil before htext] at hc
  exact h c hc

/-- The first piece of what is left of a text lies where the part before it ends. -/
theorem Piece.isAt_cut {before : List Char} {c : Char} {rest : List Char}
    (hbreaks : BreaksDigits before (c :: rest)) :
    Piece.IsAt (before ++ c :: rest)
      ⟨(cut c rest).lexeme, (cut c rest).text,
        ⟨before.length, before.length + (cut c rest).text.length, 1 + before.count '\n'⟩⟩ := by
  have hpos := List.length_pos_iff.mpr (cut_text_ne_nil c rest)
  have hspelled := cut_spelled hbreaks
  rw [← cut_text_append_rest c rest]
  generalize (cut c rest).lexeme = lexeme at *
  generalize (cut c rest).text = text at *
  generalize (cut c rest).rest = after at *
  refine ⟨⟨by simpa using hpos, by simp, ?_⟩, ?_⟩
  · rw [List.take_left]
  · rw [Lexeme.SpelledAt, List.take_left, Span.textIn_append, Span.drop_stop_append]
    exact hspelled

/-- **Every piece is where it should be**: what has been cut off so far, `before`, tells the place
of the next piece. -/
theorem Piece.isAt_of_mem_scan (offset line : Nat) (text : List Char) :
    ∀ before, offset = before.length → line = 1 + before.count '\n' → BreaksDigits before text →
      ∀ piece ∈ Piece.scan offset line text, piece.IsAt (before ++ text) := by
  induction offset, line, text using Piece.scan.induct with
  | case1 offset line => simp [Piece.scan]
  | case2 offset line c rest first ih =>
    rintro before rfl rfl hbreaks piece hpiece
    rw [Piece.scan] at hpiece
    rcases List.mem_cons.mp hpiece with rfl | hpiece
    · exact Piece.isAt_cut hbreaks
    · -- The rest is scanned with the first piece moved to what has been cut off.
      have hsplit : before ++ c :: rest = (before ++ first.text) ++ first.rest := by
        rw [List.append_assoc, cut_text_append_rest]
      have hnext : BreaksDigits (before ++ first.text) first.rest :=
        (cut_spelled hbreaks).breaksDigits.append_left (cut_text_ne_nil c rest) before
      rw [hsplit]
      refine ih _ ?_ ?_ hnext piece hpiece
      · rw [List.length_append]
      · rw [List.count_append, Nat.add_assoc]

theorem Piece.isAt_of_mem_pieces {source : String} {piece : Piece}
    (h : piece ∈ pieces source) : piece.IsAt source.toList := by
  have hbreaks : BreaksDigits [] source.toList := by simp [BreaksDigits]
  exact Piece.isAt_of_mem_scan 0 1 source.toList [] rfl rfl hbreaks piece h

theorem abut_pieces (source : String) :
    Span.Abut 0 ((pieces source).map Piece.span) source.toList.length := by
  have habut := abut_scan 0 1 source.toList
  rwa [Nat.zero_add] at habut

theorem pairwise_pieces (source : String) :
    (pieces source).Pairwise fun p q => p.span.Precedes q.span :=
  List.pairwise_map.mp (abut_pieces source).pairwise

/-- A span belongs to one piece only. -/
theorem eq_of_span_eq {source : String} {p q : Piece} (hp : p ∈ pieces source)
    (hq : q ∈ pieces source) (hspan : p.span = q.span) : p = q := by
  have hnodup : ((pieces source).map Piece.span).Nodup := by
    rw [List.Nodup, List.pairwise_map]
    -- A span that is not empty does not end before it starts.
    refine (pairwise_pieces source).imp_of_mem fun {p q} hp _ hprecedes heq => ?_
    have hnonempty := (Piece.isAt_of_mem_pieces hp).lies.nonempty
    rw [Span.Precedes, ← heq] at hprecedes
    omega
  exact List.inj_on_of_nodup_map hnodup hp hq hspan

/-! ### Tokens, faults and gaps among the pieces -/

theorem Piece.span_of_token? {piece : Piece} {token : Token} (h : piece.token? = some token) :
    token.span = piece.span := by
  unfold Piece.token? at h
  split at h <;> cases h <;> rfl

theorem Piece.span_of_fault? {piece : Piece} {fault : LexicalFault}
    (h : piece.fault? = some fault) : fault.span = piece.span := by
  unfold Piece.fault? at h
  split at h <;> cases h <;> rfl

theorem pairwise_tokens (source : String) :
    (tokens source).Pairwise fun a b => a.span.Precedes b.span := by
  refine (pairwise_pieces source).filterMap Piece.token? fun p q hprecedes a ha b hb => ?_
  rwa [Piece.span_of_token? ha, Piece.span_of_token? hb]

theorem pairwise_lexicalFaults (source : String) :
    (lexicalFaults source).Pairwise fun a b => a.span.Precedes b.span := by
  refine (pairwise_pieces source).filterMap Piece.fault? fun p q hprecedes a ha b hb => ?_
  rwa [Piece.span_of_fault? ha, Piece.span_of_fault? hb]

/-- What is skipped because of a fault. A string that is never closed is not skipped. -/
def LexicalFault.skipped? : LexicalFault → Option Lexeme
  | illegalCharacter c _ => some (.illegal c)
  | unterminatedString _ => none
  | numberOverflow digits _ => some (.oversized digits)

/-- The spans of the tokens, and those of the stretches that are skipped because of a fault. -/
def itemSpans (tokens : List Token) (faults : List LexicalFault) : List Span :=
  tokens.map Token.span ++ (faults.filter fun fault => fault.skipped?.isSome).map LexicalFault.span

/-- The spans of the blanks and comments among the pieces. -/
def gapSpans (pieces : List Piece) : List Span :=
  (pieces.filter fun piece => piece.lexeme = .blank).map Piece.span

/-- Every piece is a token, a skipped stretch or a gap, and only one of them. -/
theorem itemSpans_gapSpans_perm (pieces : List Piece) :
    List.Perm (itemSpans (pieces.filterMap Piece.token?) (pieces.filterMap Piece.fault?) ++
      gapSpans pieces) (pieces.map Piece.span) := by
  induction pieces with
  | nil => exact .nil
  | cons piece rest ih =>
    obtain ⟨lexeme, text, span⟩ := piece
    rw [List.map_cons]
    -- The span of the piece is moved to the front of the list in which it stands.
    refine List.Perm.trans ?_ (ih.cons span)
    cases lexeme with
    | blank => exact List.perm_middle
    | token kind => exact .refl _
    | unclosed raw => exact .refl _
    | illegal c => exact List.perm_middle.append_right _
    | oversized digits => exact List.perm_middle.append_right _

/-- A token is a piece of its kind, or a string that is never closed. -/
theorem exists_piece_of_mem_tokens {source : String} {token : Token}
    (h : token ∈ tokens source) :
    ∃ piece ∈ pieces source, piece.span = token.span ∧
      (piece.lexeme = .token token.kind ∨
        ∃ raw, piece.lexeme = .unclosed raw ∧ token.kind = .string raw) := by
  obtain ⟨piece, hpiece, htoken⟩ := List.mem_filterMap.mp h
  refine ⟨piece, hpiece, (Piece.span_of_token? htoken).symm, ?_⟩
  unfold Piece.token? at htoken
  split at htoken
  · next kind hlexeme =>
    cases htoken
    exact .inl hlexeme
  · next raw hlexeme =>
    cases htoken
    exact .inr ⟨raw, hlexeme, rfl⟩
  · cases htoken

/-- The piece at the span of a fault is what is skipped because of it. -/
theorem exists_piece_of_mem_lexicalFaults {source : String} {fault : LexicalFault}
    (h : fault ∈ lexicalFaults source) :
    ∃ piece ∈ pieces source, piece.span = fault.span ∧
      ∀ lexeme ∈ fault.skipped?, piece.lexeme = lexeme := by
  obtain ⟨piece, hpiece, hfault⟩ := List.mem_filterMap.mp h
  refine ⟨piece, hpiece, (Piece.span_of_fault? hfault).symm, ?_⟩
  unfold Piece.fault? at hfault
  split at hfault <;> cases hfault <;> rintro lexeme ⟨⟩ <;> assumption

/-- A string is reported as never closed if it is a piece of this kind. -/
theorem unterminatedString_mem_iff {source : String} {span : Span} :
    .unterminatedString span ∈ lexicalFaults source ↔
      ∃ piece ∈ pieces source, piece.span = span ∧ ∃ raw, piece.lexeme = .unclosed raw := by
  constructor
  · intro h
    obtain ⟨piece, hpiece, hfault⟩ := List.mem_filterMap.mp h
    refine ⟨piece, hpiece, (Piece.span_of_fault? hfault).symm, ?_⟩
    unfold Piece.fault? at hfault
    split at hfault
    · next raw hlexeme => exact ⟨raw, hlexeme⟩
    all_goals cases hfault
  · rintro ⟨piece, hpiece, rfl, raw, hlexeme⟩
    exact List.mem_filterMap.mpr ⟨piece, hpiece, by rw [Piece.fault?, hlexeme]⟩

/-- A token is spelled as it should be. If a string is reported at its place, it is that string. -/
theorem spelledAt_of_mem_tokens {source : String} {token : Token} (h : token ∈ tokens source) :
    (.unterminatedString token.span ∉ lexicalFaults source ∧
      (Lexeme.token token.kind).SpelledAt source.toList token.span) ∨
    (.unterminatedString token.span ∈ lexicalFaults source ∧
      ∃ raw, token.kind = .string raw ∧
        (Lexeme.unclosed raw).SpelledAt source.toList token.span) := by
  obtain ⟨piece, hpiece, hspan, hlexeme⟩ := exists_piece_of_mem_tokens h
  have hspelled := (Piece.isAt_of_mem_pieces hpiece).spelled
  rw [hspan] at hspelled
  rcases hlexeme with hlexeme | ⟨raw, hlexeme, hkind⟩
  · rw [hlexeme] at hspelled
    refine .inl ⟨fun hopen => ?_, hspelled⟩
    -- The string that is reported would be another piece at the same place.
    obtain ⟨other, hother, hspan', raw, hlexeme'⟩ := unterminatedString_mem_iff.mp hopen
    obtain rfl : piece = other := eq_of_span_eq hpiece hother (hspan.trans hspan'.symm)
    rw [hlexeme] at hlexeme'
    cases hlexeme'
  · rw [hlexeme] at hspelled
    have hopen := unterminatedString_mem_iff.mpr ⟨piece, hpiece, hspan, raw, hlexeme⟩
    exact .inr ⟨hopen, raw, hkind, hspelled⟩

/-! ### The tiling -/

/-- The tokens and the faults of a text, with the gaps between them, tile it. -/
structure Tiling (source : List Char) (tokens : List Token) (faults : List LexicalFault)
    (gaps : List Span) : Prop where
  /-- Every tile covers a part of the text and has the line on which it starts. -/
  lies : ∀ span ∈ itemSpans tokens faults ++ gaps, span.LiesIn source
  /-- No two tiles overlap. -/
  apart : (itemSpans tokens faults ++ gaps).Pairwise Span.Apart
  /-- Every character is in some tile. -/
  covers : ∀ i < source.length, ∃ span ∈ itemSpans tokens faults ++ gaps,
    span.start ≤ i ∧ i < span.stop
  /-- Tokens are listed from left to right. -/
  tokens_in_order : tokens.Pairwise fun a b => a.span.Precedes b.span
  /-- Faults are listed from left to right. -/
  faults_in_order : faults.Pairwise fun a b => a.span.Precedes b.span
  /-- Gaps are white space and comments. -/
  gap_spelled : ∀ gap ∈ gaps, Lexeme.blank.SpelledAt source gap
  /-- A token is spelled as it should be, unless it is a string that is reported as never
  closed. -/
  token_spelled : ∀ token ∈ tokens, .unterminatedString token.span ∉ faults →
    (Lexeme.token token.kind).SpelledAt source token.span
  /-- A string that is reported as never closed is open up to the end of its line. -/
  open_spelled : ∀ token ∈ tokens, .unterminatedString token.span ∈ faults →
    ∃ raw, token.kind = .string raw ∧ (Lexeme.unclosed raw).SpelledAt source token.span
  /-- Only strings are reported as never closed. -/
  open_token : ∀ span, .unterminatedString span ∈ faults → ∃ raw, ⟨.string raw, span⟩ ∈ tokens
  /-- Skipped text is an illegal character or a number that is too large, as the fault says. -/
  skipped_spelled : ∀ fault ∈ faults, ∀ lexeme ∈ fault.skipped?,
    lexeme.SpelledAt source fault.span

/-- **The tokens and the faults of a source text tile it.** -/
theorem exists_tiling (source : String) :
    ∃ gaps, Tiling source.toList (tokens source) (lexicalFaults source) gaps := by
  have hperm := itemSpans_gapSpans_perm (pieces source)
  have habut := abut_pieces source
  refine ⟨gapSpans (pieces source), ?_⟩
  constructor
  case lies =>
    intro span hspan
    obtain ⟨piece, hpiece, rfl⟩ := List.mem_map.mp (hperm.mem_iff.mp hspan)
    exact (Piece.isAt_of_mem_pieces hpiece).lies
  case apart =>
    refine (hperm.pairwise_iff Or.symm).mpr ?_
    exact habut.pairwise.imp Or.inl
  case covers =>
    intro i hi
    obtain ⟨span, hspan, hcovers⟩ := habut.exists_mem (Nat.zero_le i) hi
    exact ⟨span, hperm.mem_iff.mpr hspan, hcovers⟩
  case tokens_in_order => exact pairwise_tokens source
  case faults_in_order => exact pairwise_lexicalFaults source
  case gap_spelled =>
    intro gap hgap
    obtain ⟨piece, hpiece, rfl⟩ := List.mem_map.mp hgap
    obtain ⟨hpiece, hblank⟩ := List.mem_filter.mp hpiece
    have hspelled := (Piece.isAt_of_mem_pieces hpiece).spelled
    rwa [of_decide_eq_true hblank] at hspelled
  case token_spelled =>
    intro token htoken hclosed
    rcases spelledAt_of_mem_tokens htoken with ⟨-, hspelled⟩ | ⟨hopen, -⟩
    · exact hspelled
    · exact absurd hopen hclosed
  case open_spelled =>
    intro token htoken hopen
    rcases spelledAt_of_mem_tokens htoken with ⟨hclosed, -⟩ | ⟨-, hspelled⟩
    · exact absurd hopen hclosed
    · exact hspelled
  case open_token =>
    intro span hopen
    obtain ⟨piece, hpiece, rfl, raw, hlexeme⟩ := unterminatedString_mem_iff.mp hopen
    exact ⟨raw, List.mem_filterMap.mpr ⟨piece, hpiece, by rw [Piece.token?, hlexeme]⟩⟩
  case skipped_spelled =>
    intro fault hfault lexeme hlexeme
    obtain ⟨piece, hpiece, hspan, hskipped⟩ := exists_piece_of_mem_lexicalFaults hfault
    have hspelled := (Piece.isAt_of_mem_pieces hpiece).spelled
    rwa [hskipped lexeme hlexeme, hspan] at hspelled

end Offside
