import Mathlib.Algebra.Group.Nat.Even
import Mathlib.Data.List.DropRight
import Offside.Conversion
import Offside.Proofs.Token.Determined
import Offside.Proofs.Token.Tiling

/-!
# Strings that are quoted again

A string keeps its text as it is written, escapes and all, and is written out again by putting
quotes around that text. Nothing is escaped on the way, so what is written out is one closed string
only if the quote behind the text is not taken along by a backslash.

* `even_trailingBackslashes`: a text that is closed in itself ends with an even number of
  backslashes.
* `pieces_quoted` and `pieces_quoted_backslash`: the one piece that the quoted text is cut into,
  without and with a backslash left over at its end.
* `quoted_string_closed_iff` is the main statement. The quoted text of a string token is that token
  again exactly if its text ends with an even number of backslashes. All strings that are closed in
  the source are of this kind; those that are not are cut off by the end of the line or of the
  source right behind a backslash.
-/

namespace Offside

/-! ### Backslashes at the end of a text -/

/-- How many backslashes a text ends with. -/
def trailingBackslashes (text : List Char) : Nat :=
  (text.rtakeWhile (· == '\\')).length

theorem trailingBackslashes_le_length (text : List Char) :
    trailingBackslashes text ≤ text.length :=
  (List.rtakeWhile_suffix _ _).length_le

theorem trailingBackslashes_concat (text : List Char) :
    trailingBackslashes (text ++ ['\\']) = trailingBackslashes text + 1 := by
  rw [trailingBackslashes, List.rtakeWhile_concat_pos _ _ _ (by decide), List.length_append]
  rfl

/-- A character in front counts only if it is a backslash and nothing else follows. -/
theorem trailingBackslashes_cons (c : Char) (text : List Char) :
    trailingBackslashes (c :: text) =
      if c = '\\' ∧ trailingBackslashes text = text.length then text.length + 1
      else trailingBackslashes text := by
  simp only [trailingBackslashes, List.rtakeWhile, List.length_reverse, List.reverse_cons,
    List.takeWhile_append]
  by_cases hall : (text.reverse.takeWhile (· == '\\')).length = text.length
  · by_cases hc : c = '\\'
    · simp [hall, hc]
    · simp [hall, hc]
  · simp [hall]

/-- In a text that is closed in itself every backslash takes a character along. -/
theorem even_trailingBackslashes {raw : List Char} (h : Python.isClosed isNewline raw) :
    Even (trailingBackslashes raw) := by
  fun_induction Python.isClosed isNewline raw with
  | case1 => exact Even.zero
  | case2 => cases h
  | case3 c raw ih =>
    have heven := ih (Bool.and_eq_true_iff.mp h).2
    have hle := trailingBackslashes_le_length raw
    rw [trailingBackslashes_cons, trailingBackslashes_cons, List.length_cons]
    by_cases hall : c = '\\' ∧ trailingBackslashes raw = raw.length
    · -- Nothing but backslashes: two more of them.
      rw [if_pos hall, if_pos ⟨rfl, rfl⟩, ← hall.2]
      have htwo : Even 2 := by decide
      exact heven.add htwo
    · rw [if_neg hall, if_neg (by omega)]
      exact heven
  | case4 c raw hlone hescape ih =>
    have hplain : c ≠ '\\' := by
      rintro rfl
      cases raw with
      | nil => exact hlone rfl rfl
      | cons d raw => exact hescape d raw rfl rfl
    rw [trailingBackslashes_cons, if_neg fun hc => hplain hc.1]
    exact ih (Bool.and_eq_true_iff.mp h).2

/-! ### Reading a quoted text -/

/-- The text of a string between quotes, as it is written out. -/
def quoted (raw : String) : String :=
  "\"" ++ raw ++ "\""

theorem toList_quoted (raw : String) : (quoted raw).toList = '"' :: (raw.toList ++ ['"']) := by
  simp [quoted, String.toList_append]

theorem Expr.text_string (raw : String) : (Expr.string raw).text = .ok (quoted raw) := by
  rw [Expr.text]
  rfl

/-- Where all of a text is one string, open or closed, there is no other piece. -/
theorem scan_of_stringBody_rest {text : List Char} (h : (stringBody text).rest = []) :
    Piece.scan 0 1 ('"' :: text) =
      [⟨(cutString text).lexeme, '"' :: text, ⟨0, text.length + 1, 1⟩⟩] := by
  have hcut : cut '"' text = cutString text := rfl
  have hrest : (cutString text).rest = [] := by
    simp only [cutString]
    split <;> exact h
  have hwhole : (cutString text).text = '"' :: text := by
    have happend := cutString_append text
    rwa [hrest, List.append_nil] at happend
  rw [Piece.scan]
  simp only [hcut, hrest, hwhole, Piece.scan, List.length_cons, Nat.zero_add]

/-- The quoted text is one string if it is closed in itself. -/
theorem pieces_quoted {raw : String} (h : Python.isClosed isNewline raw.toList) :
    pieces (quoted raw) =
      [⟨.token (.string raw), (quoted raw).toList, ⟨0, raw.length + 2, 1⟩⟩] := by
  have hbody : stringBody (raw.toList ++ ['"']) = ⟨raw.toList, true, []⟩ := by
    rw [stringBody_append h, stringBody, List.append_nil]
  rw [pieces, toList_quoted, scan_of_stringBody_rest (by rw [hbody])]
  simp [cutString, hbody, String.length_toList]

/-- A backslash left over at the end takes the quote along, and the string is never closed. -/
theorem pieces_quoted_backslash {raw : String} {body : List Char}
    (h : Python.isClosed isNewline body) (hraw : raw.toList = body ++ ['\\']) :
    pieces (quoted raw) =
      [⟨.unclosed (raw ++ "\""), (quoted raw).toList, ⟨0, raw.length + 2, 1⟩⟩] := by
  have hbody : stringBody (raw.toList ++ ['"']) = ⟨raw.toList ++ ['"'], false, []⟩ := by
    have hescape : stringBody ['\\', '"'] = ⟨['\\', '"'], false, []⟩ := rfl
    rw [hraw, List.append_assoc, List.singleton_append, stringBody_append h, hescape]
  have hvalue : String.ofList (raw.toList ++ ['"']) = raw ++ "\"" := by
    rw [String.ofList_append, String.ofList_toList]
  rw [pieces, toList_quoted, scan_of_stringBody_rest (by rw [hbody])]
  simp [cutString, hbody, hvalue, String.length_toList]

/-! ### Strings of a source text -/

/-- The text of a string is closed in itself, unless the string was cut off right behind a
backslash. -/
theorem isClosed_or_cut_off {source raw : String} {span : Span}
    (h : ⟨.string raw, span⟩ ∈ tokens source) :
    Python.isClosed isNewline raw.toList ∨
      (∃ body, Python.isClosed isNewline body ∧ raw.toList = body ++ ['\\']) ∧
        .unterminatedString span ∈ lexicalFaults source ∧
        EndsLine (source.toList.drop span.stop) := by
  rcases spelledAt_of_mem_tokens h with ⟨-, hspelled⟩ | ⟨hfault, raw', hkind, hspelled⟩
  · exact .inl hspelled.2
  · cases hkind
    obtain ⟨-, ⟨body, hbody, hraw | hraw⟩, hends⟩ := hspelled
    · rw [hraw]
      exact .inl hbody
    · exact .inr ⟨⟨body, hbody, hraw⟩, hfault, hends⟩

/-- **A string stays closed exactly if its backslashes pair up.** The text that is written for a
string is read as that string again, without a fault, exactly if it ends with an even number of
backslashes. Otherwise the string was already reported as open, up to the end of its line, and what
is written for it is open once more, with the quote in it. -/
theorem quoted_string_closed_iff {source raw : String} {span : Span}
    (h : ⟨.string raw, span⟩ ∈ tokens source) :
    (Expr.string raw).text = .ok (quoted raw) ∧
      (tokens (quoted raw) = [⟨.string raw, ⟨0, raw.length + 2, 1⟩⟩] ∧
          lexicalFaults (quoted raw) = [] ↔
        Even (trailingBackslashes raw.toList)) ∧
      (¬ Even (trailingBackslashes raw.toList) →
        (.unterminatedString span ∈ lexicalFaults source ∧
          EndsLine (source.toList.drop span.stop)) ∧
        tokens (quoted raw) = [⟨.string (raw ++ "\""), ⟨0, raw.length + 2, 1⟩⟩] ∧
          lexicalFaults (quoted raw) = [.unterminatedString ⟨0, raw.length + 2, 1⟩]) := by
  refine ⟨Expr.text_string raw, ?_⟩
  rcases isClosed_or_cut_off h with hclosed | ⟨⟨body, hbody, hraw⟩, hcut⟩
  · have heven := even_trailingBackslashes hclosed
    have hagain := pieces_quoted hclosed
    refine ⟨iff_of_true ⟨?_, ?_⟩ heven, fun hodd => absurd heven hodd⟩
    · rw [tokens, hagain]
      rfl
    · rw [lexicalFaults, hagain]
      rfl
  · have hodd : ¬ Even (trailingBackslashes raw.toList) := by
      rw [hraw, trailingBackslashes_concat, Nat.even_add_one, not_not]
      exact even_trailingBackslashes hbody
    have hagain := pieces_quoted_backslash hbody hraw
    have hfaults : lexicalFaults (quoted raw) = [.unterminatedString ⟨0, raw.length + 2, 1⟩] := by
      rw [lexicalFaults, hagain]
      rfl
    refine ⟨iff_of_false (fun hwhole => ?_) hodd, fun _ => ⟨hcut, ?_, hfaults⟩⟩
    · rw [hfaults] at hwhole
      cases hwhole.2
    · rw [tokens, hagain]
      rfl

/-- An open string with an escaped quote and two backslashes before the end of its line. -/
theorem quoted_string_closed_of_paired :
    ⟨.string "a\\\"b\\\\", ⟨0, 7, 1⟩⟩ ∈ tokens "\"a\\\"b\\\\\n1" ∧
      tokens (quoted "a\\\"b\\\\") = [⟨.string "a\\\"b\\\\", ⟨0, 8, 1⟩⟩] ∧
      lexicalFaults (quoted "a\\\"b\\\\") = [] := by
  have hmem : ⟨.string "a\\\"b\\\\", ⟨0, 7, 1⟩⟩ ∈ tokens "\"a\\\"b\\\\\n1" := by decide +kernel
  exact ⟨hmem, (quoted_string_closed_iff hmem).2.1.mpr (by decide)⟩

/-- The source ends right behind a backslash. The script is converted all the same, and the string
that is written out is not closed. -/
theorem quoted_string_open :
    ⟨.string "abc\\", ⟨8, 13, 1⟩⟩ ∈ tokens "var s = \"abc\\" ∧
      (convert {} "var s = \"abc\\").success ∧
      (convert {} "var s = \"abc\\").output = some ("s = " ++ quoted "abc\\") ∧
      tokens (quoted "abc\\") = [⟨.string "abc\\\"", ⟨0, 6, 1⟩⟩] ∧
      lexicalFaults (quoted "abc\\") = [.unterminatedString ⟨0, 6, 1⟩] := by
  decide +kernel

end Offside
