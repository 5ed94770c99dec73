import Offside.Proofs.Token.Determined
import Offside.Proofs.Token.Tiling

/-!
# Tokens that are written down again

A list of tokens can be written down by putting blanks between their spellings. **Cutting this text
gives the tokens back** (`tokens_of_spellings`), whatever stands next to each other: a word that
could be the start of a longer one, `console` before a dot, a mark that could be the first half of
a longer mark or of a comment, a string with anything in it. Only tokens that have no spelling at
all are left out, such as a negative number or a name with a blank in it (`Token.Kind.isSpellable`).

The proof says of each spelling that it is the spelling of a piece in front of a blank
(`spelled_of_isSpellable`); that it is cut off as such is `scan_eq_of_spelled`.
-/

namespace Offside

/-! ### What can be spelled -/

/-- Can the token be written down? A name is a word that is no keyword, a number has no sign and
does not exceed the limit, and a string is complete in itself. -/
def Token.Kind.isSpellable : Token.Kind → Bool
  | .identifier name => Python.isIdentifier name.toList && (Keyword.ofSpelling? name).isNone
  | .number value => decide (0 ≤ value) && decide (value ≤ maxNumber)
  | .string raw => Python.isClosed isNewline raw.toList
  | _ => true

/-- The tokens of a text without lexical faults can be written down. -/
theorem isSpellable_of_mem_tokens {source : String} {token : Token} (h : token ∈ tokens source)
    (hclean : lexicalFaults source = []) : token.kind.isSpellable := by
  rcases spelledAt_of_mem_tokens h with ⟨-, hspelled⟩ | ⟨hfault, -⟩
  · cases hkind : token.kind with
    | identifier name =>
      rw [hkind] at hspelled
      obtain ⟨htext, hname, hkeyword, -⟩ := hspelled
      rw [Token.Kind.isSpellable, ← htext, hname, Keyword.ofSpelling?_eq_none hkeyword]
      rfl
    | number value =>
      rw [hkind] at hspelled
      obtain ⟨-, hvalue, hlimit⟩ := hspelled
      rw [Token.Kind.isSpellable, hvalue, Bool.and_eq_true, decide_eq_true_eq, decide_eq_true_eq]
      omega
    | string raw =>
      rw [hkind] at hspelled
      exact hspelled.2
    | _ => rfl
  · rw [hclean] at hfault
    cases hfault

/-- Nothing follows, or a blank. -/
def Separated (after : List Char) : Prop :=
  ∀ c ∈ after.head?, c = ' '

theorem separated_nil : Separated [] := by
  intro c hc
  cases hc

theorem Separated.endsName {after : List Char} (h : Separated after) : EndsName after := by
  intro c hc
  rw [h c hc]
  decide

/-- What has no blank in it does not reach over the end of a text. -/
theorem prefix_of_separated {front text after : List Char} (hafter : Separated after)
    (hfront : ' ' ∉ front) (h : front <+: text ++ after) : front <+: text := by
  rcases List.prefix_or_prefix_of_prefix h (List.prefix_append text after) with h' | ⟨tail, rfl⟩
  · exact h'
  · obtain ⟨rest, hrest⟩ := (List.prefix_append_right_inj text).mp h
    cases tail with
    | nil => simp
    | cons c tail =>
      have hc : c = ' ' := hafter c (by rw [← hrest]; rfl)
      exact absurd (by simp [hc]) hfront

/-! ### Spellings in front of a blank -/

theorem Mark.spelled {before after : List Char} (mark : Mark) (hafter : Separated after) :
    (Token.Kind.mark mark).Spelled before mark.spelling.toList after := by
  have hblank : ∀ other : Mark, ' ' ∉ other.spelling.toList := by
    intro other
    cases other <;> decide
  refine ⟨rfl, ?_, ?_⟩
  · have hnever : ¬ StartsComment mark.spelling.toList := by
      rintro (h | h) <;> revert h <;> cases mark <;> decide
    rintro (h | h)
    · exact hnever (.inl (prefix_of_separated hafter (by decide) h))
    · exact hnever (.inr (prefix_of_separated hafter (by decide) h))
  · intro other hother
    have hprefix := prefix_of_separated hafter (hblank other) hother
    rw [← String.length_toList, ← String.length_toList]
    exact hprefix.length_le

theorem toList_spelling_number (n : Nat) :
    (Token.Kind.number n).spelling.toList = Nat.toDigits 10 n := by
  have hspelling : (Token.Kind.number n).spelling = n.repr := rfl
  rw [hspelling, Nat.repr_eq_ofList_toDigits, String.toList_ofList]

theorem spelled_number {value : Int} {after : List Char} (hvalue : 0 ≤ value)
    (hmax : value ≤ maxNumber) (hafter : Separated after) :
    (Token.Kind.number value).Spelled [] (Token.Kind.number value).spelling.toList after := by
  obtain ⟨n, rfl⟩ := Int.eq_ofNat_of_zero_le hvalue
  have hdecimal : decimalValue (Nat.toDigits 10 n) = n := Nat.ofDigitChars_ten_toDigits
  rw [toList_spelling_number]
  refine ⟨⟨fun c hc => ?_, fun c hc => ?_, not_isDigit_of_endsName hafter.endsName⟩, ?_, ?_⟩
  · exact Nat.isDigit_of_mem_toDigits (by decide) (by decide) hc
  · cases hc
  · rw [hdecimal]
  · rw [hdecimal]
    exact Int.ofNat_le.mp hmax

/-- A token that can be written down is spelled by its spelling in front of a blank. -/
theorem spelled_of_isSpellable {kind : Token.Kind} {after : List Char} (h : kind.isSpellable)
    (hafter : Separated after) : kind.Spelled [] kind.spelling.toList after := by
  cases kind with
  | keyword k => exact ⟨rfl, hafter.endsName⟩
  | consoleLog => exact ⟨rfl, hafter.endsName⟩
  | identifier name =>
    obtain ⟨hname, hkeyword⟩ := Bool.and_eq_true_iff.mp h
    refine ⟨rfl, hname, fun keyword hspelling => ?_, hafter.endsName, fun _ => ?_⟩
    · have hnot := List.find?_eq_none.mp (Option.isNone_iff_eq_none.mp hkeyword) keyword
        keyword.mem_all
      exact hnot (beq_iff_eq.mpr hspelling)
    · rintro ⟨rest, rfl, -⟩
      exact absurd (hafter '.' rfl) (by decide)
  | number value =>
    obtain ⟨hvalue, hmax⟩ := Bool.and_eq_true_iff.mp h
    exact spelled_number (of_decide_eq_true hvalue) (of_decide_eq_true hmax) hafter
  | string raw =>
    refine ⟨?_, h⟩
    rw [Token.Kind.spelling, String.toList_append, String.toList_append]
    rfl
  | mark m => exact m.spelled hafter

theorem ne_nil_of_isIdentifier {word : List Char} (h : Python.isIdentifier word) : word ≠ [] := by
  rintro rfl
  cases h

theorem spelling_ne_nil {kind : Token.Kind} (h : kind.isSpellable) :
    kind.spelling.toList ≠ [] := by
  cases kind with
  | keyword k => exact ne_nil_of_isIdentifier k.isIdentifier_spelling.1
  | consoleLog => decide
  | identifier name => exact ne_nil_of_isIdentifier (Bool.and_eq_true_iff.mp h).1
  | number value =>
    have hvalue := of_decide_eq_true (Bool.and_eq_true_iff.mp h).1
    obtain ⟨n, rfl⟩ := Int.eq_ofNat_of_zero_le hvalue
    rw [toList_spelling_number]
    exact Nat.toDigits_ne_nil
  | string raw => simp [Token.Kind.spelling]
  | mark m => exact m.spelling_ne_nil

/-! ### Several tokens -/

/-- How tokens are written down: their spellings with blanks in between. -/
def spellings (kinds : List Token.Kind) : String :=
  String.intercalate " " (kinds.map Token.Kind.spelling)

theorem toList_spellings_cons_cons (first second : Token.Kind) (rest : List Token.Kind) :
    (spellings (first :: second :: rest)).toList =
      first.spelling.toList ++ ([' '] ++ (spellings (second :: rest)).toList) := by
  have hjoin : spellings (first :: second :: rest) =
      first.spelling ++ " " ++ spellings (second :: rest) := String.intercalate_cons_cons
  rw [hjoin, String.toList_append, String.toList_append, List.append_assoc]
  rfl

/-- Cutting the spellings one by one, wherever they stand: each gives its token, and the blanks give
nothing. -/
theorem scan_spellings {kinds : List Token.Kind} (h : ∀ kind ∈ kinds, kind.isSpellable)
    (offset line : Nat) :
    ((Piece.scan offset line (spellings kinds).toList).filterMap Piece.token?).map Token.kind =
        kinds ∧
      (Piece.scan offset line (spellings kinds).toList).filterMap Piece.fault? = [] := by
  induction kinds generalizing offset line with
  | nil =>
    have hnil : Piece.scan offset line (spellings []).toList = [] := Piece.scan.eq_1 offset line
    rw [hnil]
    exact ⟨rfl, rfl⟩
  | cons first rest ih =>
    obtain ⟨hfirst, hrest⟩ := List.forall_mem_cons.mp h
    have htext := spelling_ne_nil hfirst
    cases rest with
    | nil =>
      have hspelled : (Lexeme.token first).Spelled [] first.spelling.toList [] :=
        spelled_of_isSpellable hfirst separated_nil
      have hscan := scan_eq_of_spelled htext hspelled offset line
      have hsingle : spellings [first] = first.spelling := String.intercalate_singleton
      rw [List.append_nil, Piece.scan.eq_1] at hscan
      rw [hsingle, hscan]
      exact ⟨rfl, rfl⟩
    | cons second more =>
      have hspelled : (Lexeme.token first).Spelled [] first.spelling.toList
          ([' '] ++ (spellings (second :: more)).toList) :=
        spelled_of_isSpellable hfirst fun c hc => (Option.some.inj hc).symm
      have hblank : Lexeme.blank.Spelled [] [' '] (spellings (second :: more)).toList :=
        .space rfl
      have hnext := ih hrest (offset + first.spelling.toList.length + 1)
        (line + first.spelling.toList.count '\n' + 0)
      rw [toList_spellings_cons_cons, scan_eq_of_spelled htext hspelled,
        scan_eq_of_spelled (by simp) hblank]
      exact ⟨congrArg (first :: ·) hnext.1, hnext.2⟩

/-- **Spelling and cutting are inverse.** Tokens that can be written down are what their spellings
with blanks in between are cut into, and nothing is wrong with that text. -/
theorem tokens_of_spellings {kinds : List Token.Kind} (h : ∀ kind ∈ kinds, kind.isSpellable) :
    (tokens (spellings kinds)).map Token.kind = kinds ∧ lexicalFaults (spellings kinds) = [] :=
  scan_spellings h 0 1

/-- Words next to their beginnings, `console` before a dot and by itself, two slashes and a star,
halves of marks, the largest number, and a string with a comment, a quote and a backslash. -/
theorem tokens_of_spellings_of_neighbours :
    let kinds : List Token.Kind :=
      [.keyword .forLoop, .identifier "fort", .identifier "console", .mark .dot, .identifier "log",
        .consoleLog, .mark .slash, .mark .slash, .mark .star, .mark .assign, .mark .equal,
        .number maxNumber, .string "// \\\" /* \\\\", .number 0, .mark .less]
    (∀ kind ∈ kinds, kind.isSpellable) ∧
      spellings kinds = "for fort console . log console.log / / * = == 9223372036854775807 " ++
        "\"// \\\" /* \\\\\" 0 <" ∧
      (tokens (spellings kinds)).map Token.kind = kinds ∧ lexicalFaults (spellings kinds) = [] := by
  intro kinds
  have hkinds : ∀ kind ∈ kinds, kind.isSpellable := by decide
  exact ⟨hkinds, by decide, tokens_of_spellings hkinds⟩

end Offside
