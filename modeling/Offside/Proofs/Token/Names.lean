import Offside.Proofs.Python.Token

/-!
# Names among the tokens

The script language and its output have the same idea of a name, so every identifier among the
tokens of a source text is an identifier of the output language, unless it is reserved there.
-/

namespace Offside

/-- Every piece of a text is the first piece of some text. -/
theorem Piece.exists_cut_of_mem_scan {offset line : Nat} {text : List Char} {piece : Piece}
    (h : piece ∈ Piece.scan offset line text) :
    ∃ c rest, piece.lexeme = (cut c rest).lexeme := by
  induction offset, line, text using Piece.scan.induct with
  | case1 offset line =>
    rw [Piece.scan] at h
    cases h
  | case2 offset line c rest first ih =>
    rw [Piece.scan] at h
    rcases List.mem_cons.mp h with rfl | h
    · exact ⟨c, rest, rfl⟩
    · exact ih h

/-- Only the word at the start of a text can be an identifier. -/
theorem cut_lexeme_eq_identifier {c : Char} {rest : List Char} {name : String}
    (h : (cut c rest).lexeme = .token (.identifier name)) :
    isNameStart c ∧ name = String.ofList ((c :: rest).takeWhile isNameChar) := by
  unfold cut at h
  split at h
  · cases h
  · split at h
    · next hstart =>
      refine ⟨hstart, ?_⟩
      simp only [cutWord] at h
      split at h
      · cases h
      · unfold wordKind at h
        split at h <;> cases h
        rfl
    · split at h
      · simp only [cutNumber] at h
        split at h <;> cases h
      · split at h
        · simp only [cutString] at h
          split at h <;> cases h
        · split at h
          · cases h
          · cases h
          · simp only [cutMark] at h
            split at h <;> cases h

theorem isIdentifier_takeWhile {c : Char} (rest : List Char) (h : isNameStart c) :
    Python.isIdentifier ((c :: rest).takeWhile isNameChar) := by
  rw [List.takeWhile_cons_of_pos (isNameChar_of_isNameStart h), Python.isIdentifier, h,
    Bool.true_and]
  exact List.all_takeWhile

/-- The names among the tokens of a source text are identifiers. -/
theorem isIdentifier_of_mem_tokens {source : String} {token : Token} {name : String}
    (htoken : token ∈ tokens source) (hkind : token.kind = .identifier name) :
    Python.isIdentifier name.toList := by
  obtain ⟨piece, hpiece, hread⟩ := List.mem_filterMap.mp htoken
  have hlexeme : piece.lexeme = .token (.identifier name) := by
    unfold Piece.token? at hread
    split at hread
    · next kind hkind' =>
      cases hread
      rw [hkind', ← hkind]
    · cases hread
      cases hkind
    · cases hread
  obtain ⟨c, rest, hcut⟩ := Piece.exists_cut_of_mem_scan hpiece
  obtain ⟨hstart, rfl⟩ := cut_lexeme_eq_identifier (hcut ▸ hlexeme)
  rw [String.toList_ofList]
  exact isIdentifier_takeWhile rest hstart

end Offside
