import Offside.Proofs.Token.Determined

/-!
# What may follow a piece

Words, numbers and marks reach as far as they can, so whether a text is a piece depends on what
stands behind it. `Eases after after'` says that a change behind a piece does not matter: no
character has come to stand there with which the piece could go on. Then the piece stays what it
was (`Lexeme.Spelled.ease`).
-/

namespace Offside

/-- A piece in front of `after` can stand in front of `after'` just as well. -/
structure Eases (after after' : List Char) : Prop where
  /-- The next character is the same, or it is a blank. -/
  head : ∀ c ∈ after'.head?, c ∈ after.head? ∨ isBlank c
  /-- The end of a line remains one. -/
  line : EndsLine after → EndsLine after'
  /-- What has no blanks in it does not reach further than before. -/
  reach : ∀ text front : List Char, (∀ c ∈ front, isBlank c = false) → front <+: text ++ after' →
    front <+: text ++ after
  /-- No `console` comes to stand before its `.log`. -/
  log : StartsLog after' → StartsLog after

theorem isBlank_of_any_eq_false {text : List Char} (h : text.any isBlank = false) :
    ∀ c ∈ text, isBlank c = false := by
  intro c hc
  exact Bool.eq_false_iff.mpr (List.any_eq_false.mp h c hc)

theorem Mark.isBlank_of_mem_spelling (mark : Mark) :
    ∀ c ∈ mark.spelling.toList, isBlank c = false := by
  cases mark <;> exact isBlank_of_any_eq_false rfl

section Ease

variable {before text after after' : List Char}

theorem EndsName.ease (h : EndsName after) (hease : Eases after after') : EndsName after' := by
  intro c hc hname
  rcases hease.head c hc with hsame | hblank
  · exact h c hsame hname
  · rw [not_isBlank_of_isNameChar hname] at hblank
    cases hblank

theorem IsDigitRun.ease (h : IsDigitRun before text after) (hease : Eases after after') :
    IsDigitRun before text after' := by
  refine { h with right := fun c hc hdigit => ?_ }
  rcases hease.head c hc with hsame | hblank
  · exact h.right c hsame hdigit
  · rw [not_isBlank_of_isNameChar (Python.isNameChar_of_isDigit hdigit)] at hblank
    cases hblank

theorem not_startsComment_ease (h : ¬ StartsComment (text ++ after)) (hease : Eases after after') :
    ¬ StartsComment (text ++ after') := by
  rintro (hline | hblock)
  · exact h (.inl (hease.reach text _ (isBlank_of_any_eq_false rfl) hline))
  · exact h (.inr (hease.reach text _ (isBlank_of_any_eq_false rfl) hblock))

theorem Token.Kind.Spelled.ease {kind : Token.Kind} (h : kind.Spelled before text after)
    (hease : Eases after after') : kind.Spelled before text after' := by
  cases kind with
  | keyword k => exact ⟨h.1, h.2.ease hease⟩
  | consoleLog => exact ⟨h.1, h.2.ease hease⟩
  | identifier name =>
    obtain ⟨htext, hname, hkeyword, hends, hlog⟩ := h
    exact ⟨htext, hname, hkeyword, hends.ease hease,
      fun hconsole hstarts => hlog hconsole (hease.log hstarts)⟩
  | number value => exact ⟨h.1.ease hease, h.2⟩
  | string raw => exact h
  | mark m =>
    obtain ⟨htext, hcomment, hlongest⟩ := h
    refine ⟨htext, not_startsComment_ease hcomment hease, fun other hother => ?_⟩
    exact hlongest other (hease.reach text _ other.isBlank_of_mem_spelling hother)

/-- **A piece does not depend on what follows it beyond where it could go on.** Comments are the
exception: an open one goes on with everything. -/
theorem Lexeme.Spelled.ease {lexeme : Lexeme} (h : lexeme.Spelled before text after)
    (hlexeme : lexeme ≠ .blank) (hease : Eases after after') :
    lexeme.Spelled before text after' := by
  cases lexeme with
  | blank => exact absurd rfl hlexeme
  | token kind => exact Token.Kind.Spelled.ease h hease
  | unclosed raw => exact ⟨h.1, h.2.1, hease.line h.2.2⟩
  | illegal c =>
    refine ⟨h.1, { h.2 with mark := fun mark hmark => h.2.mark mark ?_ }⟩
    exact hease.reach [c] _ mark.isBlank_of_mem_spelling hmark
  | oversized digits => exact ⟨h.1, h.2.1.ease hease, h.2.2⟩

end Ease

end Offside
