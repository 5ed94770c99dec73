import Offside.Proofs.Parser.Leaves
import Offside.Proofs.Token.Tiling

/-!
# The leaves of a source text

What is known of the tokens of a source text is known of the leaves of the script that they spell.
A name is an identifier and no keyword of the script language, and a string does not go on over the
end of its line, whether it is closed or not.
-/

namespace Offside

/-- A name is an identifier and no keyword, and a string has no newline in it. -/
def Token.Kind.IsProper : Token.Kind → Prop
  | .identifier name =>
    Python.isIdentifier name.toList ∧ ∀ keyword : Keyword, keyword.spelling ≠ name
  | .string raw => '\n' ∉ raw.toList
  | _ => True

theorem not_mem_newline_of_isClosed {raw : List Char} (h : Python.isClosed isNewline raw) :
    '\n' ∉ raw := by
  fun_induction Python.isClosed isNewline raw with
  | case1 => exact List.not_mem_nil
  | case2 => cases h
  | case3 c raw ih =>
    obtain ⟨hc, hraw⟩ := Bool.and_eq_true_iff.mp h
    have hnewline := isNewline_eq_false_iff.mp (Bool.not_eq_true' _ ▸ hc)
    simpa using ⟨Ne.symm hnewline, ih hraw⟩
  | case4 c raw _ _ ih =>
    obtain ⟨hc, hraw⟩ := Bool.and_eq_true_iff.mp h
    have hnewline := bne_iff_ne.mp (Bool.and_eq_true_iff.mp hc).2
    simpa using ⟨Ne.symm hnewline, ih hraw⟩

theorem IsOpenText.not_mem_newline {raw : List Char} (h : IsOpenText raw) : '\n' ∉ raw := by
  obtain ⟨body, hbody, hraw | hraw⟩ := h
  · rw [hraw]
    exact not_mem_newline_of_isClosed hbody
  · rw [hraw]
    simpa using not_mem_newline_of_isClosed hbody

theorem Token.Kind.Spelled.isProper {kind : Token.Kind} {before text after : List Char}
    (h : kind.Spelled before text after) : kind.IsProper := by
  cases kind with
  | identifier name =>
    obtain ⟨htext, hname, hkeyword, -⟩ := h
    exact ⟨htext ▸ hname, hkeyword⟩
  | string raw => exact not_mem_newline_of_isClosed h.2
  | _ => trivial

theorem isProper_of_mem_tokens {source : String} {token : Token} (h : token ∈ tokens source) :
    token.kind.IsProper := by
  rcases spelledAt_of_mem_tokens h with ⟨-, hspelled⟩ | ⟨-, raw, hkind, hspelled⟩
  · exact Token.Kind.Spelled.isProper hspelled
  · rw [hkind]
    exact IsOpenText.not_mem_newline hspelled.2.1

/-- **The leaves of a source text are proper.** -/
theorem isProper_of_mem_leaves {source : String} {program : Program}
    (h : parse (tokens source) = .ok program) : ∀ kind ∈ program.leaves, kind.IsProper :=
  leaves_of_parse Token.Kind.IsProper trivial (fun _ htoken => isProper_of_mem_tokens htoken) h

end Offside
