import Offside.Proofs.Parser.Cursor
import Offside.Proofs.Parser.Soundness

/-!
# Failing, and going on

Reading a program at a cursor is reading it from the tokens that are left there
(`Cursor.parse_eq_of_program`). Two things follow from this.

* `Cursor.parse_afterCalls`: **a cursor can be used again after any failure as if it were new.**
  What holds of it between two uses, `Cursor.IsReady`, is kept by every use.
* `Cursor.parse_of_take_eq`: **a failure is decided by the tokens up to the one at which it stops.**
-/

namespace Offside

namespace Cursor

variable {cursor : Cursor} {tokens : List Token}

theorem left_start (tokens : List Token) : (start tokens).left = tokens := rfl

/-- One use of a cursor at which no levels are open. -/
theorem parse_eq_of_program (hdepth : cursor.depth = 0) {outcome : Except GrammarFault Program}
    {taken rest : List Token} (hleft : cursor.left = taken ++ rest)
    (hprogram : Parser.program (taken ++ rest) = Parser.ending outcome rest) :
    cursor.parse = (outcome, cursor.move taken.length) := by
  obtain ⟨outcome', n, hn, hwalk, hrun⟩ :=
    Walk.agrees_program cursor (by rw [hdepth, Nat.zero_add])
  rw [hleft, hprogram] at hrun
  obtain ⟨rfl, hrest⟩ := Parser.ending_inj hrun
  obtain rfl : n = taken.length := by
    have hlength := congrArg List.length hrest
    rw [hleft] at hn
    rw [List.length_drop] at hlength
    rw [List.length_append] at hn hlength
    omega
  rw [parse, hwalk]
  cases outcome <;> rfl

/-- Every use of a cursor takes tokens off what is left. -/
theorem exists_taken (hdepth : cursor.depth = 0) :
    ∃ outcome taken rest, cursor.left = taken ++ rest ∧
      Parser.program (taken ++ rest) = Parser.ending outcome rest ∧
        cursor.parse = (outcome, cursor.move taken.length) := by
  obtain ⟨outcome, taken, rest, hleft, hrun⟩ := Parser.local_program cursor.left
  exact ⟨outcome, taken, rest, hleft, hrun rest rfl,
    parse_eq_of_program hdepth hleft (hrun rest rfl)⟩

theorem fst_parse (hdepth : cursor.depth = 0) : cursor.parse.1 = Offside.parse cursor.left := by
  obtain ⟨outcome, taken, rest, hleft, hprogram, hparse⟩ := exists_taken hdepth
  rw [hparse, hleft, Parser.parse_of_program hprogram]

/-! ### Between two uses -/

/-- Between two uses a cursor has its tokens, stands at one of them or behind the last, and has no
levels open. -/
structure IsReady (tokens : List Token) (cursor : Cursor) : Prop where
  tokens_eq : cursor.tokens = tokens.toArray
  depth_eq : cursor.depth = 0
  position_le : cursor.position ≤ tokens.length

theorem isReady_start (tokens : List Token) : IsReady tokens (start tokens) :=
  ⟨rfl, rfl, Nat.zero_le _⟩

namespace IsReady

theorem left_eq (h : IsReady tokens cursor) : cursor.left = tokens.drop cursor.position := by
  rw [left, h.tokens_eq, List.toList_toArray]

theorem position_add_length (h : IsReady tokens cursor) {taken rest : List Token}
    (hleft : cursor.left = taken ++ rest) :
    cursor.position + taken.length + rest.length = tokens.length := by
  have hlength := congrArg List.length hleft
  rw [h.left_eq, List.length_drop, List.length_append] at hlength
  have hposition := h.position_le
  omega

/-- A use keeps a cursor ready, however it ends, and does not move it back. -/
theorem parse (h : IsReady tokens cursor) :
    IsReady tokens cursor.parse.2 ∧ cursor.position ≤ cursor.parse.2.position := by
  obtain ⟨outcome, taken, rest, hleft, -, hparse⟩ := exists_taken h.depth_eq
  rw [hparse]
  refine ⟨⟨h.tokens_eq, h.depth_eq, ?_⟩, Nat.le_add_right _ _⟩
  rw [← h.position_add_length hleft]
  exact Nat.le_add_right _ _

theorem afterCalls (h : IsReady tokens cursor) (calls : Nat) :
    IsReady tokens (cursor.afterCalls calls) := by
  induction calls with
  | zero => exact h
  | succ calls ih => exact ih.parse.1

/-- A use that succeeds has read all tokens. -/
theorem position_of_ok (h : IsReady tokens cursor) {program : Program}
    (hok : cursor.parse.1 = .ok program) : cursor.parse.2.position = tokens.length := by
  obtain ⟨outcome, taken, rest, hleft, hprogram, hparse⟩ := exists_taken h.depth_eq
  rw [hparse] at hok ⊢
  obtain rfl : outcome = .ok program := hok
  obtain rfl := Parser.eq_nil_of_program hprogram
  exact h.position_add_length hleft

/-- At the end of the tokens there is only the empty program, again and again. -/
theorem parse_of_atEnd (h : IsReady tokens cursor) (hend : cursor.position = tokens.length)
    (later : Nat) : (cursor.afterCalls later).parse.1 = .ok ⟨[]⟩ := by
  have hstays : (cursor.afterCalls later).position = tokens.length := by
    induction later with
    | zero => exact hend
    | succ later ih =>
      obtain ⟨hready, hle⟩ := (h.afterCalls later).parse
      rw [ih] at hle
      exact Nat.le_antisymm hready.position_le hle
  have hready := h.afterCalls later
  rw [fst_parse hready.depth_eq, hready.left_eq, hstays, List.drop_length]
  with_unfolding_all rfl

end IsReady

/-- **A cursor can be used again as if it were new.** After any number of uses, the next one gives
what a new cursor gives for the tokens from where the last one has stopped. The position never
moves back nor past the end, and no level stays open, however a use has ended. A use that succeeds
has read all tokens, and all later ones give the empty program. -/
theorem parse_afterCalls (tokens : List Token) (calls : Nat) :
    let cursor := (start tokens).afterCalls calls
    let next := cursor.parse
    next.1 = (start (tokens.drop cursor.position)).parse.1 ∧
      (cursor.position ≤ next.2.position ∧ next.2.position ≤ tokens.length) ∧
      (cursor.depth = 0 ∧ next.2.depth = 0) ∧
      ∀ program, next.1 = .ok program →
        next.2.position = tokens.length ∧
          ∀ later, (next.2.afterCalls later).parse.1 = .ok ⟨[]⟩ := by
  intro cursor next
  have hready : IsReady tokens cursor := (isReady_start tokens).afterCalls calls
  obtain ⟨hnext, hle⟩ := hready.parse
  refine ⟨?_, ⟨hle, hnext.position_le⟩, ⟨hready.depth_eq, hnext.depth_eq⟩, fun program hok => ?_⟩
  · rw [fst_parse hready.depth_eq, hready.left_eq, fst_parse rfl, left_start]
  · have hend := hready.position_of_ok hok
    exact ⟨hend, hnext.parse_of_atEnd hend⟩

/-- The target of `1 = 2` is only looked at when all of it has been read, so the next use of the
cursor goes on with the `x` behind it. -/
theorem parse_afterCalls_of_target :
    let kinds : List Token.Kind := [.number 1, .mark .assign, .number 2, .identifier "x"]
    let cursor := start (kinds.map fun kind => ⟨kind, .nowhere⟩)
    cursor.parse.1 = .error (.invalidTarget .nowhere) ∧ cursor.parse.2.position = 3 ∧
      (cursor.afterCalls 1).parse.1 = .ok ⟨[.expr (.ident "x")]⟩ ∧
      (cursor.afterCalls 1).parse.2.position = 4 ∧
      (cursor.afterCalls 2).parse.1 = .ok ⟨[]⟩ := by
  intro kinds cursor
  have hfirst : cursor.parse = (.error (.invalidTarget .nowhere), cursor.move 3) := by
    with_unfolding_all rfl
  have hsecond : (cursor.afterCalls 1).parse.1 = .ok ⟨[.expr (.ident "x")]⟩ := by
    rw [afterCalls, afterCalls, hfirst]
    with_unfolding_all rfl
  obtain ⟨-, -, -, hok⟩ := parse_afterCalls (kinds.map fun kind => ⟨kind, .nowhere⟩) 1
  obtain ⟨hposition, hlater⟩ := hok _ hsecond
  refine ⟨?_, ?_, hsecond, hposition, hlater 0⟩
  · rw [hfirst]
  · rw [hfirst]
    rfl

/-! ### Where a failure stops -/

theorem exists_of_take_eq {taken rest others : List Token} {token : Token}
    (h : others.take (taken.length + 1) = (taken ++ token :: rest).take (taken.length + 1)) :
    ∃ more, others = taken ++ token :: more := by
  have htake : (taken ++ token :: rest).take (taken.length + 1) = taken ++ [token] := by
    rw [List.take_length_add_append]
    rfl
  refine ⟨others.drop (taken.length + 1), ?_⟩
  rw [← List.take_append_drop (taken.length + 1) others, h, htake]
  simp

/-- **What follows the token at which reading fails does not matter.** -/
theorem parse_of_take_eq {tokens : List Token} {fault : GrammarFault}
    (hfault : (start tokens).parse.1 = .error fault)
    (hposition : (start tokens).parse.2.position < tokens.length) (others : List Token)
    (hothers : others.take ((start tokens).parse.2.position + 1) =
      tokens.take ((start tokens).parse.2.position + 1)) :
    (start others).parse.1 = .error fault ∧
      (start others).parse.2.position = (start tokens).parse.2.position := by
  obtain ⟨outcome, taken, rest, rfl, hrun⟩ := Parser.local_program tokens
  rw [parse_eq_of_program rfl (left_start _) (hrun rest rfl)] at hfault hposition hothers ⊢
  simp only [move, start, Nat.zero_add] at hfault hposition hothers
  -- The other tokens have the same token behind those that have been taken off.
  cases rest with
  | nil => simp at hposition
  | cons token rest =>
    obtain ⟨more, rfl⟩ := exists_of_take_eq hothers
    rw [parse_eq_of_program rfl (left_start _) (hrun (token :: more) rfl)]
    exact ⟨hfault, rfl⟩

/-- The fault of `1 = 2)` is at its second token, but it is found at the last one. What stands
behind that one does not matter. -/
theorem parse_of_take_eq_of_target :
    let tokens := [Token.Kind.number 1, .mark .assign, .number 2, .mark .rightParen].map fun kind =>
      Token.mk kind .nowhere
    (start tokens).parse.1 = .error (.invalidTarget .nowhere) ∧
      (start tokens).parse.2.position = 3 ∧
      (start (tokens ++ [⟨.mark .semicolon, .nowhere⟩])).parse.1 =
        .error (.invalidTarget .nowhere) := by
  intro tokens
  have hparse : (start tokens).parse =
      (.error (.invalidTarget .nowhere), (start tokens).move 3) := by
    with_unfolding_all rfl
  have hfault : (start tokens).parse.1 = .error (.invalidTarget .nowhere) := by rw [hparse]
  have hposition : (start tokens).parse.2.position = 3 := by
    rw [hparse]
    rfl
  refine ⟨hfault, hposition, (parse_of_take_eq hfault ?_ _ ?_).1⟩
  · rw [hposition]
    decide
  · rw [hposition]
    rfl

end Cursor

end Offside
