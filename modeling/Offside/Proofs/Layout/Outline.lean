import Offside.Proofs.Layout.Indentation
import Offside.Proofs.Parser.Leaves
import Offside.Proofs.Token.Names

/-!
# Reading a layout back

Python reads lines by their indentation. `Outline.readAt` does so as far as statements go: a line that
ends with a colon is a header, the lines further in below it are its suite, and an `elif` or `else`
belongs to the `if` before it at the same level. A suite that is the line `pass` is empty.

`stmtsOutline` says what should come out of it for a list of statements: each simple statement is a
line; a `for` is its first part and a `while` loop that ends with the update; an `else` block that is
nothing but an `if` is an `elif`. **Reading the lines of a script gives back its outline**
(`ReadsAs`, `readsAs_stmtsLines`), provided that no name is reserved: a script could use the name
`pass`.
-/

namespace Offside

/-! ### Outlines -/

/-- What may follow the suite of an `if`: any number of `elif`s, each a test and a suite, and an
`else`. -/
structure Alternatives (α : Type) where
  elseIfs : List (String × List α)
  otherwise : Option (List α)

/-- A statement as it can be told from its lines. -/
inductive Outline where
  | line (text : String)
  | define (signature : String) (body : List Outline)
  | loop (test : String) (body : List Outline)
  | branch (test : String) (yes : List Outline) (more : Alternatives Outline)

namespace Alternatives

variable {α : Type}

/-- Neither `elif` nor `else`. -/
def none : Alternatives α := ⟨[], .none⟩

/-- One more `elif` before the others. -/
def withElseIf (more : Alternatives α) (test : String) (yes : List α) : Alternatives α :=
  { more with elseIfs := (test, yes) :: more.elseIfs }

end Alternatives

namespace Outline

/-! ### Reading -/

/-- What a header line announces. -/
inductive Header where
  | define (signature : String)
  | loop (test : String)
  | branch (test : String)
  | elseIf (test : String)
  | otherwise

/-- The header with this text before its colon. -/
def Header.of? : List Char → Option Header
  | 'd' :: 'e' :: 'f' :: ' ' :: rest => some (.define (String.ofList rest))
  | 'w' :: 'h' :: 'i' :: 'l' :: 'e' :: ' ' :: rest => some (.loop (String.ofList rest))
  | 'i' :: 'f' :: ' ' :: rest => some (.branch (String.ofList rest))
  | 'e' :: 'l' :: 'i' :: 'f' :: ' ' :: rest => some (.elseIf (String.ofList rest))
  | ['e', 'l', 's', 'e'] => some .otherwise
  | _ => none

/-- Lines that have been read: the `elif`s and the `else` at their start that still lack their `if`,
and the statements after these. -/
structure Stretch where
  pending : Alternatives Outline
  statements : List Outline

namespace Stretch

/-- The statements, if nothing lacks its `if`. -/
def all? : Stretch → Option (List Outline)
  | ⟨⟨[], none⟩, statements⟩ => some statements
  | _ => none

theorem all?_none (statements : List Outline) : all? ⟨.none, statements⟩ = some statements := rfl

/-- A statement that takes no `elif` or `else` before the others. -/
def push (outline : Outline) (after : Stretch) : Option Stretch :=
  after.all?.map fun statements => ⟨.none, outline :: statements⟩

end Stretch

/-- Is this the suite that stands for no statements? -/
def isPass : List Outline → Bool
  | [.line text] => text == "pass"
  | _ => false

/-- The suite below a header, which must not be missing. -/
def Stretch.suite? (inner : Stretch) : Option (List Outline) :=
  match inner.all? with
  | some (first :: others) => some (if isPass (first :: others) then [] else first :: others)
  | _ => none

/-- A header with its suite, before lines that have been read. -/
def clause (body : List Outline) (after : Stretch) : Header → Option Stretch
  | .define signature => after.push (.define signature body)
  | .loop test => after.push (.loop test body)
  | .branch test => some ⟨.none, .branch test body after.pending :: after.statements⟩
  | .elseIf test => some ⟨after.pending.withElseIf test body, after.statements⟩
  | .otherwise => after.all?.map fun statements => ⟨⟨[], some body⟩, statements⟩

/-- A line, given what has been read of the lines further in below it and of the lines after
these. -/
def readLine (line : Line) (inner after : Stretch) : Option Stretch :=
  if line.isHeader then do
    let header ← Header.of? line.text.toList.dropLast
    let body ← inner.suite?
    clause body after header
  else
    match inner.all? with
    | some [] => after.push (.line line.text)
    | _ => none

/-- Reads lines of which the first stands at the given level. -/
def readAt (level : Nat) : List Line → Option Stretch
  | [] => some ⟨.none, []⟩
  | top :: rest =>
    if top.level = level then do
      -- The lines further in belong to the top line, whatever that is.
      let inner ← readAt (level + 1) (rest.takeWhile fun next => level < next.level)
      let after ← readAt level (rest.dropWhile fun next => level < next.level)
      readLine top inner after
    else
      none
termination_by lines => lines.length
decreasing_by
  · exact Nat.lt_succ_of_le (List.takeWhile_sublist _).length_le
  · exact Nat.lt_succ_of_le (List.dropWhile_sublist _).length_le

/-- The statements of a whole text. -/
def readAll (lines : List Line) : Option (List Outline) :=
  (readAt 0 lines).bind Stretch.all?

end Outline

/-! ### The outline of a script -/

/-- What follows the suite of an `if` whose `else` block has the given outline. If the block is
nothing but an `if`, it is an `elif`. -/
def elseAlternatives : Bool → List Outline → Alternatives Outline
  | true, [.branch test yes more] => more.withElseIf test yes
  | _, no => ⟨[], some no⟩

mutual

/-- The outline of a statement. A `for` is two statements there. -/
def Stmt.outline : Stmt → Except LayoutFault (List Outline)
  | .declare d => do return [.line (← d.text)]
  | .function name params body => do
    let inner ← stmtsOutline body
    return [.define (name ++ "(" ++ commaSeparated params ++ ")") inner]
  | .ifThen condition yes => do
    let test ← condition.text
    let inner ← stmtsOutline yes
    return [.branch test inner .none]
  | .ifElse condition yes no => do
    let test ← condition.text
    let inner ← stmtsOutline yes
    let rest ← stmtsOutline no
    return [.branch test inner (elseAlternatives (isElseIf no) rest)]
  | .whileLoop condition body => do
    let test ← condition.text
    let inner ← stmtsOutline body
    return [.loop test inner]
  | .forLoop init condition update body => do
    let first ← init.text
    let test ← condition.text
    let inner ← stmtsOutline body
    let last ← update.lineText
    return [.line first, .loop test (inner ++ [.line last])]
  | .giveBack none => return [.line "return"]
  | .giveBack (some value) => do return [.line ("return " ++ (← value.text))]
  | .breakLoop => return [.line "break"]
  | .continueLoop => return [.line "continue"]
  | .expr value => do return [.line (← value.lineText)]

/-- The outlines of several statements, one after the other. -/
def stmtsOutline : List Stmt → Except LayoutFault (List Outline)
  | [] => return []
  | s :: rest => do
    let first ← s.outline
    let others ← stmtsOutline rest
    return first ++ others

end

/-- The outline of a script. -/
def Program.outline (program : Program) : Except LayoutFault (List Outline) :=
  stmtsOutline program.body

/-! ### Reading line by line -/

namespace Outline

variable {level : Nat} {rest : List Line} {statements : List Outline}

/-- The lines cannot belong to a suite below a header at the level. -/
def Outside (level : Nat) (lines : List Line) : Prop :=
  ∀ line ∈ lines.head?, line.level ≤ level

theorem outside_nil : Outside level [] := nofun

theorem outside_append {lines : List Line} (h : Indented level lines) (hrest : Outside level rest) :
    Outside level (lines ++ rest) := by
  cases lines with
  | nil => exact hrest
  | cons top others => exact fun next hnext => Nat.le_of_eq (h.first next hnext)

theorem takeWhile_inside {inner : List Line} (hinner : Indented (level + 1) inner)
    (hrest : Outside level rest) :
    (inner ++ rest).takeWhile (fun next => level < next.level) = inner := by
  rw [List.takeWhile_append_of_pos fun next hnext => by
    simpa using Nat.lt_of_succ_le (hinner.inside next hnext)]
  cases rest with
  | nil => simp
  | cons top others => simp [hrest top rfl]

theorem dropWhile_inside {inner : List Line} (hinner : Indented (level + 1) inner)
    (hrest : Outside level rest) :
    (inner ++ rest).dropWhile (fun next => level < next.level) = rest := by
  rw [List.dropWhile_append_of_pos fun next hnext => by
    simpa using Nat.lt_of_succ_le (hinner.inside next hnext)]
  cases rest with
  | nil => rfl
  | cons top others => simp [hrest top rfl]

theorem readAt_nil : readAt level [] = some ⟨.none, []⟩ := by
  rw [readAt]

/-- A line, the lines further in below it, and what is outside of these. -/
theorem readAt_cons (text : String) {body : List Line} {inner after : Stretch}
    (hbody : Indented (level + 1) body) (hrest : Outside level rest)
    (hinner : readAt (level + 1) body = some inner) (hafter : readAt level rest = some after) :
    readAt level (⟨level, text⟩ :: (body ++ rest)) = readLine ⟨level, text⟩ inner after := by
  rw [readAt, if_pos rfl, takeWhile_inside hbody hrest, dropWhile_inside hbody hrest, hinner, hafter]
  rfl

theorem readLine_header {text : String} {header : Header} {inner after : Stretch}
    {body : List Outline} (hheader : Header.of? text.toList = some header)
    (hbody : inner.suite? = some body) :
    readLine ⟨level, text ++ ":"⟩ inner after = clause body after header := by
  have hwords : (text ++ ":").toList.dropLast = text.toList := by
    simp [String.toList_append]
  rw [readLine, if_pos (isHeader_append_colon text), hwords, hheader, hbody]
  rfl

end Outline

/-! ### Lines and their outlines -/

open Outline

/-- What reading finds when lines with the given outline stand before others: after an `elif`, an
`if` is an alternative of the `if` before it. -/
def Outline.place (opening : String) (tree statements : List Outline) : Stretch :=
  match opening, tree with
  | "elif", [.branch test yes more] => ⟨more.withElseIf test yes, statements⟩
  | _, _ => ⟨.none, tree ++ statements⟩

theorem Outline.place_eq {opening : String} {tree : List Outline}
    (h : opening = "if" ∨ ∀ test yes more, tree ≠ [.branch test yes more])
    (statements : List Outline) : place opening tree statements = ⟨.none, tree ++ statements⟩ := by
  unfold place
  split
  · next test yes more =>
    rcases h with h | h
    · exact absurd h (by decide)
    · exact absurd rfl (h test yes more)
  · rfl

/-- The lines are read as the outlines, whatever stands outside below them. -/
structure ReadsAs (opening : String) (level : Nat) (lines : List Line) (tree : List Outline) :
    Prop where
  reads : ∀ rest statements, Outside level rest → readAt level rest = some ⟨.none, statements⟩ →
    readAt level (lines ++ rest) = some (place opening tree statements)
  nil_iff : lines = [] ↔ tree = []
  noPass : ∀ text, .line text ∈ tree → text ≠ "pass"

namespace ReadsAs

variable {opening : String} {level : Nat} {lines others : List Line} {tree trees : List Outline}

theorem nil : ReadsAs "if" level [] [] where
  reads := by
    intro rest statements _ h
    rw [place_eq (.inl rfl)]
    exact h
  nil_iff := ⟨fun _ => rfl, fun _ => rfl⟩
  noPass := nofun

theorem append (h : ReadsAs "if" level lines tree) (hothers : ReadsAs "if" level others trees)
    (hindented : Indented level others) : ReadsAs "if" level (lines ++ others) (tree ++ trees) where
  reads := by
    intro rest statements hrest hread
    have hafter := hothers.reads rest statements hrest hread
    rw [place_eq (.inl rfl)] at hafter ⊢
    rw [List.append_assoc, List.append_assoc,
      h.reads _ _ (outside_append hindented hrest) hafter, place_eq (.inl rfl)]
  nil_iff := by simp [h.nil_iff, hothers.nil_iff]
  noPass := by
    intro text htext
    rcases List.mem_append.mp htext with htext | htext
    · exact h.noPass text htext
    · exact hothers.noPass text htext

/-- The opening word matters for a single `if` only. -/
theorem of_ne_branch (h : ReadsAs "if" level lines tree)
    (htree : ∀ test yes more, tree ≠ [.branch test yes more]) : ReadsAs opening level lines tree where
  reads := by
    intro rest statements hrest hread
    rw [h.reads rest statements hrest hread, place_eq (.inl rfl), place_eq (.inr htree)]
  nil_iff := h.nil_iff
  noPass := h.noPass

theorem line {text : String} (hframed : Framed text) (hpass : text ≠ "pass") :
    ReadsAs "if" level [⟨level, text⟩] [.line text] where
  reads := by
    intro rest statements hrest hread
    rw [place_eq (.inl rfl)]
    have hcons := readAt_cons text .nil hrest readAt_nil hread
    rw [List.nil_append] at hcons
    rw [List.singleton_append, hcons, readLine,
      isHeader_eq_false_of_closes hframed.closes]
    rfl
  nil_iff := by simp
  noPass := by simpa using hpass

/-- The lines of a body, of which there always is one, are read as its suite. -/
theorem suite (h : ReadsAs "if" level lines tree) :
    ∃ inner, readAt level (bodyLines level lines) = some inner ∧ inner.suite? = some tree := by
  have hread := h.reads [] [] outside_nil readAt_nil
  rw [place_eq (.inl rfl), List.append_nil, List.append_nil] at hread
  cases lines with
  | nil =>
    obtain rfl := h.nil_iff.mp rfl
    refine ⟨⟨.none, [.line "pass"]⟩, ?_, rfl⟩
    have hrest : Outside level [] := outside_nil
    have hcons := readAt_cons "pass" .nil hrest readAt_nil readAt_nil
    rw [readLine, isHeader_eq_false_of_closes ⟨'s', rfl, rfl⟩] at hcons
    exact hcons
  | cons top rest =>
    refine ⟨_, hread, ?_⟩
    cases tree with
    | nil => exact absurd (h.nil_iff.mpr rfl) nofun
    | cons first more =>
      have hpass : isPass (first :: more) = false := by
        unfold isPass
        split
        · next text heq =>
          cases heq
          simpa using h.noPass text (.head _)
        · rfl
      simp only [Stretch.suite?, Stretch.all?_none, hpass, Bool.false_eq_true, if_false]

/-- A header and the body below it. -/
theorem below {text : String} {header : Header} {rest : List Line} {after : Stretch}
    (h : ReadsAs "if" (level + 1) lines tree) (hindented : Indented (level + 1) lines)
    (hheader : Header.of? text.toList = some header) (hrest : Outside level rest)
    (hafter : readAt level rest = some after) :
    readAt level (⟨level, text ++ ":"⟩ :: bodyLines (level + 1) lines ++ rest) =
      clause tree after header := by
  obtain ⟨inner, hread, hsuite⟩ := h.suite
  rw [List.cons_append, readAt_cons _ hindented.bodyLines hrest hread hafter,
    readLine_header hheader hsuite]

theorem define (signature : String) (h : ReadsAs "if" (level + 1) lines tree)
    (hindented : Indented (level + 1) lines) :
    ReadsAs "if" level (⟨level, "def " ++ signature ++ ":"⟩ :: bodyLines (level + 1) lines)
      [.define signature tree] where
  reads := by
    intro rest statements hrest hread
    have hheader : Header.of? ("def " ++ signature).toList = some (.define signature) := by
      rw [String.toList_append]
      exact congrArg (fun text => some (Header.define text)) String.ofList_toList
    rw [h.below hindented hheader hrest hread, place_eq (.inl rfl)]
    rfl
  nil_iff := by simp
  noPass := by simp

theorem loop (test : String) (h : ReadsAs "if" (level + 1) lines tree)
    (hindented : Indented (level + 1) lines) :
    ReadsAs "if" level (⟨level, "while " ++ test ++ ":"⟩ :: bodyLines (level + 1) lines)
      [.loop test tree] where
  reads := by
    intro rest statements hrest hread
    have hheader : Header.of? ("while " ++ test).toList = some (.loop test) := by
      rw [String.toList_append]
      exact congrArg (fun text => some (Header.loop text)) String.ofList_toList
    rw [h.below hindented hheader hrest hread, place_eq (.inl rfl)]
    rfl
  nil_iff := by simp
  noPass := by simp

/-- The lines of an `if` up to its alternatives, and lines that are read as these. -/
theorem branch (hopening : opening ∈ openings) (test : String) {more : Alternatives Outline}
    (h : ReadsAs "if" (level + 1) lines tree) (hindented : Indented (level + 1) lines)
    (hothers : ∀ rest statements, Outside level rest →
      readAt level rest = some ⟨.none, statements⟩ →
      Outside level (others ++ rest) ∧ readAt level (others ++ rest) = some ⟨more, statements⟩) :
    ReadsAs opening level
      (⟨level, opening ++ " " ++ test ++ ":"⟩ :: bodyLines (level + 1) lines ++ others)
      [.branch test tree more] where
  reads := by
    intro rest statements hrest hread
    obtain ⟨houtside, hafter⟩ := hothers rest statements hrest hread
    simp only [openings, List.mem_cons, List.not_mem_nil, or_false] at hopening
    rw [List.append_assoc]
    -- The first word decides whether this is an `if` of its own or an alternative.
    rcases hopening with rfl | rfl
    · have hheader : Header.of? ("if" ++ " " ++ test).toList = some (.branch test) := by
        rw [String.toList_append]
        exact congrArg (fun text => some (Header.branch text)) String.ofList_toList
      rw [h.below hindented hheader houtside hafter]
      rfl
    · have hheader : Header.of? ("elif" ++ " " ++ test).toList = some (.elseIf test) := by
        rw [String.toList_append]
        exact congrArg (fun text => some (Header.elseIf text)) String.ofList_toList
      rw [h.below hindented hheader houtside hafter]
      rfl
  nil_iff := by simp
  noPass := by simp

end ReadsAs

/-! ### No simple statement is `pass` -/

/-- Every name among the leaves is an identifier that is not reserved. -/
def ProperNames (leaves : List Token.Kind) : Prop :=
  ∀ name, Token.Kind.identifier name ∈ leaves →
    Python.isIdentifier name.toList ∧ name ∉ Python.reservedWords

namespace ProperNames

variable {leaves others : List Token.Kind}

theorem mono (h : ProperNames leaves) (hsub : ∀ kind ∈ others, kind ∈ leaves) :
    ProperNames others :=
  fun name hname => h name (hsub _ hname)

theorem isNamed (h : ProperNames leaves) : IsNamed leaves :=
  fun name hname => (h name hname).1

end ProperNames

/-- A text with a character in it that is none of the four of `pass`. -/
theorem ne_pass_of_mem {text : String} (c : Char) (hc : c ∈ text.toList)
    (hpass : c ∉ "pass".toList) : text ≠ "pass" := by
  rintro rfl
  exact hpass hc

theorem repr_ne_pass (n : Nat) : n.repr ≠ "pass" := by
  intro h
  have hp : 'p' ∈ n.repr.toList := by rw [h]; decide
  rw [Nat.repr_eq_ofList_toDigits, String.toList_ofList] at hp
  exact absurd (Nat.isDigit_of_mem_toDigits (by decide) (by decide) hp) (by decide)

theorem Expr.text_ne_pass {e : Expr} {t : String} (h : e.text = .ok t)
    (hnames : ProperNames e.leaves) : t ≠ "pass" := by
  cases e with
  | assign target value => exact absurd h Expr.text_assign_ne_ok
  | binary op left right =>
    obtain ⟨l, r, -, -, rfl⟩ := Expr.text_binary_eq_ok.mp h
    exact ne_pass_of_mem ' ' (by simp [String.toList_append]) (by decide)
  | unary op operand =>
    obtain ⟨s, -, rfl⟩ := Expr.text_unary_eq_ok.mp h
    cases op with
    | neg => exact ne_pass_of_mem '-' (by simp [String.toList_append, UnaryOp.word]) (by decide)
    | not => exact ne_pass_of_mem 'n' (by simp [String.toList_append, UnaryOp.word]) (by decide)
  | call callee arguments =>
    obtain ⟨texts, -, rfl⟩ := Expr.text_call_eq_ok.mp h
    exact ne_pass_of_mem '(' (by simp [String.toList_append]) (by decide)
  | ident name =>
    -- Here the names matter: `pass` is reserved.
    obtain rfl := Expr.text_ident_eq_ok.mp h
    rintro rfl
    exact (hnames "pass" (.head _)).2 (by decide)
  | number value =>
    obtain rfl := Expr.text_number_eq_ok.mp h
    cases value with
    | ofNat n => exact repr_ne_pass n
    | negSucc n =>
      exact ne_pass_of_mem '-' (by simp [Int.repr, String.toList_append]) (by decide)
  | string raw =>
    obtain rfl := Expr.text_string_eq_ok.mp h
    exact ne_pass_of_mem '"' (by simp [String.toList_append]) (by decide)
  | boolean value =>
    obtain rfl := Expr.text_boolean_eq_ok.mp h
    cases value <;> decide
  | array elements =>
    obtain ⟨texts, -, rfl⟩ := Expr.text_array_eq_ok.mp h
    exact ne_pass_of_mem '[' (by simp [String.toList_append]) (by decide)
  | index object index =>
    obtain ⟨o, i, -, -, rfl⟩ := Expr.text_index_eq_ok.mp h
    exact ne_pass_of_mem '[' (by simp [String.toList_append]) (by decide)
  | property object name =>
    obtain ⟨-, o, -, rfl⟩ := Expr.text_property_eq_ok.mp h
    exact ne_pass_of_mem '(' (by simp [String.toList_append]) (by decide)

theorem Expr.lineText_ne_pass {e : Expr} {t : String} (h : e.lineText = .ok t)
    (hnames : ProperNames e.leaves) : t ≠ "pass" := by
  unfold Expr.lineText at h
  split at h
  · obtain ⟨l, r, -, -, rfl⟩ := Expr.lineText_assign_eq_ok.mp h
    exact ne_pass_of_mem ' ' (by simp [String.toList_append]) (by decide)
  · exact Expr.text_ne_pass h hnames

theorem Declaration.text_ne_pass {d : Declaration} {t : String} (h : d.text = .ok t) :
    t ≠ "pass" := by
  unfold Declaration.text at h
  split at h
  · obtain ⟨v, -, ht⟩ := bind_eq_ok.mp h
    rw [pure_eq_ok] at ht
    subst ht
    exact ne_pass_of_mem ' ' (by simp [String.toList_append]) (by decide)
  · rw [pure_eq_ok] at h
    subst h
    exact ne_pass_of_mem ' ' (by simp [String.toList_append]) (by decide)

/-! ### Statements -/

/-- The outline of an `if` is one `if`. -/
theorem Stmt.outline_of_isBranch {s : Stmt} {tree : List Outline} (hs : s.isBranch)
    (h : s.outline = .ok tree) : ∃ test yes more, tree = [.branch test yes more] := by
  cases s with
  | ifThen condition yes =>
    rw [Stmt.outline] at h
    simp only [bind_eq_ok, pure_eq_ok] at h
    obtain ⟨test, -, inner, -, rfl⟩ := h
    exact ⟨test, inner, _, rfl⟩
  | ifElse condition yes no =>
    rw [Stmt.outline] at h
    simp only [bind_eq_ok, pure_eq_ok] at h
    obtain ⟨test, -, inner, -, rest, -, rfl⟩ := h
    exact ⟨test, inner, _, rfl⟩
  | _ => cases hs

theorem stmtsOutline_of_isElseIf {body : List Stmt} {tree : List Outline} (hbody : isElseIf body)
    (h : stmtsOutline body = .ok tree) : ∃ test yes more, tree = [.branch test yes more] := by
  match body, hbody with
  | [s], hs =>
    rw [stmtsOutline] at h
    simp only [bind_eq_ok, stmtsOutline, pure_eq_ok] at h
    obtain ⟨first, hfirst, others, rfl, rfl⟩ := h
    rw [List.append_nil]
    exact Stmt.outline_of_isBranch hs hfirst

open Stmt

mutual

theorem Stmt.readsAs_lines {opening : String} {inFor : Bool} {level : Nat} {lines : List Line}
    (s : Stmt) (hopening : opening ∈ openings) (h : s.lines opening inFor level = .ok lines)
    (hnames : ProperNames s.leaves) :
    ∃ tree, s.outline = .ok tree ∧ ReadsAs opening level lines tree := by
  cases s with
  | declare d =>
    obtain ⟨text, htext, rfl⟩ := lines_declare_eq_ok.mp h
    refine ⟨[.line text], by rw [Stmt.outline, htext]; rfl, .of_ne_branch ?_ nofun⟩
    exact .line (framed_declaration htext hnames.isNamed) (Declaration.text_ne_pass htext)
  | function name params body =>
    obtain ⟨inner, hbody, rfl⟩ := lines_function_eq_ok.mp h
    have hnames' : ProperNames (stmtsLeaves body) := hnames.mono (by simp +contextual [Stmt.leaves])
    obtain ⟨tree, htree, hreads⟩ := readsAs_stmtsLines body (.inl rfl) hbody hnames'
    have hindented := indented_stmtsLines body (.head _) hbody hnames'.isNamed
    rw [functionHeader_eq]
    exact ⟨_, by rw [Stmt.outline, htree]; rfl, .of_ne_branch (hreads.define _ hindented) nofun⟩
  | ifThen condition yes =>
    obtain ⟨test, inner, htest, hyes, rfl⟩ := lines_ifThen_eq_ok.mp h
    have hnames' : ProperNames (stmtsLeaves yes) := hnames.mono (by simp +contextual [Stmt.leaves])
    obtain ⟨tree, htree, hreads⟩ := readsAs_stmtsLines yes (.inl rfl) hyes hnames'
    have hindented := indented_stmtsLines yes (.head _) hyes hnames'.isNamed
    refine ⟨[.branch test tree .none], by rw [Stmt.outline, htest, htree]; rfl, ?_⟩
    rw [← List.append_nil (_ :: _)]
    exact hreads.branch hopening test hindented fun rest statements hrest hread => ⟨hrest, hread⟩
  | ifElse condition yes no =>
    have hyesNames : ProperNames (stmtsLeaves yes) :=
      hnames.mono (by simp +contextual [Stmt.leaves])
    have hnoNames : ProperNames (stmtsLeaves no) := hnames.mono (by simp +contextual [Stmt.leaves])
    cases helse : isElseIf no with
    | true =>
      obtain ⟨test, inner, rest, htest, hyes, hno, rfl⟩ :=
        (lines_ifElse_eq_ok_of_isElseIf helse).mp h
      obtain ⟨tree, htree, hreads⟩ := readsAs_stmtsLines yes (.inl rfl) hyes hyesNames
      obtain ⟨noTree, hnoTree, hnoReads⟩ :=
        readsAs_stmtsLines no (.inr ⟨.tail _ (.head _), helse⟩) hno hnoNames
      have hindented := indented_stmtsLines yes (.head _) hyes hyesNames.isNamed
      have hnoIndented := indented_stmtsLines no (.tail _ (.head _)) hno hnoNames.isNamed
      obtain ⟨test', yes', more, rfl⟩ := stmtsOutline_of_isElseIf helse hnoTree
      refine ⟨[.branch test tree (more.withElseIf test' yes')], ?_, ?_⟩
      · rw [Stmt.outline, htest, htree, hnoTree, helse]
        rfl
      · refine hreads.branch hopening test hindented fun below statements hbelow hread => ?_
        exact ⟨outside_append hnoIndented hbelow, hnoReads.reads below statements hbelow hread⟩
    | false =>
      obtain ⟨test, inner, rest, htest, hyes, hno, rfl⟩ :=
        (lines_ifElse_eq_ok_of_not_isElseIf helse).mp h
      obtain ⟨tree, htree, hreads⟩ := readsAs_stmtsLines yes (.inl rfl) hyes hyesNames
      obtain ⟨noTree, hnoTree, hnoReads⟩ := readsAs_stmtsLines no (.inl rfl) hno hnoNames
      have hindented := indented_stmtsLines yes (.head _) hyes hyesNames.isNamed
      have hnoIndented := indented_stmtsLines no (.head _) hno hnoNames.isNamed
      refine ⟨[.branch test tree ⟨[], some noTree⟩], ?_, ?_⟩
      · rw [Stmt.outline, htest, htree, hnoTree, helse]
        rfl
      · refine hreads.branch hopening test hindented fun below statements hbelow hread => ?_
        have helseLine : "else:" = "else" ++ ":" := rfl
        refine ⟨?_, ?_⟩
        · rintro next ⟨⟩
          exact Nat.le_refl level
        · rw [helseLine, hnoReads.below hnoIndented rfl hbelow hread]
          rfl
  | whileLoop condition body =>
    obtain ⟨test, inner, htest, hbody, rfl⟩ := lines_whileLoop_eq_ok.mp h
    have hnames' : ProperNames (stmtsLeaves body) := hnames.mono (by simp +contextual [Stmt.leaves])
    obtain ⟨tree, htree, hreads⟩ := readsAs_stmtsLines body (.inl rfl) hbody hnames'
    have hindented := indented_stmtsLines body (.head _) hbody hnames'.isNamed
    exact ⟨[.loop test tree], by rw [Stmt.outline, htest, htree]; rfl,
      .of_ne_branch (hreads.loop test hindented) nofun⟩
  | forLoop init condition update body =>
    obtain ⟨first, test, inner, last, hinit, htest, hbody, hupdate, rfl⟩ :=
      lines_forLoop_eq_ok.mp h
    have hinitNames : ProperNames init.leaves := hnames.mono (by simp +contextual [Stmt.leaves])
    have hupdateNames : ProperNames update.leaves :=
      hnames.mono (by simp +contextual [Stmt.leaves])
    have hnames' : ProperNames (stmtsLeaves body) := hnames.mono (by simp +contextual [Stmt.leaves])
    obtain ⟨tree, htree, hreads⟩ := readsAs_stmtsLines body (.inl rfl) hbody hnames'
    have hfirst := framed_declaration hinit hinitNames.isNamed
    have hlast := framed_lineText hupdate hupdateNames.isNamed
    have hindented := (indented_stmtsLines body (.head _) hbody hnames'.isNamed).append
      (hlast.indented (level + 1))
    have hwhole := hreads.append (.line hlast (Expr.lineText_ne_pass hupdate hupdateNames))
      (hlast.indented (level + 1))
    -- The update makes the body non-empty, so its lines are the suite of the loop as they are.
    have hbodyLines : bodyLines (level + 1) (inner ++ [⟨level + 1, last⟩]) =
        inner ++ [⟨level + 1, last⟩] := bodyLines_of_ne_nil (by simp)
    have hloop := hwhole.loop test hindented
    have hloopIndented : Indented level (⟨level, "while " ++ test ++ ":"⟩ ::
        bodyLines (level + 1) (inner ++ [⟨level + 1, last⟩])) :=
      indented_suite test ⟨'w', rfl, by decide⟩ hindented
    rw [hbodyLines] at hloop hloopIndented
    refine ⟨[.line first, .loop test (tree ++ [.line last])], ?_, .of_ne_branch ?_ nofun⟩
    · rw [Stmt.outline, hinit, htest, htree, hupdate]
      rfl
    · exact (ReadsAs.line hfirst (Declaration.text_ne_pass hinit)).append hloop hloopIndented
  | giveBack value =>
    cases value with
    | none =>
      obtain rfl := lines_giveBack_none_eq_ok.mp h
      exact ⟨[.line "return"], rfl, .of_ne_branch
        (.line ⟨⟨'r', rfl, rfl⟩, ⟨'n', rfl, rfl⟩⟩ (by decide)) nofun⟩
    | some value =>
      obtain ⟨text, htext, rfl⟩ := lines_giveBack_some_eq_ok.mp h
      have hframed := framed_text value htext hnames.isNamed
      refine ⟨[.line ("return " ++ text)], by rw [Stmt.outline, htext]; rfl, .of_ne_branch ?_ nofun⟩
      exact .line ⟨.append ⟨'r', rfl, rfl⟩ text, hframed.closes.prepend _⟩
        (ne_pass_of_mem 'r' (by simp [String.toList_append]) (by decide))
  | breakLoop =>
    obtain rfl := lines_breakLoop_eq_ok.mp h
    exact ⟨[.line "break"], rfl, .of_ne_branch
      (.line ⟨⟨'b', rfl, rfl⟩, ⟨'k', rfl, rfl⟩⟩ (by decide)) nofun⟩
  | continueLoop =>
    obtain ⟨-, rfl⟩ := lines_continueLoop_eq_ok.mp h
    exact ⟨[.line "continue"], rfl, .of_ne_branch
      (.line ⟨⟨'c', rfl, rfl⟩, ⟨'e', rfl, rfl⟩⟩ (by decide)) nofun⟩
  | expr value =>
    obtain ⟨text, htext, rfl⟩ := lines_expr_eq_ok.mp h
    refine ⟨[.line text], by rw [Stmt.outline, htext]; rfl, .of_ne_branch ?_ nofun⟩
    exact .line (framed_lineText htext hnames.isNamed) (Expr.lineText_ne_pass htext hnames)

/-- **Reading undoes laying out.** Behind an `elif` this is about one `if` only. -/
theorem readsAs_stmtsLines {opening : String} {inFor : Bool} {level : Nat} {lines : List Line}
    (body : List Stmt) (hopening : opening = "if" ∨ opening ∈ openings ∧ isElseIf body)
    (h : stmtsLines opening inFor level body = .ok lines) (hnames : ProperNames (stmtsLeaves body)) :
    ∃ tree, stmtsOutline body = .ok tree ∧ ReadsAs opening level lines tree := by
  cases body with
  | nil =>
    obtain rfl := stmtsLines_nil_eq_ok.mp h
    exact ⟨[], rfl, .of_ne_branch .nil nofun⟩
  | cons s rest =>
    obtain ⟨first, others, hs, hrest, rfl⟩ := stmtsLines_cons_eq_ok.mp h
    have hsNames : ProperNames s.leaves := hnames.mono (by simp +contextual [stmtsLeaves])
    have hrestNames : ProperNames (stmtsLeaves rest) :=
      hnames.mono (by simp +contextual [stmtsLeaves])
    rcases hopening with rfl | ⟨hopening, helse⟩
    · obtain ⟨tree, htree, hreads⟩ := s.readsAs_lines (.head _) hs hsNames
      obtain ⟨trees, htrees, hreads'⟩ := readsAs_stmtsLines rest (.inl rfl) hrest hrestNames
      have hindented := indented_stmtsLines rest (.head _) hrest hrestNames.isNamed
      exact ⟨tree ++ trees, by rw [stmtsOutline, htree, htrees]; rfl,
        hreads.append hreads' hindented⟩
    · cases rest with
      | nil =>
        obtain ⟨tree, htree, hreads⟩ := s.readsAs_lines hopening hs hsNames
        obtain rfl := stmtsLines_nil_eq_ok.mp hrest
        refine ⟨tree, ?_, by rw [List.append_nil]; exact hreads⟩
        rw [stmtsOutline, htree]
        exact congrArg Except.ok (List.append_nil tree)
      | cons t more => cases helse

end

/-! ### Whole scripts -/

theorem toList_pushn (text : String) (c : Char) (n : Nat) :
    (text.pushn c n).toList = text.toList ++ List.replicate n c := by
  induction n with
  | zero => simp [String.pushn, Nat.repeat]
  | succ n ih =>
    have hsucc : text.pushn c (n + 1) = (text.pushn c n).push c := rfl
    rw [hsucc, String.toList_push, ih, List.append_assoc, ← List.replicate_succ']

theorem Line.render_eq (width : Nat) (line : Line) :
    line.render width = String.ofList (List.replicate (line.level * width) ' ') ++ line.text := by
  rw [Line.render, ← String.ofList_toList (s := "".pushn ' ' (line.level * width)), toList_pushn]
  rfl

/-- The names of a parsed script are identifiers, and not reserved if no token is. -/
theorem properNames_of_parse {source : String} {program : Program}
    (hparse : parse (tokens source) = .ok program)
    (hreserved : ∀ token ∈ tokens source, ∀ word ∈ Python.reservedWords,
      token.kind ≠ .identifier word) : ProperNames program.leaves := by
  intro name hname
  refine leaves_of_parse (fun kind => ∀ name, kind = .identifier name →
    Python.isIdentifier name.toList ∧ name ∉ Python.reservedWords) nofun ?_ hparse _ hname name rfl
  intro token htoken word hword
  exact ⟨isIdentifier_of_mem_tokens htoken hword, fun h => hreserved token htoken word h hword⟩

/-- **The layout determines the statements.** The lines of a script in which no name is reserved do
not depend on the width of a level, which only says how many blanks stand before each; their
indentation is in order; and reading them by indentation gives back the outline of the script. -/
theorem readAll_eq_outline {source : String} {program : Program} {width : Nat}
    {texts : List String} (hparse : parse (tokens source) = .ok program)
    (hreserved : ∀ token ∈ tokens source, ∀ word ∈ Python.reservedWords,
      token.kind ≠ .identifier word)
    (htexts : program.layout width = .ok texts) :
    ∃ lines tree,
      (∀ w, program.layout w = .ok (lines.map fun line =>
        String.ofList (List.replicate (line.level * w) ' ') ++ line.text)) ∧
      Indented 0 lines ∧ program.outline = .ok tree ∧ readAll lines = some tree := by
  have hnames := properNames_of_parse hparse hreserved
  obtain ⟨lines, hlines, -⟩ := bind_eq_ok.mp htexts
  obtain ⟨tree, htree, hreads⟩ := readsAs_stmtsLines program.body (.inl rfl) hlines hnames
  refine ⟨lines, tree, fun w => ?_, indented_stmtsLines _ (.head _) hlines hnames.isNamed, htree, ?_⟩
  · refine bind_eq_ok.mpr ⟨lines, hlines, pure_eq_ok.mpr ?_⟩
    exact List.map_congr_left fun line _ => (line.render_eq w).symm
  · have hread := hreads.reads [] [] outside_nil readAt_nil
    rw [List.append_nil, place_eq (.inl rfl), List.append_nil] at hread
    rw [readAll, hread]
    rfl

/-- A function, a loop, a chain of alternatives and an empty body. -/
theorem readAll_eq_outline_of_nested :
    let source := "function f(n) \x7b for (let i = 0; i < n; i = i + 1) \x7b " ++
      "if (i == 2) \x7b break; \x7d else if (i) \x7b \x7d else \x7b return passed; \x7d \x7d \x7d"
    let texts : List String :=
      ["def f(n):", "  i = 0", "  while i < n:", "    if i == 2:", "      break", "    elif i:",
        "      pass", "    else:", "      return passed", "    i = i + 1"]
    ∃ program lines tree, parse (tokens source) = .ok program ∧ program.layout 2 = .ok texts ∧
      (∀ w, program.layout w = .ok (lines.map fun line =>
        String.ofList (List.replicate (line.level * w) ' ') ++ line.text)) ∧
      Indented 0 lines ∧ program.outline = .ok tree ∧ readAll lines = some tree := by
  intro source texts
  have heval : (parse (tokens source)).toOption.bind (fun program => (program.layout 2).toOption) =
      some texts := by
    decide +kernel
  cases hparse : parse (tokens source) with
  | error fault =>
    rw [hparse] at heval
    cases heval
  | ok program =>
    rw [hparse] at heval
    have htexts : program.layout 2 = .ok texts := by
      cases hlayout : program.layout 2 with
      | error fault => simp [Except.toOption, hlayout] at heval
      | ok found => simpa [Except.toOption, hlayout] using heval
    obtain ⟨lines, tree, hlines⟩ := readAll_eq_outline hparse (by decide +kernel) htexts
    exact ⟨program, lines, tree, rfl, htexts, hlines⟩

end Offside
