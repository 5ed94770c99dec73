import Offside.Layout.Stmt
import Offside.Proofs.Layout.Text

/-!
# What the lines of a statement are made of

The lines of a statement, as those of a list of statements, can be refused. The lemmas
`lines_…_eq_ok` say for each form of statement exactly when they are not, and from which texts and
which lines of its parts they are put together; later proofs use them and do not open `Stmt.lines`.
-/

namespace Offside

variable {opening : String} {inFor : Bool} {level : Nat} {lines : List Line}

theorem bodyLines_of_ne_nil (h : lines ≠ []) : bodyLines level lines = lines := by
  cases lines with
  | nil => exact absurd rfl h
  | cons line rest => rfl

/-! ### One statement -/

namespace Stmt

theorem lines_declare_eq_ok {d : Declaration} :
    (declare d).lines opening inFor level = .ok lines ↔
      ∃ text, d.text = .ok text ∧ lines = [⟨level, text⟩] := by
  rw [Stmt.lines]
  simp only [bind_eq_ok, pure_eq_ok]

theorem lines_function_eq_ok {name : String} {params : List String} {body : List Stmt} :
    (function name params body).lines opening inFor level = .ok lines ↔
      ∃ inner, stmtsLines "if" false (level + 1) body = .ok inner ∧
        lines = ⟨level, "def " ++ name ++ "(" ++ commaSeparated params ++ "):"⟩ ::
          bodyLines (level + 1) inner := by
  rw [Stmt.lines]
  simp only [bind_eq_ok, pure_eq_ok]

theorem lines_ifThen_eq_ok {condition : Expr} {yes : List Stmt} :
    (ifThen condition yes).lines opening inFor level = .ok lines ↔
      ∃ test inner, condition.text = .ok test ∧
        stmtsLines "if" inFor (level + 1) yes = .ok inner ∧
        lines = ⟨level, opening ++ " " ++ test ++ ":"⟩ :: bodyLines (level + 1) inner := by
  rw [Stmt.lines]
  simp only [bind_eq_ok, pure_eq_ok, exists_and_left]

/-- An `else` block that is a single `if` continues the chain at the same level. -/
theorem lines_ifElse_eq_ok_of_isElseIf {condition : Expr} {yes no : List Stmt}
    (hno : isElseIf no) :
    (ifElse condition yes no).lines opening inFor level = .ok lines ↔
      ∃ test inner rest, condition.text = .ok test ∧
        stmtsLines "if" inFor (level + 1) yes = .ok inner ∧
        stmtsLines "elif" inFor level no = .ok rest ∧
        lines = ⟨level, opening ++ " " ++ test ++ ":"⟩ :: bodyLines (level + 1) inner ++ rest := by
  rw [Stmt.lines]
  simp only [bind_eq_ok, pure_eq_ok, exists_and_left, hno, if_true]

/-- Any other `else` block stands one level further in, below a line of its own. -/
theorem lines_ifElse_eq_ok_of_not_isElseIf {condition : Expr} {yes no : List Stmt}
    (hno : isElseIf no = false) :
    (ifElse condition yes no).lines opening inFor level = .ok lines ↔
      ∃ test inner rest, condition.text = .ok test ∧
        stmtsLines "if" inFor (level + 1) yes = .ok inner ∧
        stmtsLines "if" inFor (level + 1) no = .ok rest ∧
        lines = ⟨level, opening ++ " " ++ test ++ ":"⟩ :: bodyLines (level + 1) inner ++
          ⟨level, "else:"⟩ :: bodyLines (level + 1) rest := by
  rw [Stmt.lines]
  simp only [bind_eq_ok, pure_eq_ok, exists_and_left, hno, Bool.false_eq_true, if_false]

/-- Whichever way the second block stands, both blocks are laid out under the same `inFor`. -/
theorem lines_blocks_of_ifElse {condition : Expr} {yes no : List Stmt}
    (h : (ifElse condition yes no).lines opening inFor level = .ok lines) :
    (∃ inner, stmtsLines "if" inFor (level + 1) yes = .ok inner) ∧
      ∃ word depth rest, stmtsLines word inFor depth no = .ok rest := by
  cases hno : isElseIf no with
  | true =>
    obtain ⟨test, inner, rest, -, hyes, hrest, -⟩ := (lines_ifElse_eq_ok_of_isElseIf hno).mp h
    exact ⟨⟨inner, hyes⟩, "elif", level, rest, hrest⟩
  | false =>
    obtain ⟨test, inner, rest, -, hyes, hrest, -⟩ := (lines_ifElse_eq_ok_of_not_isElseIf hno).mp h
    exact ⟨⟨inner, hyes⟩, "if", level + 1, rest, hrest⟩

theorem lines_whileLoop_eq_ok {condition : Expr} {body : List Stmt} :
    (whileLoop condition body).lines opening inFor level = .ok lines ↔
      ∃ test inner, condition.text = .ok test ∧
        stmtsLines "if" false (level + 1) body = .ok inner ∧
        lines = ⟨level, "while " ++ test ++ ":"⟩ :: bodyLines (level + 1) inner := by
  rw [Stmt.lines]
  simp only [bind_eq_ok, pure_eq_ok, exists_and_left]

theorem lines_forLoop_eq_ok {init : Declaration} {condition update : Expr} {body : List Stmt} :
    (forLoop init condition update body).lines opening inFor level = .ok lines ↔
      ∃ first test inner last, init.text = .ok first ∧ condition.text = .ok test ∧
        stmtsLines "if" true (level + 1) body = .ok inner ∧ update.lineText = .ok last ∧
        lines = ⟨level, first⟩ :: ⟨level, "while " ++ test ++ ":"⟩ ::
          (inner ++ [⟨level + 1, last⟩]) := by
  rw [Stmt.lines]
  simp only [bind_eq_ok, pure_eq_ok, exists_and_left]

theorem lines_giveBack_some_eq_ok {value : Expr} :
    (giveBack (some value)).lines opening inFor level = .ok lines ↔
      ∃ text, value.text = .ok text ∧ lines = [⟨level, "return " ++ text⟩] := by
  rw [Stmt.lines]
  simp only [bind_eq_ok, pure_eq_ok]

theorem lines_giveBack_none_eq_ok :
    (giveBack none).lines opening inFor level = .ok lines ↔ lines = [⟨level, "return"⟩] := by
  rw [Stmt.lines]
  exact pure_eq_ok

theorem lines_breakLoop_eq_ok :
    breakLoop.lines opening inFor level = .ok lines ↔ lines = [⟨level, "break"⟩] := by
  rw [Stmt.lines]
  exact pure_eq_ok

/-- A `continue` is accepted only where the innermost loop is not a `for`. -/
theorem lines_continueLoop_eq_ok :
    continueLoop.lines opening inFor level = .ok lines ↔
      inFor = false ∧ lines = [⟨level, "continue"⟩] := by
  cases inFor with
  | false =>
    rw [Stmt.lines]
    simp [pure_eq_ok]
  | true =>
    rw [lines_continueLoop_of_inFor]
    simp

theorem lines_expr_eq_ok {value : Expr} :
    (expr value).lines opening inFor level = .ok lines ↔
      ∃ text, value.lineText = .ok text ∧ lines = [⟨level, text⟩] := by
  rw [Stmt.lines]
  simp only [bind_eq_ok, pure_eq_ok]

end Stmt

/-! ### Several statements -/

theorem stmtsLines_nil_eq_ok : stmtsLines opening inFor level [] = .ok lines ↔ lines = [] := by
  rw [stmtsLines]
  exact pure_eq_ok

theorem stmtsLines_cons_eq_ok {s : Stmt} {rest : List Stmt} :
    stmtsLines opening inFor level (s :: rest) = .ok lines ↔
      ∃ first others, s.lines opening inFor level = .ok first ∧
        stmtsLines opening inFor level rest = .ok others ∧ lines = first ++ others := by
  rw [stmtsLines]
  simp only [bind_eq_ok, pure_eq_ok, exists_and_left]

theorem stmtsLines_singleton_eq_ok {s : Stmt} :
    stmtsLines opening inFor level [s] = .ok lines ↔ s.lines opening inFor level = .ok lines := by
  rw [stmtsLines_cons_eq_ok]
  constructor
  · rintro ⟨first, others, hfirst, hothers, rfl⟩
    rw [stmtsLines_nil_eq_ok.mp hothers, List.append_nil]
    exact hfirst
  · exact fun h => ⟨lines, [], h, stmtsLines_nil_eq_ok.mpr rfl, (List.append_nil _).symm⟩

theorem stmtsLines_append {a b : List Stmt} {before after : List Line}
    (ha : stmtsLines opening inFor level a = .ok before)
    (hb : stmtsLines opening inFor level b = .ok after) :
    stmtsLines opening inFor level (a ++ b) = .ok (before ++ after) := by
  induction a generalizing before with
  | nil =>
    rw [stmtsLines_nil_eq_ok.mp ha]
    exact hb
  | cons s rest ih =>
    obtain ⟨first, others, hs, hrest, rfl⟩ := stmtsLines_cons_eq_ok.mp ha
    exact stmtsLines_cons_eq_ok.mpr
      ⟨first, others ++ after, hs, ih hrest, List.append_assoc first others after⟩

end Offside
