import Offside.Layout.Stmt
import Offside.Proofs.Tree.Leaves

/-!
# Scripts as tokens

`Program.kinds` writes a script as the tokens of the script language. An expression stands in a
*place*, and places are numbered, the loosest first: 1 for a whole expression, 2 to 6 for an operand
of the five tiers, 7 for the operand of a sign, 8 for what a suffix follows. An expression has a
place of its own as well (`Expr.place`), and where it stands in a tighter one it is put in
parentheses, and only there. Simple statements end with a semicolon and blocks are in braces.

What can be written and read back is `isPrintable`: `true` and `false` are no names, and only names
and elements are assigned to. `height` counts the statements and expressions on the longest path
down a tree.
-/

namespace Offside

/-! ### Places -/

/-- The place of the operands of a tier, on their left. -/
def Tier.place : Tier → Nat
  | disjunction => 2
  | conjunction => 3
  | comparison => 4
  | sum => 5
  | product => 6

/-- The tightest place where an expression needs no parentheses. -/
def Expr.place : Expr → Nat
  | .assign _ _ => 1
  | .binary op _ _ => op.tier.place
  | .unary _ _ => 7
  | _ => 8

theorem Tier.place_pos (tier : Tier) : 2 ≤ tier.place := by
  cases tier <;> decide

theorem Tier.place_le (tier : Tier) : tier.place ≤ 6 := by
  cases tier <;> decide

theorem Tier.eq_of_place_eq {a b : Tier} (h : a.place = b.place) : a = b := by
  cases a <;> cases b <;> simp [Tier.place] at h ⊢

theorem Tier.exists_place_eq {place : Nat} (hlow : 2 ≤ place) (hhigh : place ≤ 6) :
    ∃ tier : Tier, tier.place = place := by
  match place, hlow, hhigh with
  | 2, _, _ => exact ⟨.disjunction, rfl⟩
  | 3, _, _ => exact ⟨.conjunction, rfl⟩
  | 4, _, _ => exact ⟨.comparison, rfl⟩
  | 5, _, _ => exact ⟨.sum, rfl⟩
  | 6, _, _ => exact ⟨.product, rfl⟩

theorem Expr.place_le (e : Expr) : e.place ≤ 8 := by
  cases e with
  | binary op left right => exact Nat.le_trans op.tier.place_le (by decide)
  | _ => simp [Expr.place]

theorem Expr.place_pos (e : Expr) : 1 ≤ e.place := by
  cases e with
  | binary op left right => exact Nat.le_trans (by decide) op.tier.place_pos
  | _ => simp [Expr.place]

/-- The tokens of an expression in the given place. -/
def Expr.inPlace (e : Expr) (place : Nat) (kinds : List Token.Kind) : List Token.Kind :=
  if e.place < place then .mark .leftParen :: (kinds ++ [.mark .rightParen]) else kinds

/-! ### Expressions -/

/-- Lists of tokens with commas between them. -/
def commaKinds : List (List Token.Kind) → List Token.Kind
  | [] => []
  | first :: others => first ++ others.flatMap fun kinds => .mark .comma :: kinds

mutual

/-- The tokens of an expression. -/
def Expr.kinds : Expr → List Token.Kind
  | .assign target value =>
    target.inPlace 2 target.kinds ++ .mark .assign :: value.kinds
  | .binary op left right =>
    left.inPlace op.tier.place left.kinds ++
      .mark op.mark :: right.inPlace (op.tier.place + 1) right.kinds
  | .unary op operand => .mark op.mark :: operand.inPlace 7 operand.kinds
  | .call callee arguments =>
    calleeKind callee :: .mark .leftParen ::
      (commaKinds (exprsKinds arguments) ++ [.mark .rightParen])
  | .ident name => [.identifier name]
  | .number value => [.number value]
  | .string raw => [.string raw]
  | .boolean true => [.identifier "true"]
  | .boolean false => [.identifier "false"]
  | .array elements =>
    .mark .leftBracket :: (commaKinds (exprsKinds elements) ++ [.mark .rightBracket])
  | .index object index =>
    object.inPlace 8 object.kinds ++
      .mark .leftBracket :: (index.kinds ++ [.mark .rightBracket])
  | .property object name => object.inPlace 8 object.kinds ++ [.mark .dot, .identifier name]

/-- The tokens of each of several expressions. -/
def exprsKinds : List Expr → List (List Token.Kind)
  | [] => []
  | e :: others => e.kinds :: exprsKinds others

end

mutual

/-- The number of expressions on the longest path down. -/
def Expr.height : Expr → Nat
  | .assign target value => max target.height value.height + 1
  | .binary _ left right => max left.height right.height + 1
  | .unary _ operand => operand.height + 1
  | .call _ arguments => exprsHeight arguments + 1
  | .array elements => exprsHeight elements + 1
  | .index object index => max object.height index.height + 1
  | .property object _ => object.height + 1
  | _ => 1

/-- The height of the highest of several expressions. -/
def exprsHeight : List Expr → Nat
  | [] => 0
  | e :: others => max e.height (exprsHeight others)

end

mutual

/-- Is no name `true` or `false`, and is every target a name or an element? -/
def Expr.isPrintable : Expr → Bool
  | .assign target value => target.isTarget && target.isPrintable && value.isPrintable
  | .binary _ left right => left.isPrintable && right.isPrintable
  | .unary _ operand => operand.isPrintable
  | .call _ arguments => exprsPrintable arguments
  | .ident name => name != "true" && name != "false"
  | .array elements => exprsPrintable elements
  | .index object index => object.isPrintable && index.isPrintable
  | .property object _ => object.isPrintable
  | _ => true

/-- Are all the expressions? -/
def exprsPrintable : List Expr → Bool
  | [] => true
  | e :: others => e.isPrintable && exprsPrintable others

end

/-! ### Statements -/

/-- The tokens of a declaration, without the semicolon. -/
def Declaration.kinds (d : Declaration) : List Token.Kind :=
  .keyword (.decl d.kind) :: .identifier d.name ::
    match d.init with
    | some value => .mark .assign :: value.kinds
    | none => []

/-- The height of the first value. -/
def Declaration.height (d : Declaration) : Nat :=
  (d.init.map Expr.height).getD 0

/-- Can the first value be written and read back? -/
def Declaration.isPrintable (d : Declaration) : Bool :=
  d.init.all Expr.isPrintable

/-- Tokens in braces. -/
def inBraces (kinds : List Token.Kind) : List Token.Kind :=
  .mark .leftBrace :: (kinds ++ [.mark .rightBrace])

/-- Tokens in parentheses. -/
def inParens (kinds : List Token.Kind) : List Token.Kind :=
  .mark .leftParen :: (kinds ++ [.mark .rightParen])

mutual

/-- The tokens of a statement. An `else` block that is nothing but an `if` needs no braces; `short`
says whether they are left out. -/
def Stmt.kinds (short : Bool) : Stmt → List Token.Kind
  | .declare d => d.kinds ++ [.mark .semicolon]
  | .function name params body =>
    .keyword .function :: .identifier name ::
      (inParens (commaKinds (params.map fun param => [.identifier param])) ++
        inBraces (stmtsKinds short body))
  | .ifThen condition yes =>
    .keyword .ifBranch :: (inParens condition.kinds ++ inBraces (stmtsKinds short yes))
  | .ifElse condition yes no =>
    .keyword .ifBranch :: (inParens condition.kinds ++ (inBraces (stmtsKinds short yes) ++
      .keyword .elseBranch :: if short && isElseIf no then stmtsKinds short no
        else inBraces (stmtsKinds short no)))
  | .whileLoop condition body =>
    .keyword .whileLoop :: (inParens condition.kinds ++ inBraces (stmtsKinds short body))
  | .forLoop init condition update body =>
    .keyword .forLoop :: .mark .leftParen :: (init.kinds ++ .mark .semicolon ::
      (condition.kinds ++ .mark .semicolon :: (update.kinds ++ .mark .rightParen ::
        inBraces (stmtsKinds short body))))
  | .giveBack none => [.keyword .returnJump, .mark .semicolon]
  | .giveBack (some value) => .keyword .returnJump :: (value.kinds ++ [.mark .semicolon])
  | .breakLoop => [.keyword .breakJump, .mark .semicolon]
  | .continueLoop => [.keyword .continueJump, .mark .semicolon]
  | .expr value => value.kinds ++ [.mark .semicolon]

/-- The tokens of several statements. -/
def stmtsKinds (short : Bool) : List Stmt → List Token.Kind
  | [] => []
  | s :: rest => s.kinds short ++ stmtsKinds short rest

end

theorem Stmt.kinds_of_isBranch {s : Stmt} (short : Bool) (h : s.isBranch) :
    ∃ kinds, s.kinds short = .keyword .ifBranch :: kinds := by
  cases s with
  | ifThen condition yes => exact ⟨_, by rw [Stmt.kinds]⟩
  | ifElse condition yes no => exact ⟨_, by rw [Stmt.kinds]⟩
  | _ => cases h

theorem exists_of_isElseIf {body : List Stmt} (h : isElseIf body) :
    ∃ s, body = [s] ∧ s.isBranch := by
  match body, h with
  | [s], h => exact ⟨s, rfl, h⟩

mutual

/-- The number of statements and expressions on the longest path down. -/
def Stmt.height : Stmt → Nat
  | .declare d => d.height + 1
  | .function _ _ body => stmtsHeight body + 1
  | .ifThen condition yes => max condition.height (stmtsHeight yes) + 1
  | .ifElse condition yes no =>
    max condition.height (max (stmtsHeight yes) (stmtsHeight no)) + 1
  | .whileLoop condition body => max condition.height (stmtsHeight body) + 1
  | .forLoop init condition update body =>
    max init.height (max condition.height (max update.height (stmtsHeight body))) + 1
  | .giveBack value => (value.map Expr.height).getD 0 + 1
  | .expr value => value.height + 1
  | _ => 1

/-- The height of the highest of several statements. -/
def stmtsHeight : List Stmt → Nat
  | [] => 0
  | s :: rest => max s.height (stmtsHeight rest)

end

mutual

/-- Can all expressions of the statement be written and read back? -/
def Stmt.isPrintable : Stmt → Bool
  | .declare d => d.isPrintable
  | .function _ _ body => stmtsPrintable body
  | .ifThen condition yes => condition.isPrintable && stmtsPrintable yes
  | .ifElse condition yes no =>
    condition.isPrintable && stmtsPrintable yes && stmtsPrintable no
  | .whileLoop condition body => condition.isPrintable && stmtsPrintable body
  | .forLoop init condition update body =>
    init.isPrintable && condition.isPrintable && update.isPrintable && stmtsPrintable body
  | .giveBack value => value.all Expr.isPrintable
  | .expr value => value.isPrintable
  | _ => true

/-- Can all expressions of the statements be written and read back? -/
def stmtsPrintable : List Stmt → Bool
  | [] => true
  | s :: rest => s.isPrintable && stmtsPrintable rest

end

namespace Program

/-- The tokens of a script. -/
def kinds (short : Bool) (program : Program) : List Token.Kind :=
  stmtsKinds short program.body

/-- The number of statements and expressions on the longest path down a script. -/
def height (program : Program) : Nat :=
  stmtsHeight program.body

/-- Can the script be written and read back? -/
def isPrintable (program : Program) : Bool :=
  stmtsPrintable program.body

end Program

end Offside
