import Offside.Token.Piece
import Offside.Proofs.Parser.Expression

/-!
# Scripts read back

A script that is written as tokens is read back, unless it nests too deeply; and a script with no
more than 100 statements and expressions on any path down does not. The tokens can have any places
in the source, since only their kinds are looked at.

Statements end with a semicolon or a brace, so almost anything may follow them. **The exception is
`else`** (`EndsStmt`): an `if` without one would take it as its own.
-/

namespace Offside

namespace Parser

variable {fits : Prop} {kinds : List Token.Kind} {follow : Option Token.Kind → Prop}

/-! ### Parts of statements -/

/-- What `fits` says leaves enough room for the expression. -/
theorem takes_expression {e : Expr} (he : e.isPrintable) {room : Nat}
    (hfits : fits → 2 * e.height ≤ room) :
    Takes fits (expression room) e.kinds (Follows 1) (pure e) :=
  (readable e he).whole.weaken hfits

theorem takes_condition {e : Expr} (he : e.isPrintable) {room : Nat}
    (hfits : fits → 2 * e.height ≤ room) :
    Takes fits (condition (expression room)) (inParens e.kinds) (fun _ => True) (pure e) :=
  .expect _ ((takes_expression he hfits).seq (.expect _ .refl) fun _ _ => follows_some (by decide))

theorem takes_declaration {d : Declaration} (hd : d.isPrintable) {room : Nat}
    (hfits : fits → 2 * d.height ≤ room) :
    Takes fits (declaration (expression room)) d.kinds (· = some (.mark .semicolon)) (pure d) := by
  obtain ⟨kind, name, init⟩ := d
  have hsemicolon : ∀ next, next = some (Token.Kind.mark .semicolon) → Follows 1 next := by
    rintro _ rfl
    exact follows_some (by decide)
  refine .look looks_peekKind? (some (.keyword (.decl kind))) (fun _ _ => rfl) ?_
  refine .advance _ (.identifier name ?_)
  cases init with
  | none =>
    refine .accept_other _ ?_ .refl
    rintro _ rfl
    exact nofun
  | some value =>
    have hvalue : Takes fits (expression room) value.kinds (Follows 1) (pure value) :=
      takes_expression (by simpa [Declaration.isPrintable] using hd) hfits
    exact .accept _ ((hvalue.mono id hsemicolon).into _)

/-- The names of the parameters, before the parenthesis that closes them. -/
theorem takes_params {β : Type} (params : List String) {f : List String → Parser β} {r : Parser β}
    (h : Takes fits (f params) (.mark .rightParen :: kinds) follow r) :
    Takes fits (do
        let params ← if ← nextIs (.mark .rightParen) then pure [] else separated identifier
        f params)
      (commaKinds (params.map fun param => [.identifier param]) ++ .mark .rightParen :: kinds)
      follow r := by
  cases params with
  | nil => exact .look (looks_nextIs _) true (fun _ _ => decide_eq_true rfl) h
  | cons first others =>
    have hname (name : String) :
        Takes fits identifier [.identifier name] (fun _ => True) (pure name) := by
      rw [← bind_pure identifier]
      exact .identifier name .refl
    have hnames : Takes fits (separated identifier)
        (commaKinds ((first :: others).map fun param => [.identifier param]))
        (· = some (.mark .rightParen)) (pure (first :: others)) := by
      refine .separated (fun name _ => hname name) trivial ?_
      rintro _ rfl
      exact ⟨trivial, nofun⟩
    exact .look (looks_nextIs _) false (fun _ _ => rfl) (hnames.seq h fun _ _ => rfl)

/-! ### Statements one after the other -/

/-- What may follow a statement: no `else`, which would belong to it. -/
def EndsStmt (next : Option Token.Kind) : Prop :=
  next ≠ some (.keyword .elseBranch)

/-- Can a statement start with this token? -/
def startsStmt : Token.Kind → Bool
  | .keyword keyword => keyword != .elseBranch
  | kind => startsExpr kind

theorem startsStmt_of_startsExpr {kind : Token.Kind} (h : startsExpr kind) : startsStmt kind := by
  cases kind with
  | keyword keyword => cases h
  | _ => exact h

theorem starts_stmt (short : Bool) (s : Stmt) :
    ∃ kind, (s.kinds short).head? = some kind ∧ startsStmt kind := by
  cases s with
  | expr value =>
    obtain ⟨kind, hkind, hstarts, -⟩ := (starts_kinds value).append [.mark .semicolon]
    exact ⟨kind, by rw [Stmt.kinds, hkind], startsStmt_of_startsExpr hstarts⟩
  | giveBack value => cases value <;> exact ⟨_, rfl, rfl⟩
  | _ => exact ⟨_, rfl, rfl⟩

/-- The statement is read back by the parser for statements. -/
def StmtReadable (short : Bool) (s : Stmt) : Prop :=
  ∀ room, Takes (2 * s.height ≤ room) (statement room) (s.kinds short) EndsStmt (pure s)

/-- Statements up to a point that `ask` recognises. -/
theorem takes_statements {short : Bool} {room : Nat} {ask : Parser Bool}
    {answer : Option Token.Kind → Bool} (hask : Looks ask answer)
    (hstart : ∀ kind, startsStmt kind → answer (some kind) = false)
    (hend : ∀ next, follow next → answer next = true) (hends : ∀ next, follow next → EndsStmt next)
    {body : List Stmt} (hbody : ∀ s ∈ body, StmtReadable short s)
    (hfits : fits → 2 * stmtsHeight body ≤ room) :
    Takes fits (many do if ← ask then return none else return some (← statement room))
      (stmtsKinds short body) follow (pure body) := by
  induction body with
  | nil => exact .many_nil (.look hask true hend .refl)
  | cons s rest ih =>
    obtain ⟨kind, hkind, hstarts⟩ := starts_stmt short s
    rw [stmtsHeight] at hfits
    have hs := (hbody s (.head _) room).weaken fun h => by have := hfits h; omega
    have hrest := ih (fun s hs => hbody s (.tail _ hs)) fun h => by have := hfits h; omega
    refine .many_cons (.look hask false (fun next _ => ?_) (hs.into _)) ?_ hrest fun next hnext => ?_
    · rw [hkind]
      exact hstart kind hstarts
    · rintro hnil
      rw [hnil] at hkind
      cases hkind
    · -- What follows the first statement is the second one, or what follows them all.
      cases rest with
      | nil => exact hends next hnext
      | cons second others =>
        obtain ⟨kind, hkind, hstarts⟩ := starts_stmt short second
        rw [stmtsKinds, List.head?_append, hkind]
        rintro ⟨⟩
        cases hstarts

theorem takes_block {short : Bool} {body : List Stmt} (hbody : ∀ s ∈ body, StmtReadable short s)
    {room : Nat} (hfits : fits → 2 * stmtsHeight body < room) :
    Takes fits (block room) (inBraces (stmtsKinds short body)) (fun _ => True) (pure body) := by
  cases room with
  | zero =>
    rw [block]
    exact .expect _ (.tooDeep fun h => Nat.not_lt_zero _ (hfits h))
  | succ room =>
    have hstatements : Takes fits (many do
          if ← atClose .rightBrace then return none else return some (← statement room))
        (stmtsKinds short body) (· = some (.mark .rightBrace)) (pure body) := by
      refine takes_statements (looks_atClose .rightBrace) ?_ ?_ ?_ hbody
        fun h => Nat.le_of_lt_succ (hfits h)
      · intro kind hkind
        have hne : kind ≠ .mark .rightBrace := by
          rintro rfl
          cases hkind
        simp [hne]
      · rintro _ rfl
        rfl
      · rintro _ rfl
        exact nofun
    rw [block]
    exact .expect _ (hstatements.seq (.expect _ .refl) fun _ _ => rfl)

/-- An `if` opens a level after an `else`, and is otherwise read as the statement that it is. -/
theorem takes_elseIf {short : Bool} {s : Stmt} (hbranch : s.isBranch) (hs : StmtReadable short s)
    {room : Nat} (hfits : fits → 2 * s.height < room) :
    Takes fits (elseIf room) (s.kinds short) EndsStmt (pure s) := by
  cases room with
  | zero =>
    rw [elseIf]
    exact .tooDeep fun h => Nat.not_lt_zero _ (hfits h)
  | succ room =>
    have hroom := (hs room).weaken fun h => Nat.le_of_lt_succ (hfits h)
    intro tokens rest htokens hrest
    -- A statement goes by its first token, which is `if` here.
    have hsame : elseIf (room + 1) (tokens ++ rest) = statement room (tokens ++ rest) := by
      obtain ⟨kinds, hkinds⟩ := s.kinds_of_isBranch short hbranch
      rw [hkinds] at htokens
      obtain ⟨⟨kind, span⟩, others, rfl, rfl, -⟩ := List.map_eq_cons_iff.mp htokens
      rw [elseIf]
      rfl
    rw [hsame]
    exact hroom tokens rest htokens hrest

/-! ### Every statement -/

section Composite

variable {short : Bool} {yes no body : List Stmt}

theorem readable_whileLoop {test : Expr} (htest : test.isPrintable)
    (hbody : ∀ s ∈ body, StmtReadable short s) : StmtReadable short (.whileLoop test body) := by
  intro room
  rw [Stmt.height, Stmt.kinds]
  refine .look looks_peekKind? (some (.keyword .whileLoop)) (fun _ _ => rfl) (.advance _ ?_)
  exact (takes_condition htest (by omega)).seq ((takes_block hbody (by omega)).anywhere.into _)
    fun _ _ => trivial

theorem readable_forLoop {init : Declaration} {test update : Expr} (hinit : init.isPrintable)
    (htest : test.isPrintable) (hupdate : update.isPrintable)
    (hbody : ∀ s ∈ body, StmtReadable short s) :
    StmtReadable short (.forLoop init test update body) := by
  intro room
  rw [Stmt.height, Stmt.kinds]
  refine .look looks_peekKind? (some (.keyword .forLoop)) (fun _ _ => rfl) ?_
  refine .advance _ (.expect _ ?_)
  refine (takes_declaration hinit (by omega)).seq (.expect _ ?_) fun _ _ => rfl
  refine (takes_expression htest (by omega)).seq (.expect _ ?_) fun _ _ => follows_some (by decide)
  refine (takes_expression hupdate (by omega)).seq (.expect _ ?_) fun _ _ => follows_some (by decide)
  exact (takes_block hbody (by omega)).anywhere.into _

theorem readable_function (name : String) (params : List String)
    (hbody : ∀ s ∈ body, StmtReadable short s) : StmtReadable short (.function name params body) := by
  intro room
  rw [Stmt.height, Stmt.kinds, inParens, List.cons_append, List.append_assoc]
  refine .look looks_peekKind? (some (.keyword .function)) (fun _ _ => rfl) ?_
  refine .advance _ (.identifier name (.expect _ ?_))
  refine takes_params params (.expect _ ?_)
  exact (takes_block hbody (by omega)).anywhere.into _

theorem readable_ifThen {test : Expr} (htest : test.isPrintable)
    (hyes : ∀ s ∈ yes, StmtReadable short s) : StmtReadable short (.ifThen test yes) := by
  intro room
  rw [Stmt.height, Stmt.kinds]
  refine .look looks_peekKind? (some (.keyword .ifBranch)) (fun _ _ => rfl) (.advance _ ?_)
  refine (takes_condition htest (by omega)).seq ?_ fun _ _ => trivial
  rw [← List.append_nil (inBraces _)]
  refine (takes_block hyes (by omega)).seq ?_ fun _ _ => trivial
  -- The parser looks for an `else`, and none may follow.
  exact .look (looks_nextIs _) false (fun next hnext => decide_eq_false hnext) .refl

theorem readable_ifElse {test : Expr} (htest : test.isPrintable)
    (hyes : ∀ s ∈ yes, StmtReadable short s) (hno : ∀ s ∈ no, StmtReadable short s) :
    StmtReadable short (.ifElse test yes no) := by
  intro room
  rw [Stmt.height, Stmt.kinds]
  refine .look looks_peekKind? (some (.keyword .ifBranch)) (fun _ _ => rfl) (.advance _ ?_)
  refine (takes_condition htest (by omega)).seq ?_ fun _ _ => trivial
  refine (takes_block hyes (by omega)).seq ?_ fun _ _ => trivial
  refine .look (looks_nextIs _) true (fun _ _ => decide_eq_true rfl) (.advance _ ?_)
  split
  · next hshort =>
    obtain ⟨s, rfl, hbranch⟩ := exists_of_isElseIf (Bool.and_eq_true_iff.mp hshort).2
    obtain ⟨kinds, hkinds⟩ := s.kinds_of_isBranch short hbranch
    rw [stmtsKinds, stmtsKinds, List.append_nil, stmtsHeight, stmtsHeight]
    refine .look (looks_nextIs _) true (fun _ _ => by simp [hkinds]) ?_
    exact (takes_elseIf hbranch (hno s (.head _)) (by omega)).into _
  · refine .look (looks_nextIs _) false (fun _ _ => by simp [inBraces]) ?_
    exact (takes_block hno (by omega)).anywhere.into _

/-- A value and the semicolon after it. -/
theorem takes_value {value : Expr} (hvalue : value.isPrintable) {room : Nat}
    (hfits : fits → 2 * value.height ≤ room) (f : Expr → Parser Stmt) :
    Takes fits (do
        let value ← expression room
        skip .semicolon
        f value)
      (value.kinds ++ [.mark .semicolon]) follow (f value) :=
  (takes_expression hvalue hfits).seq (.skip _ .refl) fun _ _ => follows_some (by decide)

theorem readable_giveBack_none : StmtReadable short (.giveBack none) := by
  intro room
  refine .look looks_peekKind? (some (.keyword .returnJump)) (fun _ _ => rfl) (.advance _ ?_)
  exact .look looks_peekKind? (some (.mark .semicolon)) (fun _ _ => rfl) (.skip _ .refl)

theorem readable_giveBack {value : Expr} (hvalue : value.isPrintable) :
    StmtReadable short (.giveBack (some value)) := by
  intro room
  rw [Stmt.height, Stmt.kinds]
  obtain ⟨kind, hkind, hstarts, -⟩ := (starts_kinds value).append [.mark .semicolon]
  refine .look looks_peekKind? (some (.keyword .returnJump)) (fun _ _ => rfl) (.advance _ ?_)
  refine .look looks_peekKind? (some kind) (fun _ _ => by rw [hkind]; rfl) ?_
  split
  -- A value starts neither with a semicolon nor with a brace, which would end the statement.
  · next h => cases h
  · next h =>
    cases h
    cases hstarts
  · next h =>
    cases h
    cases hstarts
  · exact takes_value hvalue (fun h => by simp at h; omega) _

theorem readable_expr {value : Expr} (hvalue : value.isPrintable) :
    StmtReadable short (.expr value) := by
  intro room
  rw [Stmt.height, Stmt.kinds]
  obtain ⟨kind, hkind, hstarts, -⟩ := (starts_kinds value).append [.mark .semicolon]
  refine .look looks_peekKind? (some kind) (fun _ _ => by rw [hkind]; rfl) ?_
  cases kind with
  | keyword keyword => cases hstarts
  | _ => exact takes_value hvalue (by omega) _

theorem readable_declare {d : Declaration} (hd : d.isPrintable) :
    StmtReadable short (.declare d) := by
  intro room
  rw [Stmt.height, Stmt.kinds]
  refine .look looks_peekKind? (some (.keyword (.decl d.kind))) (fun _ _ => rfl) ?_
  exact (takes_declaration hd (by omega)).seq (.skip _ .refl) fun _ _ => rfl

end Composite

mutual

/-- **Every printable statement is read back.** -/
theorem stmtReadable (short : Bool) (s : Stmt) (hs : s.isPrintable) : StmtReadable short s := by
  cases s with
  | declare d => exact readable_declare hs
  | function name params body =>
    rw [Stmt.isPrintable] at hs
    exact readable_function name params (stmtsReadable short body hs)
  | ifThen test yes =>
    rw [Stmt.isPrintable, Bool.and_eq_true] at hs
    exact readable_ifThen hs.1 (stmtsReadable short yes hs.2)
  | ifElse test yes no =>
    rw [Stmt.isPrintable, Bool.and_eq_true, Bool.and_eq_true] at hs
    exact readable_ifElse hs.1.1 (stmtsReadable short yes hs.1.2) (stmtsReadable short no hs.2)
  | whileLoop test body =>
    rw [Stmt.isPrintable, Bool.and_eq_true] at hs
    exact readable_whileLoop hs.1 (stmtsReadable short body hs.2)
  | forLoop init test update body =>
    rw [Stmt.isPrintable, Bool.and_eq_true, Bool.and_eq_true, Bool.and_eq_true] at hs
    exact readable_forLoop hs.1.1.1 hs.1.1.2 hs.1.2 (stmtsReadable short body hs.2)
  | giveBack value =>
    cases value with
    | none => exact readable_giveBack_none
    | some value =>
      rw [Stmt.isPrintable, Option.all_some] at hs
      exact readable_giveBack hs
  | breakLoop =>
    exact fun _ => .look looks_peekKind? _ (fun _ _ => rfl) (.advance _ (.skip _ .refl))
  | continueLoop =>
    exact fun _ => .look looks_peekKind? _ (fun _ _ => rfl) (.advance _ (.skip _ .refl))
  | expr value =>
    rw [Stmt.isPrintable] at hs
    exact readable_expr hs

theorem stmtsReadable (short : Bool) (body : List Stmt) (hbody : stmtsPrintable body) :
    ∀ s ∈ body, StmtReadable short s := by
  cases body with
  | nil => exact nofun
  | cons first rest =>
    rw [stmtsPrintable, Bool.and_eq_true] at hbody
    exact List.forall_mem_cons.mpr
      ⟨stmtReadable short first hbody.1, stmtsReadable short rest hbody.2⟩

end

/-! ### Scripts -/

theorem takes_program (short : Bool) {script : Program} (hscript : script.isPrintable) :
    Takes (script.height ≤ 100) program (script.kinds short) (· = none) (pure script) := by
  refine .into (takes_statements looks_atEnd (fun _ _ => rfl) ?_ ?_
    (stmtsReadable short script.body hscript) fun h => ?_) _
  · rintro _ rfl
    rfl
  · rintro _ rfl
    exact nofun
  · -- Two levels for each of 100 nodes are fewer than the limit.
    rw [Program.height] at h
    rw [nestingLimit]
    omega

end Parser

/-- A script written as tokens is read back, unless it is nested too deeply; and with no more than
100 statements and expressions on a path down, it is not. -/
theorem parse_eq_of_kinds (short : Bool) {program : Program} (hprogram : program.isPrintable)
    {tokens : List Token} (htokens : tokens.map Token.kind = program.kinds short) :
    (parse tokens = .ok program ∨
        ∃ span, parse tokens = .error (.nestingTooDeep nestingLimit span)) ∧
      (program.height ≤ 100 → parse tokens = .ok program) := by
  have htakes := Parser.takes_program short hprogram tokens [] htokens rfl
  rw [List.append_nil] at htakes
  rcases htakes with h | ⟨hhigh, span, rest, h⟩
  · have hparse : parse tokens = .ok program := by
      rw [parse, h]
      rfl
    exact ⟨.inl hparse, fun _ => hparse⟩
  · have hparse : parse tokens = .error (.nestingTooDeep nestingLimit span) := by
      rw [parse, h]
    exact ⟨.inr ⟨span, hparse⟩, fun hlow => absurd hlow hhigh⟩

/-- Most kinds of statements and expressions, with the parentheses that the tiers and the suffix
need and no others. -/
theorem parse_eq_of_kinds_of_mixed :
    let source := "function f(a, b) \x7b if (a - (b - 1) < 2) \x7b x = y[0] = -a.c; \x7d " ++
      "else if (!(a && b)) \x7b return; \x7d else \x7b console.log((a + b).c, [1, true]); \x7d " ++
      "for (let i = 0; i < 3; i = i + 1) \x7b break; \x7d \x7d"
    let less : Expr :=
      .binary .lt (.binary .sub (.ident "a") (.binary .sub (.ident "b") (.number 1))) (.number 2)
    let chained : Expr := .assign (.ident "x")
      (.assign (.index (.ident "y") (.number 0)) (.unary .neg (.property (.ident "a") "c")))
    let shown : Expr := .call "console.log"
      [.property (.binary .add (.ident "a") (.ident "b")) "c", .array [.number 1, .boolean true]]
    let loop : Stmt := .forLoop ⟨.letDecl, "i", some (.number 0)⟩
      (.binary .lt (.ident "i") (.number 3))
      (.assign (.ident "i") (.binary .add (.ident "i") (.number 1))) [.breakLoop]
    let second : Stmt := .ifElse (.unary .not (.binary .and (.ident "a") (.ident "b")))
      [.giveBack none] [.expr shown]
    let program : Program :=
      ⟨[.function "f" ["a", "b"] [.ifElse less [.expr chained] [second], loop]]⟩
    program.height = 8 ∧ parse (tokens source) = .ok program := by
  intro source less chained shown loop second program
  have hkinds : (tokens source).map Token.kind = program.kinds true := by
    decide +kernel
  exact ⟨by decide, (parse_eq_of_kinds true (by decide) hkinds).2 (by decide)⟩

end Offside
