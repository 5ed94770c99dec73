import Offside.Proofs.Parser.Takes

/-!
# A parser looks one token ahead

A parser decides by the tokens that it takes off and the one token behind them, and by nothing else.
`Parser.Local p` says so for a run of `p` on any tokens: however it ends, it ends in the same way,
with the same tokens taken off, in front of any other tokens that start with the same one. In
particular a parser takes tokens off from the front only.

Single tokens are read in this way (`local_advance` and its like), it is kept when parsers are put
together (`Local.bind`, `local_many`), and so it holds of every parser, up to `local_program`.
-/

namespace Offside

namespace Parser

variable {α β σ : Type}

/-- A run that ends with this outcome in this state. -/
def ending (outcome : Except GrammarFault α) (state : σ) : EStateM.Result GrammarFault σ α :=
  match outcome with
  | .ok value => .ok value state
  | .error fault => .error fault state

theorem ending_inj {outcome outcome' : Except GrammarFault α} {state state' : σ}
    (h : ending outcome state = ending outcome' state') : outcome = outcome' ∧ state = state' := by
  cases outcome <;> cases outcome' <;> cases h <;> exact ⟨rfl, rfl⟩

theorem exists_ending (result : EStateM.Result GrammarFault σ α) :
    ∃ outcome state, result = ending outcome state := by
  cases result with
  | ok value state => exact ⟨.ok value, state, rfl⟩
  | error fault state => exact ⟨.error fault, state, rfl⟩

theorem parse_of_program {tokens rest : List Token} {outcome : Except GrammarFault Program}
    (h : program tokens = ending outcome rest) : parse tokens = outcome := by
  rw [parse, h]
  cases outcome <;> rfl

/-- Every run ends in some way: some tokens have been taken off, and it would have been the same
with other tokens behind them, as long as the first of these is the same. -/
def Local (p : Parser α) : Prop :=
  ∀ tokens, ∃ outcome taken rest, tokens = taken ++ rest ∧
    ∀ others : List Token, others.head? = rest.head? → p (taken ++ others) = ending outcome others

/-- What is known of a run that succeeds. -/
theorem Local.of_ok {p : Parser α} (hp : Local p) {tokens rest : List Token} {value : α}
    (h : p tokens = .ok value rest) :
    ∃ taken, tokens = taken ++ rest ∧
      ∀ others : List Token, others.head? = rest.head? → p (taken ++ others) = .ok value others := by
  obtain ⟨outcome, taken, left, rfl, hrun⟩ := hp tokens
  obtain ⟨rfl, rfl⟩ : outcome = .ok value ∧ left = rest :=
    ending_inj ((hrun left rfl).symm.trans h)
  exact ⟨taken, rfl, hrun⟩

theorem Local.length_le {p : Parser α} (hp : Local p) {tokens rest : List Token} {value : α}
    (h : p tokens = .ok value rest) : rest.length ≤ tokens.length := by
  obtain ⟨taken, rfl, -⟩ := hp.of_ok h
  rw [List.length_append]
  exact Nat.le_add_left _ _

/-! ### Putting parsers together -/

theorem local_pure (value : α) : Local (pure value) :=
  fun tokens => ⟨.ok value, [], tokens, rfl, fun _ _ => rfl⟩

/-- The second parser starts with the token at which the first one has stopped. -/
theorem Local.bind {p : Parser α} {f : α → Parser β} (hp : Local p)
    (hf : ∀ value, Local (f value)) : Local (p >>= f) := by
  intro tokens
  obtain ⟨outcome, taken, rest, rfl, hrun⟩ := hp tokens
  cases outcome with
  | error fault =>
    refine ⟨.error fault, taken, rest, rfl, fun others hothers => ?_⟩
    simp only [Bind.bind, EStateM.bind, hrun others hothers, ending]
  | ok value =>
    obtain ⟨outcome, taken', rest', rfl, hrun'⟩ := hf value rest
    refine ⟨outcome, taken ++ taken', rest', (List.append_assoc ..).symm, fun others hothers => ?_⟩
    have hnext : (taken' ++ others).head? = (taken' ++ rest').head? := by
      rw [List.head?_append, List.head?_append, hothers]
    rw [List.append_assoc, ← hrun' others hothers]
    simp only [Bind.bind, EStateM.bind, hrun _ hnext, ending]

theorem local_throw (fault : GrammarFault) : Local (throw fault : Parser α) :=
  fun tokens => ⟨.error fault, [], tokens, rfl, fun _ _ => rfl⟩

/-! ### Single tokens -/

/-- A parser that takes nothing off and answers by the next token, or fails by it. -/
theorem local_of_head {p : Parser α} (outcome : Option Token → Except GrammarFault α)
    (h : ∀ tokens, p tokens = ending (outcome tokens.head?) tokens) : Local p := by
  refine fun tokens => ⟨outcome tokens.head?, [], tokens, rfl, fun others hothers => ?_⟩
  rw [List.nil_append, h, hothers]

theorem local_of_looks {ask : Parser α} {answer : Option Token.Kind → α} (h : Looks ask answer) :
    Local ask :=
  local_of_head (fun token? => .ok (answer (token?.map Token.kind))) h

theorem local_peek? : Local peek? :=
  local_of_head .ok fun _ => rfl

theorem local_peekKind? : Local peekKind? :=
  local_of_looks looks_peekKind?

theorem local_nextIs (kind : Token.Kind) : Local (nextIs kind) :=
  local_of_looks (looks_nextIs kind)

theorem local_unexpected (expected : String) : Local (unexpected expected : Parser α) := by
  refine local_of_head (fun token? => .error (token?.elim (.unexpectedEnd expected) fun token =>
    .unexpectedToken expected token.kind.describe token.span)) fun tokens => ?_
  cases tokens <;> rfl

theorem local_tooDeep : Local (tooDeep : Parser α) :=
  local_of_head (fun token? =>
    .error (.nestingTooDeep nestingLimit ((token?.map Token.span).getD .nowhere))) fun _ => rfl

theorem local_advance : Local advance := by
  intro tokens
  cases tokens with
  | nil =>
    refine ⟨.ok (), [], [], rfl, fun others hothers => ?_⟩
    rw [List.head?_eq_none_iff.mp hothers]
    rfl
  | cons token rest => exact ⟨.ok (), [token], rest, rfl, fun _ _ => rfl⟩

theorem local_accept (mark : Mark) : Local (accept mark) := by
  refine (local_nextIs _).bind fun found => ?_
  split
  · exact local_advance.bind fun _ => local_pure true
  · exact local_pure false

theorem local_skip (mark : Mark) : Local (skip mark) :=
  (local_accept mark).bind fun _ => local_pure ()

theorem local_expect (mark : Mark) : Local (expect mark) := by
  refine (local_nextIs _).bind fun found => ?_
  split
  · exact local_advance
  · exact local_unexpected _

theorem local_identifier : Local identifier := by
  refine local_peekKind?.bind fun kind? => ?_
  split
  · exact local_advance.bind fun _ => local_pure _
  · exact local_unexpected _

/-! ### Repetition -/

/-- The turns of a loop. Whether a turn has taken anything off does not depend on what follows
either. -/
theorem local_many {step : Parser (Option α)} (hstep : Local step) : Local (many step) := by
  intro tokens
  induction hlength : tokens.length using Nat.strongRecOn generalizing tokens with
  | ind length ih =>
    obtain ⟨outcome, taken, rest, rfl, hrun⟩ := hstep tokens
    rcases outcome with fault | first?
    · refine ⟨.error fault, taken, rest, rfl, fun others hothers => ?_⟩
      rw [many, hrun others hothers, ending, ending]
    rcases first? with _ | first
    · refine ⟨.ok [], taken, rest, rfl, fun others hothers => ?_⟩
      rw [many, hrun others hothers, ending, ending]
    by_cases htaken : taken = []
    · -- A turn that takes nothing off is the last one.
      subst htaken
      refine ⟨.ok [first], [], rest, rfl, fun others hothers => ?_⟩
      rw [many, hrun others hothers, ending, ending]
      exact if_neg (Nat.lt_irrefl _)
    · have hshorter (others : List Token) : others.length < (taken ++ others).length := by
        have hpos := List.length_pos_iff.mpr htaken
        rw [List.length_append]
        omega
      obtain ⟨outcome, taken', rest', rfl, hrun'⟩ :=
        ih rest.length (hlength ▸ hshorter rest) rest rfl
      refine ⟨outcome.map (first :: ·), taken ++ taken', rest', (List.append_assoc ..).symm,
        fun others hothers => ?_⟩
      have hnext : (taken' ++ others).head? = (taken' ++ rest').head? := by
        rw [List.head?_append, List.head?_append, hothers]
      rw [List.append_assoc, many, hrun _ hnext]
      simp only [ending, if_pos (hshorter _), hrun' others hothers]
      cases outcome <;> rfl

theorem local_atClose (close : Mark) : Local (atClose close) :=
  local_of_looks (looks_atClose close)

theorem local_items (close : Mark) {item : Parser α} (hitem : Local item) :
    Local (items close item) := by
  refine (local_atClose close).bind fun closed => ?_
  split
  · exact local_pure []
  · refine hitem.bind fun first => (local_many ?_).bind fun others => local_pure _
    refine (local_accept .comma).bind fun comma => ?_
    split
    · refine (local_atClose close).bind fun closed => ?_
      split
      · exact local_pure none
      · exact hitem.bind fun value => local_pure (some value)
    · exact local_pure none

theorem local_separated {item : Parser α} (hitem : Local item) : Local (separated item) := by
  refine hitem.bind fun first => (local_many ?_).bind fun others => local_pure _
  refine (local_accept .comma).bind fun comma => ?_
  split
  · exact hitem.bind fun value => local_pure (some value)
  · exact local_pure none

/-! ### Expressions -/

theorem local_chain (tier : Tier) {operand : Parser Expr} (hoperand : Local operand) (room : Nat)
    (left : Expr) : Local (chain tier operand room left) := by
  induction room generalizing left with
  | zero =>
    refine local_peekKind?.bind fun kind? => ?_
    split
    · exact local_tooDeep
    · exact local_pure left
  | succ room ih =>
    refine local_peekKind?.bind fun kind? => ?_
    split
    · exact local_advance.bind fun _ => hoperand.bind fun right => ih _
    · exact local_pure left

theorem local_tiers (room : Nat) {operand : Parser Expr} (hoperand : Local operand)
    (tierList : List Tier) : Local (tiers room operand tierList) := by
  induction tierList with
  | nil => exact hoperand
  | cons tier tighter ih => exact ih.bind fun left => local_chain tier ih room left

theorem local_signed {operand plain : Parser Expr} (hoperand : Local operand)
    (hplain : Local plain) : Local (signed operand plain) := by
  refine (local_of_looks looks_peekMark?).bind fun mark? => ?_
  split
  · exact local_advance.bind fun _ => hoperand.bind fun e => local_pure _
  · exact hplain

section Expression

variable {expression : Parser Expr} (h : Local expression)

include h

theorem local_arguments : Local (arguments expression) :=
  (local_expect _).bind fun _ => (local_items _ h).bind fun es =>
    (local_expect _).bind fun _ => local_pure es

theorem local_primary : Local (primary expression) := by
  refine local_peekKind?.bind fun kind? => ?_
  split
  · exact local_advance.bind fun _ => local_pure _
  · exact local_advance.bind fun _ => local_pure _
  · refine local_advance.bind fun _ => (local_nextIs _).bind fun called => ?_
    split
    · exact (local_arguments h).bind fun es => local_pure _
    · exact local_pure _
  · exact local_advance.bind fun _ => (local_arguments h).bind fun es => local_pure _
  · exact local_advance.bind fun _ => (local_items _ h).bind fun es =>
      (local_expect _).bind fun _ => local_pure _
  · exact local_advance.bind fun _ => h.bind fun e => (local_expect _).bind fun _ => local_pure e
  · exact local_unexpected _

theorem local_suffixes (room : Nat) (object : Expr) :
    Local (suffixes expression room object) := by
  induction room generalizing object with
  | zero =>
    refine (local_of_looks looks_peekMark?).bind fun mark? => ?_
    split
    · exact local_tooDeep
    · exact local_tooDeep
    · exact local_pure object
  | succ room ih =>
    refine (local_of_looks looks_peekMark?).bind fun mark? => ?_
    split
    · refine local_advance.bind fun _ => local_identifier.bind fun name =>
        (local_nextIs _).bind fun called => ?_
      split
      · exact local_unexpected _
      · exact ih _
    · exact local_advance.bind fun _ => h.bind fun index => (local_expect _).bind fun _ => ih _
    · exact local_pure object

theorem local_suffixed (room : Nat) : Local (suffixed room expression) :=
  (local_primary h).bind fun object => local_suffixes h room object

/-- The target is looked at when the value has been read, but it was read before. -/
theorem local_assignment {target : Parser Expr} (htarget : Local target) :
    Local (assignment target expression) := by
  refine htarget.bind fun left => local_peek?.bind fun token? => ?_
  split
  · refine local_advance.bind fun _ => h.bind fun right => ?_
    split
    · exact local_pure _
    · exact local_throw _
  · exact local_pure left

end Expression

/-- By induction on the room: what is inside an expression or an operand has less of it. -/
theorem local_expression_operand (room : Nat) : Local (expression room) ∧ Local (operand room) := by
  induction room with
  | zero =>
    rw [expression, operand]
    exact ⟨local_tooDeep, local_tooDeep⟩
  | succ room ih =>
    obtain ⟨hexpression, hoperand⟩ := ih
    have hsigned := local_signed hoperand (local_suffixed hexpression room)
    rw [expression, operand]
    exact ⟨local_assignment hexpression (local_tiers room hsigned Tier.all), hsigned⟩

theorem local_expression (room : Nat) : Local (expression room) :=
  (local_expression_operand room).1

/-! ### Statements -/

section Statement

variable {expression : Parser Expr} {block : Parser (List Stmt)} {elseIf : Parser Stmt}
  (h : Local expression)

include h

theorem local_declaration : Local (declaration expression) := by
  refine local_peekKind?.bind fun kind? => ?_
  split
  · refine local_advance.bind fun _ => local_identifier.bind fun name =>
      (local_accept _).bind fun assigned => ?_
    split
    · exact h.bind fun e => local_pure _
    · exact local_pure _
  · exact local_unexpected _

theorem local_condition : Local (condition expression) :=
  (local_expect _).bind fun _ => h.bind fun e => (local_expect _).bind fun _ => local_pure e

theorem local_giveBack : Local (giveBack expression) := by
  refine local_advance.bind fun _ => local_peekKind?.bind fun kind? => ?_
  split
  · exact local_pure _
  · exact (local_skip _).bind fun _ => local_pure _
  · exact local_pure _
  · exact h.bind fun e => (local_skip _).bind fun _ => local_pure _

variable (hblock : Local block)

include hblock

theorem local_branch (helseIf : Local elseIf) : Local (branch expression block elseIf) := by
  refine local_advance.bind fun _ => (local_condition h).bind fun test => hblock.bind fun yes =>
    (local_nextIs _).bind fun more => ?_
  split
  · refine local_advance.bind fun _ => (local_nextIs _).bind fun again => ?_
    split
    · exact helseIf.bind fun s => local_pure _
    · exact hblock.bind fun no => local_pure _
  · exact local_pure _

theorem local_whileLoop : Local (whileLoop expression block) :=
  local_advance.bind fun _ => (local_condition h).bind fun _ => hblock.bind fun _ => local_pure _

theorem local_forLoop : Local (forLoop expression block) :=
  local_advance.bind fun _ => (local_expect _).bind fun _ => (local_declaration h).bind fun _ =>
    (local_expect _).bind fun _ => h.bind fun _ => (local_expect _).bind fun _ => h.bind fun _ =>
    (local_expect _).bind fun _ => hblock.bind fun _ => local_pure _

omit h in
theorem local_function : Local (function block) := by
  refine local_advance.bind fun _ => local_identifier.bind fun name =>
    (local_expect _).bind fun _ => (local_nextIs _).bind fun empty => ?_
  have hafter (params : List String) :
      Local (do expect .rightParen; return Stmt.function name params (← block)) :=
    (local_expect _).bind fun _ => hblock.bind fun body => local_pure _
  dsimp only
  split
  · exact (local_pure []).bind hafter
  · exact (local_separated local_identifier).bind hafter

theorem local_statementWith (helseIf : Local elseIf) :
    Local (statementWith expression block elseIf) := by
  refine local_peekKind?.bind fun kind? => ?_
  split
  · exact (local_declaration h).bind fun d => (local_skip _).bind fun _ => local_pure _
  · exact local_whileLoop h hblock
  · exact local_forLoop h hblock
  · exact local_branch h hblock helseIf
  · exact local_function hblock
  · exact local_giveBack h
  · exact local_advance.bind fun _ => (local_skip _).bind fun _ => local_pure _
  · exact local_advance.bind fun _ => (local_skip _).bind fun _ => local_pure _
  · exact h.bind fun e => (local_skip _).bind fun _ => local_pure _

end Statement

/-- One turn of the loops that read statements: it stops where a question about the next token is
answered with yes. -/
theorem local_turn {ask : Parser Bool} (hask : Local ask) {statement : Parser Stmt}
    (h : Local statement) :
    Local (do if ← ask then return none else return some (← statement)) := by
  refine hask.bind fun stop => ?_
  split
  · exact local_pure none
  · exact h.bind fun s => local_pure (some s)

theorem local_block_elseIf (room : Nat) : Local (block room) ∧ Local (elseIf room) := by
  induction room with
  | zero =>
    rw [block, elseIf]
    exact ⟨(local_expect _).bind fun _ => local_tooDeep, local_tooDeep⟩
  | succ room ih =>
    obtain ⟨hblock, helseIf⟩ := ih
    have hexpression := local_expression room
    have hstatement := local_statementWith hexpression hblock helseIf
    rw [block, elseIf]
    exact ⟨(local_expect _).bind fun _ => (local_many (local_turn (local_atClose _) hstatement)).bind
      fun body => (local_expect _).bind fun _ => local_pure body,
      local_branch hexpression hblock helseIf⟩

theorem local_statement (room : Nat) : Local (statement room) :=
  local_statementWith (local_expression room) (local_block_elseIf room).1
    (local_block_elseIf room).2

theorem local_program : Local program :=
  (local_many (local_turn (local_of_looks looks_atEnd) (local_statement nestingLimit))).bind
    fun _ => local_pure _

end Parser

end Offside
