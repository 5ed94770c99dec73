import Offside.Proofs.Parser.Locality
import Offside.Proofs.Parser.Soundness

/-!
# After a semicolon

Statements need no semicolons, so where one ends is decided by the token behind it. **Behind a
semicolon nothing has to be decided**: a script that ends with one is read in the same way in front
of any other tokens, and these are then read as if they stood alone (`parse_append`).

* What stands before the semicolon of a statement does not end with one itself, and neither does a
  statement with a block (`Parser.Unended`). So the last semicolon is that of a whole statement.
* `Parser.Detached` says of a parser that it stops looking when it has read such a semicolon.
* `Parser.many_append` carries this over to a sequence of statements: all but the last one have a
  next token already, and look no further (`Parser.Local`).
-/

namespace Offside

namespace Parser

open Grammar

variable {α β : Type} {p : Parser α} {f : α → Parser β}

/-! ### Parsers that do not end with a semicolon -/

/-- What the parser takes off does not end with a semicolon. -/
def Unended (p : Parser α) : Prop := Yields p fun kinds _ _ => EndsOpen kinds

theorem Local.yields (hp : Local p) : Yields p fun _ _ _ => True := by
  intro tokens value rest h
  obtain ⟨taken, htokens, -⟩ := hp.of_ok h
  exact ⟨taken, htokens, trivial⟩

namespace Unended

/-- The last part of a phrase ends it. -/
theorem after (hp : Local p) (hf : ∀ value, Unended (f value)) : Unended (p >>= f) :=
  hp.yields.bind fun value kinds => (hf value).mono fun _ _ _ hends _ => hends.append kinds

theorem map (hp : Unended p) (g : α → β) : Unended (p >>= fun value => pure (g value)) :=
  Yields.map hp

theorem getLast?_ne (hp : Unended p) {tokens : List Token} {value : α}
    (h : p tokens = .ok value []) :
    tokens.getLast?.map Token.kind ≠ some (.mark .semicolon) := by
  obtain ⟨taken, rfl, hends⟩ := hp tokens value [] h
  rw [List.append_nil, ← List.getLast?_map]
  exact hends.getLast?_ne

end Unended

section Statement

variable {expression : Parser Expr} {block : Parser (List Stmt)} {elseIf : Parser Stmt}
  (h : Local expression) (hblock : Unended block)

include hblock

omit h in
theorem unended_function : Unended (function block) := by
  refine .after local_advance fun _ => .after local_identifier fun name =>
    .after (local_expect _) fun _ => .after (local_nextIs _) fun empty => ?_
  have hafter (params : List String) :
      Unended (do expect .rightParen; return Stmt.function name params (← block)) :=
    .after (local_expect _) fun _ => hblock.map _
  dsimp only
  split
  · exact .after (local_pure []) hafter
  · exact .after (local_separated local_identifier) hafter

include h

theorem unended_whileLoop : Unended (whileLoop expression block) :=
  .after local_advance fun _ => .after (local_condition h) fun _ => hblock.map _

theorem unended_forLoop : Unended (forLoop expression block) :=
  .after local_advance fun _ => .after (local_expect _) fun _ =>
    .after (local_declaration h) fun _ => .after (local_expect _) fun _ =>
    .after h fun _ => .after (local_expect _) fun _ =>
    .after h fun _ => .after (local_expect _) fun _ => hblock.map _

theorem unended_branch (helseIf : Unended elseIf) : Unended (branch expression block elseIf) := by
  refine .after local_advance fun _ => .after (local_condition h) fun test => ?_
  refine Yields.bind hblock fun yes kinds => .nextIs _ (.advance (.nextIs _ ?_ ?_)) ?_
  · exact .map (helseIf.mono fun _ _ _ hends _ _ => (hends.cons _).append _)
  · exact .map (hblock.mono fun _ _ _ hends _ _ => (hends.cons _).append _)
  · refine .pure fun next _ hends => ?_
    rwa [List.append_nil]

end Statement

theorem unended_block (room : Nat) : Unended (block room) := by
  refine (yields_block_elseIf room).1.mono ?_
  rintro _ _ body ⟨inner, rfl, -⟩
  exact .inBraces inner

theorem unended_elseIf (room : Nat) : Unended (elseIf room) := by
  induction room with
  | zero => exact .tooDeep
  | succ room ih =>
    rw [elseIf]
    exact unended_branch (local_expression room) (unended_block room) ih

/-! ### Parsers that stop looking at a semicolon -/

/-- On tokens that start in a certain way and end with a semicolon, the parser does not look behind
them if it takes them all. -/
def Detached (starts : Option Token.Kind → Prop) (p : Parser α) : Prop :=
  ∀ tokens value, starts (tokens.head?.map Token.kind) → p tokens = .ok value [] →
    tokens.getLast?.map Token.kind = some (.mark .semicolon) →
      ∀ more, p (tokens ++ more) = .ok value more

variable {starts : Option Token.Kind → Prop}

theorem detached_of_unended (hp : Unended p) : Detached starts p := by
  intro tokens value _ hrun hlast more
  exact absurd hlast (hp.getLast?_ne hrun)

theorem detached_pure (value : α) : Detached starts (pure value : Parser α) := by
  intro tokens value' _ hrun hlast more
  cases hrun
  cases hlast

theorem Detached.map (hp : Detached starts p) (g : α → β) :
    Detached starts (p >>= fun value => pure (g value)) := by
  intro tokens result hstarts hrun hlast more
  simp only [Bind.bind, EStateM.bind] at hrun ⊢
  split at hrun
  · next value rest hvalue =>
    cases hrun
    rw [hp tokens value hstarts hvalue hlast more]
    rfl
  · cases hrun

theorem Detached.look {ask : Parser β} {answer : Option Token.Kind → β} {f : β → Parser α}
    (hask : Looks ask answer) (hf : ∀ next, Detached (· = next) (f (answer next))) :
    Detached starts (ask >>= f) := by
  intro tokens value _ hrun hlast more
  cases tokens with
  | nil => cases hlast
  | cons token tokens =>
    simp only [Bind.bind, EStateM.bind, hask (token :: tokens)] at hrun
    simp only [Bind.bind, EStateM.bind, hask (token :: tokens ++ more)]
    exact hf _ (token :: tokens) value rfl hrun hlast more

theorem Detached.advance {f : Unit → Parser α} {kind : Token.Kind} (hkind : kind ≠ .mark .semicolon)
    (hf : Detached (fun _ => True) (f ())) : Detached (· = some kind) (advance >>= f) := by
  intro tokens value hstarts hrun hlast more
  cases tokens with
  | nil => cases hstarts
  | cons token tokens =>
    cases tokens with
    | nil =>
      rw [List.getLast?_singleton] at hlast
      exact absurd (Option.some.inj (hstarts.symm.trans hlast)) hkind
    | cons second tokens =>
      rw [List.getLast?_cons_cons] at hlast
      exact hf (second :: tokens) value trivial hrun hlast more

theorem skip_of_eq {mark : Mark} {token : Token} (h : token.kind = .mark mark) (rest : List Token) :
    skip mark (token :: rest) = .ok () rest := by
  have hnext : nextIs (.mark mark) (token :: rest) = .ok true (token :: rest) := by
    simp [looks_nextIs _ (token :: rest), h]
  simp only [skip, accept, Bind.bind, EStateM.bind, hnext]
  rfl

theorem skip_of_ne {mark : Mark} {token : Token} (h : token.kind ≠ .mark mark) (rest : List Token) :
    skip mark (token :: rest) = .ok () (token :: rest) := by
  have hnext : nextIs (.mark mark) (token :: rest) = .ok false (token :: rest) := by
    simp [looks_nextIs _ (token :: rest), h]
  simp only [skip, accept, Bind.bind, EStateM.bind, hnext]
  rfl

/-- The semicolon of a statement. If it is there, what stands before it has been read with the
semicolon as the next token; if not, the tokens end with something else. -/
theorem detached_ending (hp : Local p) (hends : Unended p) (g : α → β) :
    Detached starts (do let value ← p; skip .semicolon; return g value) := by
  intro tokens result _ hrun hlast more
  obtain ⟨outcome, taken, rest, rfl, hlocal⟩ := hp tokens
  simp only [Bind.bind, EStateM.bind, hlocal rest rfl] at hrun
  cases outcome with
  | error fault => cases hrun
  | ok value =>
    cases rest with
    | nil => exact absurd hlast (hends.getLast?_ne (hlocal [] rfl))
    | cons token rest =>
      by_cases hkind : token.kind = .mark .semicolon
      · simp only [ending, skip_of_eq hkind] at hrun
        cases hrun
        rw [List.append_assoc, List.cons_append, List.nil_append]
        simp only [Bind.bind, EStateM.bind, hlocal (token :: more) rfl, ending, skip_of_eq hkind]
        rfl
      · simp only [ending, skip_of_ne hkind] at hrun
        cases hrun

/-- The same for a statement that consists of its keyword. -/
theorem detached_semicolon (value : α) :
    Detached starts (do skip .semicolon; return value : Parser α) := by
  intro tokens result _ hrun hlast more
  cases tokens with
  | nil => cases hlast
  | cons token tokens =>
    by_cases hkind : token.kind = .mark .semicolon
    · simp only [Bind.bind, EStateM.bind, skip_of_eq hkind] at hrun
      cases hrun
      simp only [Bind.bind, EStateM.bind, List.cons_append, List.nil_append, skip_of_eq hkind]
      rfl
    · simp only [Bind.bind, EStateM.bind, skip_of_ne hkind] at hrun
      cases hrun

section Statement

variable {expression : Parser Expr} {block : Parser (List Stmt)} {elseIf : Parser Stmt}
  (h : Local expression) (hends : Yields expression (Derives .assignment))

include h hends

theorem detached_giveBack :
    Detached (· = some (.keyword .returnJump)) (giveBack expression) := by
  have hopen : Unended expression := hends.mono fun _ _ _ => endsOpen_of_derives
  refine .advance (by simp) (.look looks_peekKind? fun next => ?_)
  dsimp only [id]
  -- A `return` before the end or before a brace takes nothing off any more, so it cannot have come
  -- to the end with a semicolon.
  split
  · exact detached_pure _
  · exact detached_semicolon _
  · exact detached_pure _
  · exact detached_ending h hopen _

theorem detached_statementWith (hblock : Unended block) (helseIf : Unended elseIf) :
    Detached starts (statementWith expression block elseIf) := by
  have hopen : Unended expression := hends.mono fun _ _ _ => endsOpen_of_derives
  refine .look looks_peekKind? fun next => ?_
  dsimp only [id]
  split
  · refine detached_ending (local_declaration h) ?_ _
    exact (yields_declaration hends).mono fun _ _ _ => endsOpen_of_derivesDeclaration
  · exact detached_of_unended (unended_whileLoop h hblock)
  · exact detached_of_unended (unended_forLoop h hblock)
  · exact detached_of_unended (unended_branch h hblock helseIf)
  · exact detached_of_unended (unended_function hblock)
  · exact detached_giveBack h hends
  · exact .advance (by simp) (detached_semicolon _)
  · exact .advance (by simp) (detached_semicolon _)
  · exact detached_ending h hopen _

end Statement

/-- A statement in a sequence of statements up to the end of the tokens. -/
def nextStatement? : Parser (Option Stmt) := do
  if ← atEnd then return none else return some (← statement nestingLimit)

theorem local_nextStatement? : Local nextStatement? :=
  local_turn (local_of_looks looks_atEnd) (local_statement nestingLimit)

theorem detached_nextStatement? : Detached starts nextStatement? := by
  refine .look looks_atEnd fun next => ?_
  split
  · exact detached_pure none
  · exact (detached_statementWith (local_expression _) (yields_expression _) (unended_block _)
      (unended_elseIf _)).map some

theorem eq_nil_of_nextStatement? {tokens rest : List Token}
    (h : nextStatement? tokens = .ok none rest) : tokens = [] := by
  cases tokens with
  | nil => rfl
  | cons token tokens =>
    change (statement nestingLimit >>= fun s => pure (some s)) (token :: tokens) = _ at h
    simp only [Bind.bind, EStateM.bind] at h
    split at h <;> cases h

/-! ### Sequences of statements -/

/-- By induction on the turns of the loop. The last turn ends with the semicolon and is detached;
the others have a next token, which stays the same. -/
theorem many_append {step : Parser (Option α)} (hlocal : Local step)
    (hdetached : Detached (fun _ => True) step) (hnil : step [] = .ok none [])
    (hnone : ∀ tokens rest, step tokens = .ok none rest → tokens = [])
    {tokens more rest : List Token} {values : List α} (hrun : many step tokens = .ok values [])
    (hlast : tokens.getLast?.map Token.kind = some (.mark .semicolon))
    {outcome : Except GrammarFault (List α)} (hmore : many step more = ending outcome rest) :
    many step (tokens ++ more) = ending (outcome.map (values ++ ·)) rest := by
  fun_induction many step tokens generalizing values with
  | case1 => cases hrun
  | case2 tokens between hstop =>
    obtain rfl := hnone tokens between hstop
    cases hlast
  | case3 tokens value between hvalue hlt others after hothers ih =>
    cases hrun
    cases between with
    | nil =>
      have hstep := hdetached tokens (some value) trivial hvalue hlast more
      have hshorter : more.length < (tokens ++ more).length := by
        rw [List.length_append]
        exact Nat.lt_add_of_pos_left hlt
      rw [many, hnil] at hothers
      cases hothers
      rw [many, hstep]
      simp only [if_pos hshorter, hmore]
      cases outcome <;> rfl
    | cons token between =>
      obtain ⟨taken, rfl, hvalue'⟩ := hlocal.of_ok hvalue
      have hstep := hvalue' (token :: between ++ more) rfl
      have hshorter : (token :: between ++ more).length <
          (taken ++ (token :: between ++ more)).length := by
        simp only [List.length_append] at hlt ⊢
        omega
      have hlast' : (token :: between).getLast?.map Token.kind = some (.mark .semicolon) := by
        rw [List.getLast?_append] at hlast
        exact hlast
      rw [List.append_assoc, many, hstep]
      simp only [if_pos hshorter, ih hothers hlast']
      cases outcome <;> rfl
  | case4 => cases hrun
  | case5 tokens value between hvalue hle =>
    -- The last turn would have taken nothing off and left nothing.
    cases hrun
    obtain rfl : tokens = [] := List.length_eq_zero_iff.mp (by simpa using hle)
    cases hlast

theorem program_of_many {tokens rest : List Token} {outcome : Except GrammarFault (List Stmt)}
    (h : many nextStatement? tokens = ending outcome rest) :
    program tokens = ending (outcome.map Program.mk) rest := by
  change (many nextStatement? >>= fun body => pure (Program.mk body)) tokens = _
  simp only [Bind.bind, EStateM.bind, h]
  cases outcome <;> rfl

theorem program_append {tokens more rest : List Token} {script : Program}
    (hprogram : program tokens = ending (.ok script) [])
    (hlast : tokens.getLast?.map Token.kind = some (.mark .semicolon))
    {outcome : Except GrammarFault Program} (hmore : program more = ending outcome rest) :
    program (tokens ++ more) =
      ending (outcome.map fun other => ⟨script.body ++ other.body⟩) rest := by
  obtain ⟨body, rest', hbody⟩ := exists_ending (many nextStatement? tokens)
  obtain ⟨others, rest'', hothers⟩ := exists_ending (many nextStatement? more)
  obtain ⟨hscript, rfl⟩ := ending_inj ((program_of_many hbody).symm.trans hprogram)
  obtain ⟨rfl, rfl⟩ := ending_inj ((program_of_many hothers).symm.trans hmore)
  cases body with
  | error fault => cases hscript
  | ok body =>
    cases hscript
    rw [program_of_many (many_append local_nextStatement? detached_nextStatement? rfl
      (fun _ _ => eq_nil_of_nextStatement?) hbody hlast hothers)]
    cases others <;> rfl

end Parser

/-- **After a semicolon a script goes on as if it began there.** If the tokens are a script and the
last of them is a semicolon, then the tokens behind them are read as they are on their own, to the
same statements or to the same fault. -/
theorem parse_append {tokens : List Token} {script : Program} (hparse : parse tokens = .ok script)
    (hlast : tokens.getLast?.map Token.kind = some (.mark .semicolon)) (more : List Token) :
    parse (tokens ++ more) = (parse more).map fun other => ⟨script.body ++ other.body⟩ := by
  obtain ⟨outcome, rest, hprogram⟩ := Parser.exists_ending (Parser.program tokens)
  obtain rfl : outcome = .ok script := (Parser.parse_of_program hprogram).symm.trans hparse
  obtain rfl := Parser.eq_nil_of_program hprogram
  obtain ⟨outcome, rest, hmore⟩ := Parser.exists_ending (Parser.program more)
  rw [Parser.parse_of_program hmore]
  exact Parser.parse_of_program (Parser.program_append hprogram hlast hmore)

/-- The scripts `f;` and `(x)` one after the other are two statements, where `f` and `(x)` are a
call. -/
theorem parse_append_of_parens :
    let name : Token := ⟨.identifier "f", .nowhere⟩
    let semicolon : Token := ⟨.mark .semicolon, .nowhere⟩
    let group := (inParens [.identifier "x"]).map fun kind => Token.mk kind .nowhere
    parse [name, semicolon] = .ok ⟨[.expr (.ident "f")]⟩ ∧
      parse ([name, semicolon] ++ group) = .ok ⟨[.expr (.ident "f"), .expr (.ident "x")]⟩ ∧
      parse ([name] ++ group) = .ok ⟨[.expr (.call "f" [.ident "x"])]⟩ := by
  intro name semicolon group
  have hparse : parse [name, semicolon] = .ok ⟨[.expr (.ident "f")]⟩ := by with_unfolding_all rfl
  have hgroup : parse group = .ok ⟨[.expr (.ident "x")]⟩ := by with_unfolding_all rfl
  refine ⟨hparse, ?_, by with_unfolding_all rfl⟩
  rw [parse_append hparse rfl group, hgroup]
  rfl

end Offside
