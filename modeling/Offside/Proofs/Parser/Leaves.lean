import Offside.Parser.Statement
import Offside.Proofs.Tree.Leaves

/-!
# The leaves of a parsed script are tokens

A parser only hands on names, numbers and strings that it has read. `Parser.Reads ok p holds` says
that `p`, started on tokens that all are `ok`, gives a value that `holds` and leaves tokens that all
are `ok`. Each combinator keeps this, so each parser has it (`reads_…`), down to
`leaves_of_parse`: **whatever is true of all tokens is true of all leaves of the script**.
-/

namespace Offside

namespace Parser

variable {ok : Token.Kind → Prop} {α β : Type} {holds : α → Prop}

/-- From tokens that are `ok`, the parser gives a value that `holds` and leaves tokens that are
`ok`, if it does not fail. -/
def Reads (ok : Token.Kind → Prop) (p : Parser α) (holds : α → Prop) : Prop :=
  ∀ tokens value rest, (∀ token ∈ tokens, ok token.kind) → p tokens = .ok value rest →
    holds value ∧ ∀ token ∈ rest, ok token.kind

/-! ### Combinators -/

theorem reads_pure {value : α} (h : holds value) : Reads ok (pure value) holds := by
  intro tokens value' rest htokens hp
  cases hp
  exact ⟨h, htokens⟩

theorem Reads.bind {p : Parser α} {f : α → Parser β} {after : β → Prop} (hp : Reads ok p holds)
    (hf : ∀ value, holds value → Reads ok (f value) after) : Reads ok (p >>= f) after := by
  intro tokens value rest htokens h
  simp only [Bind.bind, EStateM.bind] at h
  split at h
  · next a between hpa =>
    obtain ⟨ha, hbetween⟩ := hp tokens a between htokens hpa
    exact hf a ha between value rest hbetween h
  · cases h

theorem reads_unexpected (expected : String) : Reads ok (unexpected expected) holds := by
  intro tokens value rest _ h
  cases tokens <;> cases h

theorem reads_tooDeep : Reads ok tooDeep holds := by
  intro tokens value rest _ h
  cases h

theorem reads_throw (fault : GrammarFault) : Reads ok (throw fault) holds := by
  intro tokens value rest _ h
  cases h

/-! ### Single tokens -/

theorem reads_peek? : Reads ok peek? fun _ => True := by
  intro tokens value rest htokens h
  cases h
  exact ⟨trivial, htokens⟩

theorem reads_peekKind? : Reads ok peekKind? fun kind? => ∀ kind ∈ kind?, ok kind := by
  intro tokens value rest htokens h
  cases h
  refine ⟨fun kind hkind => ?_, htokens⟩
  obtain ⟨token, htoken, rfl⟩ := Option.map_eq_some_iff.mp hkind
  exact htokens token (List.mem_of_mem_head? htoken)

theorem reads_peekMark? : Reads ok peekMark? fun _ => True := by
  intro tokens value rest htokens h
  unfold peekMark? at h
  split at h <;> cases h <;> exact ⟨trivial, htokens⟩

theorem reads_atEnd : Reads ok atEnd fun _ => True := by
  intro tokens value rest htokens h
  cases h
  exact ⟨trivial, htokens⟩

theorem reads_advance : Reads ok advance fun _ => True := by
  intro tokens value rest htokens h
  cases h
  exact ⟨trivial, fun token htoken => htokens token (List.mem_of_mem_tail htoken)⟩

theorem reads_nextIs (kind : Token.Kind) : Reads ok (nextIs kind) fun _ => True :=
  reads_peekKind?.bind fun _ _ => reads_pure trivial

theorem reads_accept (mark : Mark) : Reads ok (accept mark) fun _ => True := by
  refine (reads_nextIs _).bind fun found _ => ?_
  split
  · exact reads_advance.bind fun _ _ => reads_pure trivial
  · exact reads_pure trivial

theorem reads_skip (mark : Mark) : Reads ok (skip mark) fun _ => True :=
  (reads_accept mark).bind fun _ _ => reads_pure trivial

theorem reads_expect (mark : Mark) : Reads ok (expect mark) fun _ => True := by
  refine (reads_nextIs _).bind fun found _ => ?_
  split
  · exact reads_advance
  · exact reads_unexpected _

theorem reads_identifier : Reads ok identifier fun name => ok (.identifier name) := by
  refine reads_peekKind?.bind fun kind? hkind => ?_
  split
  · exact reads_advance.bind fun _ _ => reads_pure (hkind _ rfl)
  · exact reads_unexpected _

/-! ### Repetition -/

theorem reads_many {step : Parser (Option α)}
    (hstep : Reads ok step fun value? => ∀ value ∈ value?, holds value) :
    Reads ok (many step) fun values => ∀ value ∈ values, holds value := by
  intro tokens values rest htokens h
  fun_induction many step tokens generalizing values rest with
  | case1 => cases h
  | case2 tokens between hnone =>
    cases h
    exact ⟨nofun, (hstep tokens none between htokens hnone).2⟩
  | case3 tokens first between hfirst hlt others after hothers ih =>
    cases h
    obtain ⟨hvalue, hbetween⟩ := hstep tokens (some first) between htokens hfirst
    obtain ⟨hvalues, hrest⟩ := ih others after hbetween hothers
    exact ⟨List.forall_mem_cons.mpr ⟨hvalue first rfl, hvalues⟩, hrest⟩
  | case4 => cases h
  | case5 tokens first between hfirst hle =>
    cases h
    obtain ⟨hvalue, hrest⟩ := hstep tokens (some first) between htokens hfirst
    exact ⟨by simpa using hvalue first rfl, hrest⟩

theorem reads_atClose (close : Mark) : Reads ok (atClose close) fun _ => True :=
  (reads_nextIs _).bind fun _ _ => reads_atEnd.bind fun _ _ => reads_pure trivial

theorem reads_items (close : Mark) {item : Parser α} (hitem : Reads ok item holds) :
    Reads ok (items close item) fun values => ∀ value ∈ values, holds value := by
  have hsome : Reads ok (do return some (← item)) fun value? => ∀ value ∈ value?, holds value :=
    hitem.bind fun value hvalue => reads_pure fun _ h => by cases h; exact hvalue
  refine (reads_atClose close).bind fun closed _ => ?_
  split
  · exact reads_pure nofun
  · refine hitem.bind fun first hfirst => (reads_many ?_).bind fun others hothers =>
      reads_pure (List.forall_mem_cons.mpr ⟨hfirst, hothers⟩)
    refine (reads_accept .comma).bind fun comma _ => ?_
    split
    · refine (reads_atClose close).bind fun closed _ => ?_
      split
      · exact reads_pure nofun
      · exact hsome
    · exact reads_pure nofun

theorem reads_separated {item : Parser α} (hitem : Reads ok item holds) :
    Reads ok (separated item) fun values => ∀ value ∈ values, holds value := by
  refine hitem.bind fun first hfirst => (reads_many ?_).bind fun others hothers =>
    reads_pure (List.forall_mem_cons.mpr ⟨hfirst, hothers⟩)
  refine (reads_accept .comma).bind fun comma _ => ?_
  split
  · exact hitem.bind fun value hvalue => reads_pure fun _ h => by cases h; exact hvalue
  · exact reads_pure nofun

/-! ### Expressions -/

/-- All leaves of the expression are `ok`. -/
def ExprOk (ok : Token.Kind → Prop) (e : Expr) : Prop :=
  ∀ kind ∈ e.leaves, ok kind

theorem reads_chain (tier : Tier) {operand : Parser Expr}
    (hoperand : Reads ok operand (ExprOk ok)) :
    (room : Nat) → (left : Expr) → ExprOk ok left →
      Reads ok (chain tier operand room left) (ExprOk ok)
  | 0, left, hleft => by
    refine reads_peekKind?.bind fun kind? _ => ?_
    split
    · exact reads_tooDeep
    · exact reads_pure hleft
  | room + 1, left, hleft => by
    refine reads_peekKind?.bind fun kind? _ => ?_
    split
    · next op _ =>
      refine reads_advance.bind fun _ _ => hoperand.bind fun right hright => ?_
      exact reads_chain tier hoperand room (.binary op left right)
        (List.forall_mem_append.mpr ⟨hleft, hright⟩)
    · exact reads_pure hleft

theorem reads_tiers (room : Nat) {operand : Parser Expr}
    (hoperand : Reads ok operand (ExprOk ok)) :
    (tierList : List Tier) → Reads ok (tiers room operand tierList) (ExprOk ok)
  | [] => hoperand
  | tier :: tighter => by
    have htighter := reads_tiers room hoperand tighter
    exact htighter.bind fun left hleft => reads_chain tier htighter room left hleft

theorem reads_signed {operand plain : Parser Expr} (hoperand : Reads ok operand (ExprOk ok))
    (hplain : Reads ok plain (ExprOk ok)) : Reads ok (signed operand plain) (ExprOk ok) := by
  refine reads_peekMark?.bind fun mark? _ => ?_
  split
  · exact reads_advance.bind fun _ _ => hoperand.bind fun e he => reads_pure he
  · exact hplain

theorem reads_arguments {expression : Parser Expr} (h : Reads ok expression (ExprOk ok)) :
    Reads ok (arguments expression) fun es => ∀ e ∈ es, ExprOk ok e :=
  (reads_expect _).bind fun _ _ => (reads_items _ h).bind fun _ hes =>
    (reads_expect _).bind fun _ _ => reads_pure hes

theorem exprOk_nameExpr {name : String} (h : ok (.identifier name)) : ExprOk ok (nameExpr name) := by
  unfold nameExpr
  split
  · exact nofun
  · split
    · exact nofun
    · exact List.forall_mem_singleton.mpr h

theorem exprOk_call {callee : String} {es : List Expr} (hcallee : ok (calleeKind callee))
    (hes : ∀ e ∈ es, ExprOk ok e) : ExprOk ok (.call callee es) := by
  refine List.forall_mem_cons.mpr ⟨hcallee, fun kind hkind => ?_⟩
  obtain ⟨e, he, hleaf⟩ := mem_exprsLeaves.mp hkind
  exact hes e he kind hleaf

/-- The name of a callee is a token, except for `console.log`, which is one of its own. -/
theorem ok_calleeKind (hlog : ok .consoleLog) {name : String} (h : ok (.identifier name)) :
    ok (calleeKind name) := by
  unfold calleeKind
  split
  · exact hlog
  · exact h

theorem reads_primary (hlog : ok .consoleLog) {expression : Parser Expr}
    (h : Reads ok expression (ExprOk ok)) : Reads ok (primary expression) (ExprOk ok) := by
  refine reads_peekKind?.bind fun kind? hkind => ?_
  split
  · exact reads_advance.bind fun _ _ => reads_pure (List.forall_mem_singleton.mpr (hkind _ rfl))
  · exact reads_advance.bind fun _ _ => reads_pure (List.forall_mem_singleton.mpr (hkind _ rfl))
  · refine reads_advance.bind fun _ _ => (reads_nextIs _).bind fun called _ => ?_
    split
    · exact (reads_arguments h).bind fun es hes =>
        reads_pure (exprOk_call (ok_calleeKind hlog (hkind _ rfl)) hes)
    · exact reads_pure (exprOk_nameExpr (hkind _ rfl))
  · exact reads_advance.bind fun _ _ => (reads_arguments h).bind fun es hes =>
      reads_pure (exprOk_call hlog hes)
  · refine reads_advance.bind fun _ _ => (reads_items _ h).bind fun es hes =>
      (reads_expect _).bind fun _ _ => reads_pure fun kind hkind => ?_
    obtain ⟨e, he, hleaf⟩ := mem_exprsLeaves.mp hkind
    exact hes e he kind hleaf
  · exact reads_advance.bind fun _ _ => h.bind fun e he =>
      (reads_expect _).bind fun _ _ => reads_pure he
  · exact reads_unexpected _

theorem reads_suffixes {expression : Parser Expr} (h : Reads ok expression (ExprOk ok)) :
    (room : Nat) → (object : Expr) → ExprOk ok object →
      Reads ok (suffixes expression room object) (ExprOk ok)
  | 0, object, hobject => by
    refine reads_peekMark?.bind fun mark? _ => ?_
    split
    · exact reads_tooDeep
    · exact reads_tooDeep
    · exact reads_pure hobject
  | room + 1, object, hobject => by
    refine reads_peekMark?.bind fun mark? _ => ?_
    split
    · refine reads_advance.bind fun _ _ => reads_identifier.bind fun name _ =>
        (reads_nextIs _).bind fun called _ => ?_
      split
      · exact reads_unexpected _
      · exact reads_suffixes h room (.property object name) hobject
    · refine reads_advance.bind fun _ _ => h.bind fun index hindex =>
        (reads_expect _).bind fun _ _ => ?_
      exact reads_suffixes h room (.index object index)
        (List.forall_mem_append.mpr ⟨hobject, hindex⟩)
    · exact reads_pure hobject

theorem reads_suffixed (hlog : ok .consoleLog) (room : Nat) {expression : Parser Expr}
    (h : Reads ok expression (ExprOk ok)) : Reads ok (suffixed room expression) (ExprOk ok) :=
  (reads_primary hlog h).bind fun object hobject => reads_suffixes h room object hobject

theorem reads_assignment {target value : Parser Expr} (htarget : Reads ok target (ExprOk ok))
    (hvalue : Reads ok value (ExprOk ok)) : Reads ok (assignment target value) (ExprOk ok) := by
  refine htarget.bind fun left hleft => reads_peek?.bind fun token? _ => ?_
  split
  · refine reads_advance.bind fun _ _ => hvalue.bind fun right hright => ?_
    split
    · exact reads_pure (List.forall_mem_append.mpr ⟨hleft, hright⟩)
    · exact reads_throw _
  · exact reads_pure hleft

/-- By induction on the room: what is inside an expression or an operand has less of it. -/
theorem reads_expression_operand (hlog : ok .consoleLog) : (room : Nat) →
    Reads ok (expression room) (ExprOk ok) ∧ Reads ok (operand room) (ExprOk ok)
  | 0 => by
    rw [expression, operand]
    exact ⟨reads_tooDeep, reads_tooDeep⟩
  | room + 1 => by
    obtain ⟨hexpression, hoperand⟩ := reads_expression_operand hlog room
    have hsigned := reads_signed hoperand (reads_suffixed hlog room hexpression)
    rw [expression, operand]
    exact ⟨reads_assignment (reads_tiers room hsigned Tier.all) hexpression, hsigned⟩

theorem reads_expression (hlog : ok .consoleLog) (room : Nat) :
    Reads ok (expression room) (ExprOk ok) :=
  (reads_expression_operand hlog room).1

/-! ### Statements -/

/-- All leaves of the statement are `ok`. -/
def StmtOk (ok : Token.Kind → Prop) (s : Stmt) : Prop :=
  ∀ kind ∈ s.leaves, ok kind

theorem stmtsOk {body : List Stmt} (h : ∀ s ∈ body, StmtOk ok s) :
    ∀ kind ∈ stmtsLeaves body, ok kind := by
  intro kind hkind
  obtain ⟨s, hs, hleaf⟩ := mem_stmtsLeaves.mp hkind
  exact h s hs kind hleaf

section Statement

variable {expression : Parser Expr} {block : Parser (List Stmt)} {elseIf : Parser Stmt}

theorem reads_declaration (h : Reads ok expression (ExprOk ok)) :
    Reads ok (declaration expression) fun d => ∀ kind ∈ d.leaves, ok kind := by
  refine reads_peekKind?.bind fun kind? _ => ?_
  split
  · refine reads_advance.bind fun _ _ => reads_identifier.bind fun name hname =>
      (reads_accept _).bind fun assigned _ => ?_
    split
    · exact h.bind fun e he => reads_pure (List.forall_mem_cons.mpr ⟨hname, he⟩)
    · exact reads_pure (List.forall_mem_cons.mpr ⟨hname, nofun⟩)
  · exact reads_unexpected _

theorem reads_condition (h : Reads ok expression (ExprOk ok)) :
    Reads ok (condition expression) (ExprOk ok) :=
  (reads_expect _).bind fun _ _ => h.bind fun _ he =>
    (reads_expect _).bind fun _ _ => reads_pure he

variable (h : Reads ok expression (ExprOk ok))
  (hblock : Reads ok block fun body => ∀ s ∈ body, StmtOk ok s)

include h hblock

theorem reads_branch (helseIf : Reads ok elseIf (StmtOk ok)) :
    Reads ok (branch expression block elseIf) (StmtOk ok) := by
  refine reads_advance.bind fun _ _ => (reads_condition h).bind fun test htest =>
    hblock.bind fun yes hyes => (reads_nextIs _).bind fun more _ => ?_
  split
  · refine reads_advance.bind fun _ _ => (reads_nextIs _).bind fun again _ => ?_
    split
    · refine helseIf.bind fun s hs => reads_pure ?_
      exact List.forall_mem_append.mpr ⟨htest, List.forall_mem_append.mpr
        ⟨stmtsOk hyes, stmtsOk (List.forall_mem_singleton.mpr hs)⟩⟩
    · refine hblock.bind fun no hno => reads_pure ?_
      exact List.forall_mem_append.mpr
        ⟨htest, List.forall_mem_append.mpr ⟨stmtsOk hyes, stmtsOk hno⟩⟩
  · exact reads_pure (List.forall_mem_append.mpr ⟨htest, stmtsOk hyes⟩)

theorem reads_whileLoop : Reads ok (whileLoop expression block) (StmtOk ok) :=
  reads_advance.bind fun _ _ => (reads_condition h).bind fun _ htest =>
    hblock.bind fun _ hbody => reads_pure (List.forall_mem_append.mpr ⟨htest, stmtsOk hbody⟩)

theorem reads_forLoop : Reads ok (forLoop expression block) (StmtOk ok) := by
  refine reads_advance.bind fun _ _ => (reads_expect _).bind fun _ _ =>
    (reads_declaration h).bind fun init hinit => (reads_expect _).bind fun _ _ =>
    h.bind fun test htest => (reads_expect _).bind fun _ _ => h.bind fun update hupdate =>
    (reads_expect _).bind fun _ _ => hblock.bind fun body hbody => reads_pure ?_
  exact List.forall_mem_append.mpr ⟨hinit, List.forall_mem_append.mpr
    ⟨htest, List.forall_mem_append.mpr ⟨hupdate, stmtsOk hbody⟩⟩⟩

omit h in
theorem reads_function : Reads ok (function block) (StmtOk ok) := by
  refine reads_advance.bind fun _ _ => reads_identifier.bind fun name hname =>
    (reads_expect _).bind fun _ _ => (reads_nextIs _).bind fun empty _ => ?_
  have hafter : ∀ params : List String, (∀ param ∈ params, ok (.identifier param)) →
      Reads ok (do expect .rightParen; return .function name params (← block)) (StmtOk ok) := by
    intro params hparams
    refine (reads_expect _).bind fun _ _ => hblock.bind fun body hbody => reads_pure ?_
    exact List.forall_mem_cons.mpr ⟨hname, List.forall_mem_append.mpr
      ⟨List.forall_mem_map.mpr hparams, stmtsOk hbody⟩⟩
  dsimp only
  split
  · exact (reads_pure nofun).bind hafter
  · exact (reads_separated reads_identifier).bind hafter

omit hblock in
theorem reads_giveBack : Reads ok (giveBack expression) (StmtOk ok) := by
  refine reads_advance.bind fun _ _ => reads_peekKind?.bind fun kind? _ => ?_
  split
  · exact reads_pure nofun
  · exact (reads_skip _).bind fun _ _ => reads_pure nofun
  · exact reads_pure nofun
  · exact h.bind fun e he => (reads_skip _).bind fun _ _ => reads_pure he

theorem reads_statementWith (helseIf : Reads ok elseIf (StmtOk ok)) :
    Reads ok (statementWith expression block elseIf) (StmtOk ok) := by
  refine reads_peekKind?.bind fun kind? _ => ?_
  split
  · exact (reads_declaration h).bind fun d hd => (reads_skip _).bind fun _ _ => reads_pure hd
  · exact reads_whileLoop h hblock
  · exact reads_forLoop h hblock
  · exact reads_branch h hblock helseIf
  · exact reads_function hblock
  · exact reads_giveBack h
  · exact reads_advance.bind fun _ _ => (reads_skip _).bind fun _ _ => reads_pure nofun
  · exact reads_advance.bind fun _ _ => (reads_skip _).bind fun _ _ => reads_pure nofun
  · exact h.bind fun e he => (reads_skip _).bind fun _ _ => reads_pure he

end Statement

theorem reads_block_elseIf (hlog : ok .consoleLog) : (room : Nat) →
    Reads ok (block room) (fun body => ∀ s ∈ body, StmtOk ok s) ∧
      Reads ok (elseIf room) (StmtOk ok)
  | 0 => by
    rw [block, elseIf]
    exact ⟨(reads_expect _).bind fun _ _ => reads_tooDeep, reads_tooDeep⟩
  | room + 1 => by
    obtain ⟨hblock, helseIf⟩ := reads_block_elseIf hlog room
    have hexpression := reads_expression hlog room
    rw [block, elseIf]
    refine ⟨?_, reads_branch hexpression hblock helseIf⟩
    refine (reads_expect _).bind fun _ _ => (reads_many ?_).bind fun body hbody =>
      (reads_expect _).bind fun _ _ => reads_pure hbody
    refine (reads_atClose _).bind fun closed _ => ?_
    split
    · exact reads_pure nofun
    · exact (reads_statementWith hexpression hblock helseIf).bind fun s hs =>
        reads_pure fun _ h => by cases h; exact hs

theorem reads_program (hlog : ok .consoleLog) :
    Reads ok program fun program => ∀ kind ∈ program.leaves, ok kind := by
  refine (reads_many ?_).bind fun body hbody => reads_pure (stmtsOk hbody)
  refine reads_atEnd.bind fun ended _ => ?_
  split
  · exact reads_pure nofun
  · obtain ⟨hblock, helseIf⟩ := reads_block_elseIf hlog nestingLimit
    exact (reads_statementWith (reads_expression hlog nestingLimit) hblock helseIf).bind
      fun s hs => reads_pure fun _ h => by cases h; exact hs

end Parser

/-- **The leaves of a parsed script are tokens**: what is true of all tokens, and of `console.log`,
is true of all its leaves. -/
theorem leaves_of_parse (ok : Token.Kind → Prop) {tokens : List Token} {program : Program}
    (hlog : ok .consoleLog) (htokens : ∀ token ∈ tokens, ok token.kind)
    (hparse : parse tokens = .ok program) : ∀ kind ∈ program.leaves, ok kind := by
  unfold parse at hparse
  split at hparse
  · next rest hprogram =>
    cases hparse
    exact (Parser.reads_program hlog tokens _ rest htokens hprogram).1
  · cases hparse

end Offside
