import Offside.Proofs.Parser.Grammar
import Offside.Proofs.Parser.Takes

/-!
# What is read is in the grammar

`Parser.Yields p phrase` says what `p` has read when it succeeds: the tokens it has taken off, with
the one it has left in front, are a `phrase` for its value. Nothing is skipped and nothing is read
twice, since the tokens taken and the tokens left make up all there were.

Such facts follow the text of a parser. Where a parser goes on, the phrase that is still to be shown
holds of what has been read so far and what comes then (`Yields.bind`); where it looks at the next
token, the rest may use what that token is (`Yields.look`). Loops carry the phrase of what they have
read so far.

The main statement is `derivesProgram_of_parse`: **every script that is read is a phrase of the
grammar**, with the tree that is returned.
-/

namespace Offside

namespace Parser

variable {α β : Type}

/-- A relation between tokens, the token behind them and what they stand for. -/
abbrev Phrase (α : Type) := List Token.Kind → Option Token.Kind → α → Prop

/-- When the parser succeeds, what it has taken off is a phrase for its value. -/
def Yields (p : Parser α) (phrase : Phrase α) : Prop :=
  ∀ tokens value rest, p tokens = .ok value rest →
    ∃ taken, tokens = taken ++ rest ∧
      phrase (taken.map Token.kind) (rest.head?.map Token.kind) value

namespace Yields

variable {p : Parser α} {phrase : Phrase α}

/-! ### Putting parsers together -/

theorem mono {phrase' : Phrase α} (h : Yields p phrase)
    (himp : ∀ kinds next value, phrase kinds next value → phrase' kinds next value) :
    Yields p phrase' := by
  intro tokens value rest hp
  obtain ⟨taken, htokens, hphrase⟩ := h tokens value rest hp
  exact ⟨taken, htokens, himp _ _ _ hphrase⟩

theorem pure {value : α} (h : ∀ next, phrase [] next value) : Yields (Pure.pure value) phrase := by
  intro tokens value' rest hp
  cases hp
  exact ⟨[], rfl, h _⟩

/-- What has been read first stands before what is read then. -/
theorem bind {f : α → Parser β} {whole : Phrase β} (hp : Yields p phrase)
    (hf : ∀ value kinds, Yields (f value) fun kinds' next result =>
      phrase kinds (kinds'.head?.or next) value → whole (kinds ++ kinds') next result) :
    Yields (p >>= f) whole := by
  intro tokens result rest h
  simp only [Bind.bind, EStateM.bind] at h
  split at h
  · next value between hvalue =>
    obtain ⟨first, rfl, hfirst⟩ := hp tokens value between hvalue
    obtain ⟨second, rfl, hsecond⟩ := hf value (first.map Token.kind) between result rest h
    refine ⟨first ++ second, (List.append_assoc ..).symm, ?_⟩
    rw [List.map_append]
    refine hsecond ?_
    rw [← kind_head?_append rfl]
    exact hfirst
  · cases h

/-- A value that is only wrapped. -/
theorem map {g : α → β} {whole : Phrase β}
    (h : Yields p fun kinds next value => whole kinds next (g value)) :
    Yields (p >>= fun value => Pure.pure (g value)) whole := by
  refine h.bind fun value kinds => .pure fun next hwhole => ?_
  rw [List.append_nil]
  exact hwhole

theorem unexpected (expected : String) : Yields (Parser.unexpected expected) phrase := by
  intro tokens value rest h
  cases tokens <;> cases h

theorem unexpected_bind (expected : String) (f : β → Parser α) :
    Yields (Parser.unexpected expected >>= f) phrase := by
  intro tokens value rest h
  cases tokens <;> cases h

theorem tooDeep : Yields Parser.tooDeep phrase := by
  intro tokens value rest h
  cases h

theorem throw (fault : GrammarFault) : Yields (MonadExcept.throw fault) phrase := by
  intro tokens value rest h
  cases h

/-! ### Single tokens -/

/-- A question about the next token. What is read after it starts with that token, or is followed
by it if nothing is read. -/
theorem look {ask : Parser β} {answer : Option Token.Kind → β} (hask : Looks ask answer)
    {f : β → Parser α}
    (h : ∀ seen, Yields (f (answer seen)) fun kinds next value =>
      kinds.head?.or next = seen → phrase kinds next value) : Yields (ask >>= f) phrase := by
  intro tokens value rest hp
  simp only [Bind.bind, EStateM.bind, hask tokens] at hp
  obtain ⟨taken, rfl, hphrase⟩ := h _ tokens value rest hp
  exact ⟨taken, rfl, hphrase (kind_head?_append rfl rest).symm⟩

/-- The same for the token itself, of which only the kind matters to a phrase. -/
theorem peek {f : Option Token → Parser α}
    (h : ∀ seen, Yields (f seen) fun kinds next value =>
      kinds.head?.or next = seen.map Token.kind → phrase kinds next value) :
    Yields (peek? >>= f) phrase := by
  intro tokens value rest hp
  obtain ⟨taken, rfl, hphrase⟩ := h tokens.head? tokens value rest hp
  exact ⟨taken, rfl, hphrase (kind_head?_append rfl rest).symm⟩

/-- Takes off a token that has been looked at. -/
theorem advance {f : Unit → Parser α} {kind : Token.Kind}
    (h : Yields (f ()) fun kinds next value => phrase (kind :: kinds) next value) :
    Yields (Parser.advance >>= f) fun kinds next value =>
      kinds.head?.or next = some kind → phrase kinds next value := by
  intro tokens value rest hp
  cases tokens with
  | nil =>
    obtain ⟨taken, htokens, -⟩ := h [] value rest hp
    obtain ⟨rfl, rfl⟩ := List.append_eq_nil_iff.mp htokens.symm
    exact ⟨[], rfl, nofun⟩
  | cons token others =>
    obtain ⟨taken, rfl, hphrase⟩ := h others value rest hp
    refine ⟨token :: taken, rfl, fun hkind => ?_⟩
    cases hkind
    exact hphrase

theorem nextIs (kind : Token.Kind) {f : Bool → Parser α}
    (hyes : Yields (f true) fun kinds next value =>
      kinds.head?.or next = some kind → phrase kinds next value)
    (hno : Yields (f false) fun kinds next value =>
      kinds.head?.or next ≠ some kind → phrase kinds next value) :
    Yields (Parser.nextIs kind >>= f) phrase := by
  refine .look (looks_nextIs kind) fun seen => ?_
  by_cases hseen : seen = some kind
  · rw [decide_eq_true hseen]
    subst hseen
    exact hyes
  · rw [decide_eq_false hseen]
    refine hno.mono fun kinds next value hphrase hkind => hphrase ?_
    rwa [hkind]

theorem expect (mark : Mark) {f : Unit → Parser α}
    (h : Yields (f ()) fun kinds next value => phrase (.mark mark :: kinds) next value) :
    Yields (Parser.expect mark >>= f) phrase := by
  rw [Parser.expect, bind_assoc]
  exact .nextIs _ (.advance h) (.unexpected_bind _ _)

theorem accept (mark : Mark) {f : Bool → Parser α}
    (hyes : Yields (f true) fun kinds next value => phrase (.mark mark :: kinds) next value)
    (hno : Yields (f false) phrase) : Yields (Parser.accept mark >>= f) phrase := by
  rw [Parser.accept, bind_assoc]
  refine .nextIs _ ?_ ?_
  · rw [if_pos rfl, bind_assoc]
    exact .advance hyes
  · rw [if_neg Bool.false_ne_true, pure_bind]
    exact hno.mono fun _ _ _ hphrase _ => hphrase

theorem skip (mark : Mark) {f : Unit → Parser α}
    (h : ∀ ending ∈ Grammar.optional mark,
      Yields (f ()) fun kinds next value => phrase (ending ++ kinds) next value) :
    Yields (Parser.skip mark >>= f) phrase := by
  rw [Parser.skip, bind_assoc]
  exact .accept mark (h _ (.tail _ (.head _))) (h _ (.head _))

theorem identifier {f : String → Parser α}
    (h : ∀ name, Yields (f name) fun kinds next value =>
      phrase (.identifier name :: kinds) next value) :
    Yields (Parser.identifier >>= f) phrase := by
  rw [Parser.identifier, bind_assoc]
  refine .look looks_peekKind? fun seen => ?_
  dsimp only [id]
  split
  · rw [bind_assoc]
    exact .advance (h _)
  · exact .unexpected_bind _ _

/-! ### Repetition -/

/-- A list put together from the turns of a loop, each of which gives a value after some tokens or
ends the loop. -/
theorem many {step : Parser (Option α)} (turn : Phrase (Option α)) (list : Phrase (List α))
    (hstep : Yields step turn) (hnil : ∀ kinds next, turn kinds next none → list kinds next [])
    (hcons : ∀ kinds others next value values, turn kinds (others.head?.or next) (some value) →
      list others next values → list (kinds ++ others) next (value :: values))
    (hne : ∀ kinds next value, turn kinds next (some value) → kinds ≠ []) :
    Yields (Parser.many step) list := by
  intro tokens values rest h
  fun_induction Parser.many step tokens generalizing values rest with
  | case1 => cases h
  | case2 tokens between hnone =>
    cases h
    obtain ⟨taken, rfl, hturn⟩ := hstep tokens none between hnone
    exact ⟨taken, rfl, hnil _ _ hturn⟩
  | case3 tokens value between hvalue hlt others after hothers ih =>
    cases h
    obtain ⟨first, rfl, hturn⟩ := hstep tokens (some value) between hvalue
    obtain ⟨second, rfl, hlist⟩ := ih others after hothers
    refine ⟨first ++ second, (List.append_assoc ..).symm, ?_⟩
    rw [List.map_append]
    rw [kind_head?_append rfl] at hturn
    exact hcons _ _ _ value others hturn hlist
  | case4 => cases h
  | case5 tokens value between hvalue hle =>
    -- A turn that gives a value has taken a token, so the loop does not end here.
    obtain ⟨taken, rfl, hturn⟩ := hstep tokens (some value) between hvalue
    have htaken : taken ≠ [] := fun hnil => hne _ _ value hturn (hnil ▸ rfl)
    have hpos := List.length_pos_iff.mpr htaken
    rw [List.length_append] at hle
    omega

end Yields

open Grammar

/-- What one turn of a loop has read: an item, or nothing but what ends the list. -/
def Turn (stop : List Token.Kind → Option Token.Kind → Prop) (item : Phrase α) : Phrase (Option α)
  | kinds, next, none => stop kinds next
  | kinds, next, some value => item kinds next value

/-! ### Lists of expressions -/

/-- What stands behind an item of a list: nothing, or a comma and more of the list. -/
def ItemsTail (close : Mark) (kinds : List Token.Kind) (es : List Expr) : Prop :=
  (kinds = [] ∧ es = []) ∨ ∃ others, kinds = .mark .comma :: others ∧ DerivesItems close others es

theorem derivesItems_of_itemsTail {close : Mark} {kinds others : List Token.Kind} {e : Expr}
    {es : List Expr} (h : Derives .assignment kinds (others.head?.or (some (.mark close))) e)
    (htail : ItemsTail close others es) : DerivesItems close (kinds ++ others) (e :: es) := by
  rcases htail with ⟨rfl, rfl⟩ | ⟨more, rfl, hmore⟩
  · rw [List.append_nil]
    exact .last h
  · exact .cons h hmore

theorem yields_items (close : Mark) {expression : Parser Expr}
    (h : Yields expression (Derives .assignment)) :
    Yields (items close expression) fun kinds next es =>
      next = some (.mark close) → DerivesItems close kinds es := by
  refine .look (looks_atClose close) fun seen => ?_
  split
  · exact .pure fun _ _ _ => .nil
  · refine h.bind fun first kinds => ?_
    refine .map (.mono (.many
      (Turn (fun kinds _ => kinds = [] ∨ kinds = [.mark .comma]) fun kinds next e =>
        ∃ others, kinds = .mark .comma :: others ∧ Derives .assignment others next e)
      (fun kinds next es => next = some (.mark close) → ItemsTail close kinds es)
      ?_ ?_ ?_ ?_) ?_)
    · refine .accept _ ?_ (.pure fun _ => .inl rfl)
      refine .look (looks_atClose close) fun seen => ?_
      split
      · exact .pure fun _ _ => .inr rfl
      · exact .map (h.mono fun kinds next e he _ => ⟨kinds, rfl, he⟩)
    · rintro kinds next (rfl | rfl) -
      · exact .inl ⟨rfl, rfl⟩
      · exact .inr ⟨[], rfl, .nil⟩
    · rintro _ others next e es ⟨kinds, rfl, he⟩ htail rfl
      exact .inr ⟨kinds ++ others, rfl, derivesItems_of_itemsTail he (htail rfl)⟩
    · rintro _ next e ⟨kinds, rfl, -⟩
      simp
    · rintro others _ es htail hfirst - rfl
      exact derivesItems_of_itemsTail hfirst (htail rfl)

/-- The parameters of a function. -/
theorem yields_params : Yields (separated identifier) fun kinds _ params =>
    kinds = commaKinds (params.map fun param => [.identifier param]) := by
  have hidentifier : Yields identifier fun kinds _ name => kinds = [.identifier name] := by
    rw [← bind_pure identifier]
    exact .identifier fun name => .pure fun _ => rfl
  refine hidentifier.bind fun first kinds => .map (.mono (.many
    (Turn (fun kinds _ => kinds = []) fun kinds _ name =>
      kinds = [.mark .comma, .identifier name])
    (fun kinds _ names =>
      kinds = (names.map fun name => [.identifier name]).flatMap fun kinds => .mark .comma :: kinds)
    ?_ ?_ ?_ ?_) ?_)
  · refine .accept _ (.map (hidentifier.mono ?_)) (.pure fun _ => rfl)
    rintro _ _ name rfl
    rfl
  · rintro _ _ rfl
    rfl
  · rintro _ _ _ name names rfl rfl
    rfl
  · rintro _ _ name rfl
    simp
  · rintro _ _ names rfl rfl
    rfl

/-! ### Expressions -/

theorem operatorOf?_eq_some {tier : Tier} {kind : Token.Kind} {op : BinaryOp}
    (h : operatorOf? tier kind = some op) : kind = .mark op.mark ∧ op.tier = tier := by
  cases kind with
  | mark mark =>
    obtain ⟨hop, htier⟩ := Option.filter_eq_some_iff.mp h
    rw [BinaryOp.ofMark?_eq_some_iff.mp hop]
    exact ⟨rfl, of_decide_eq_true htier⟩
  | _ => cases h

/-- The loop of a tier extends the chain that it has read so far. -/
theorem yields_chain (tier : Tier) {operand : Parser Expr}
    (hoperand : Yields operand (Derives (.joinedBy tier))) :
    (room : Nat) → (left : Expr) → Yields (chain tier operand room left) fun kinds next e =>
      ∀ before, Derives (.tier tier) before (kinds.head?.or next) left →
        Derives (.tier tier) (before ++ kinds) next e
  | 0, left => by
    refine .look looks_peekKind? fun seen => ?_
    split
    · exact .tooDeep
    · exact .pure fun next _ before hleft => by rwa [List.append_nil]
  | room + 1, left => by
    refine .look looks_peekKind? fun seen => ?_
    split
    · next op hop =>
      obtain ⟨kind, hseen, hop⟩ := Option.bind_eq_some_iff.mp hop
      obtain ⟨rfl, rfl⟩ := operatorOf?_eq_some hop
      obtain rfl : seen = some (.mark op.mark) := hseen
      refine .advance (hoperand.bind fun right kinds => ?_)
      refine (yields_chain op.tier hoperand room (.binary op left right)).mono ?_
      intro kinds' next e hchain hright before hleft
      have hall := hchain (before ++ .mark op.mark :: kinds) (.binary hleft hright)
      rwa [List.append_assoc] at hall
    · exact .pure fun next _ before hleft => by rwa [List.append_nil]

/-- The class of expressions that a list of tiers is read as. -/
def classOf : List Tier → Nonterminal
  | [] => .unary
  | tier :: _ => .tier tier

theorem joinedBy_of_suffix {tier : Tier} {tighter : List Tier}
    (h : tier :: tighter <:+ Tier.all) : Nonterminal.joinedBy tier = classOf tighter := by
  simp only [Tier.all, List.suffix_cons_iff, List.cons.injEq, List.suffix_nil, reduceCtorEq,
    or_false] at h
  rcases h with ⟨rfl, rfl⟩ | ⟨rfl, rfl⟩ | ⟨rfl, rfl⟩ | ⟨rfl, rfl⟩ | ⟨rfl, rfl⟩ <;> rfl

theorem yields_tiers (room : Nat) {operand : Parser Expr}
    (hoperand : Yields operand (Derives .unary)) :
    (tierList : List Tier) → tierList <:+ Tier.all →
      Yields (tiers room operand tierList) (Derives (classOf tierList))
  | [], _ => hoperand
  | tier :: tighter, hsuffix => by
    have htighter : Yields (tiers room operand tighter) (Derives (.joinedBy tier)) := by
      rw [joinedBy_of_suffix hsuffix]
      exact yields_tiers room hoperand tighter ((List.suffix_cons tier tighter).trans hsuffix)
    refine htighter.bind fun left kinds => ?_
    exact (yields_chain tier htighter room left).mono fun _ _ _ hchain hleft =>
      hchain kinds (.single hleft)

theorem mark_of_ofMark? {mark : Mark} {op : UnaryOp} (h : UnaryOp.ofMark? mark = some op) :
    op.mark = mark := by
  cases mark <;> simp only [UnaryOp.ofMark?, Option.some.injEq, reduceCtorEq] at h <;> subst h <;>
    rfl

theorem eq_mark_of_markOf? {seen : Option Token.Kind} {mark : Mark}
    (h : seen.bind markOf? = some mark) : seen = some (.mark mark) := by
  obtain ⟨kind, rfl, hmark⟩ := Option.bind_eq_some_iff.mp h
  cases kind with
  | mark found =>
    cases hmark
    rfl
  | _ => cases hmark

theorem yields_signed {operand plain : Parser Expr} (hoperand : Yields operand (Derives .unary))
    (hplain : Yields plain (Derives .suffixed)) :
    Yields (signed operand plain) (Derives .unary) := by
  refine .look looks_peekMark? fun seen => ?_
  split
  · next op hop =>
    obtain ⟨mark, hmark, hop⟩ := Option.bind_eq_some_iff.mp hop
    obtain rfl := eq_mark_of_markOf? hmark
    obtain rfl := mark_of_ofMark? hop
    exact .advance (.map (hoperand.mono fun _ _ _ h => .unary h))
  · exact hplain.mono fun _ _ _ h _ => .unsigned h

theorem yields_arguments {expression : Parser Expr} (h : Yields expression (Derives .assignment)) :
    Yields (arguments expression) fun kinds _ es =>
      ∃ inner, kinds = inParens inner ∧ DerivesItems .rightParen inner es := by
  refine .expect _ ((yields_items _ h).bind fun es kinds => .expect _ (.pure fun next hes => ?_))
  exact ⟨kinds, rfl, hes rfl⟩

theorem derives_nameExpr (name : String) (next : Option Token.Kind) :
    Derives .primary [.identifier name] next (nameExpr name) := by
  unfold nameExpr
  split
  · next htrue => exact htrue ▸ .isTrue
  · next htrue =>
    split
    · next hfalse => exact hfalse ▸ .isFalse
    · next hfalse => exact .ident htrue hfalse

theorem yields_primary {expression : Parser Expr} (h : Yields expression (Derives .assignment)) :
    Yields (primary expression) (Derives .primary) := by
  refine .look looks_peekKind? fun seen => ?_
  dsimp only [id]
  split
  · exact .advance (.pure fun _ => .number _)
  · exact .advance (.pure fun _ => .string _)
  · next name =>
    refine .advance (.nextIs _ ?_ ?_)
    · refine .map ((yields_arguments h).mono ?_)
      rintro _ next es ⟨inner, rfl, hes⟩ -
      exact .call name hes
    · exact .pure fun next _ => derives_nameExpr name next
  · refine .advance (.map ((yields_arguments h).mono ?_))
    rintro _ next es ⟨inner, rfl, hes⟩
    exact .log hes
  · refine .advance ((yields_items _ h).bind fun es kinds => .expect _ (.pure fun next hes => ?_))
    exact .array (hes rfl)
  · exact .advance (h.bind fun e kinds => .expect _ (.pure fun next he => .group he))
  · exact .unexpected _

/-- The loop of suffixes extends the expression that it has read so far. -/
theorem yields_suffixes {expression : Parser Expr} (h : Yields expression (Derives .assignment)) :
    (room : Nat) → (object : Expr) → Yields (suffixes expression room object) fun kinds next e =>
      ∀ before, Derives .suffixed before (kinds.head?.or next) object →
        Derives .suffixed (before ++ kinds) next e
  | 0, object => by
    refine .look looks_peekMark? fun seen => ?_
    split
    · exact .tooDeep
    · exact .tooDeep
    · exact .pure fun next _ before hobject => by rwa [List.append_nil]
  | room + 1, object => by
    refine .look looks_peekMark? fun seen => ?_
    split
    · next hdot =>
      obtain rfl := eq_mark_of_markOf? hdot
      refine .advance (.identifier fun name => .nextIs _ (.unexpected _) ?_)
      refine (yields_suffixes h room (.property object name)).mono ?_
      intro kinds next e hloop hnext before hobject
      have hall := hloop (before ++ [.mark .dot, .identifier name]) (.property name hobject hnext)
      rwa [List.append_assoc] at hall
    · next hbracket =>
      obtain rfl := eq_mark_of_markOf? hbracket
      refine .advance (h.bind fun index inner => .expect _ ?_)
      refine (yields_suffixes h room (.index object index)).mono ?_
      intro kinds next e hloop hindex before hobject
      have hall := hloop (before ++ .mark .leftBracket :: (inner ++ [.mark .rightBracket]))
        (.index hobject hindex)
      simpa only [List.append_assoc, List.cons_append, List.nil_append] using hall
    · exact .pure fun next _ before hobject => by rwa [List.append_nil]

theorem yields_suffixed (room : Nat) {expression : Parser Expr}
    (h : Yields expression (Derives .assignment)) :
    Yields (suffixed room expression) (Derives .suffixed) := by
  refine (yields_primary h).bind fun object kinds => ?_
  exact (yields_suffixes h room object).mono fun _ _ _ hloop hobject =>
    hloop kinds (.plain hobject)

theorem yields_assignment {target value : Parser Expr}
    (htarget : Yields target (Derives (.tier .disjunction)))
    (hvalue : Yields value (Derives .assignment)) :
    Yields (assignment target value) (Derives .assignment) := by
  refine htarget.bind fun left kinds => .peek fun seen => ?_
  split
  · refine .advance (hvalue.bind fun right kinds' => ?_)
    split
    · next hassignable =>
      refine .pure fun next hright hleft => ?_
      rw [List.append_nil]
      exact .assign hleft hright hassignable
    · exact .throw _
  · refine .pure fun next _ hleft => ?_
    rw [List.append_nil]
    exact .value hleft

/-- By induction on the room: what is inside an expression or an operand has less of it. -/
theorem yields_expression_operand : (room : Nat) →
    Yields (expression room) (Derives .assignment) ∧ Yields (operand room) (Derives .unary)
  | 0 => by
    rw [expression, operand]
    exact ⟨.tooDeep, .tooDeep⟩
  | room + 1 => by
    obtain ⟨hexpression, hoperand⟩ := yields_expression_operand room
    have hsigned := yields_signed hoperand (yields_suffixed room hexpression)
    rw [expression, operand]
    exact ⟨yields_assignment (yields_tiers room hsigned Tier.all (List.suffix_refl _)) hexpression,
      hsigned⟩

theorem yields_expression (room : Nat) : Yields (expression room) (Derives .assignment) :=
  (yields_expression_operand room).1

/-! ### Statements -/

/-- The tokens are a block with the given statements. -/
def IsBlock (kinds : List Token.Kind) (body : List Stmt) : Prop :=
  ∃ inner, kinds = inBraces inner ∧ DerivesStmts inner (some (.mark .rightBrace)) body

/-- A phrase that starts with the given keyword, if that is what has been seen. -/
def From (keyword : Keyword) (phrase : Phrase Stmt) : Phrase Stmt := fun kinds next s =>
  kinds.head?.or next = some (.keyword keyword) → phrase kinds next s

/-- The tokens are an `if`. -/
def IsBranch : Phrase Stmt := fun kinds next s =>
  DerivesStmt kinds next s ∧ s.isBranch

section Statement

variable {expression : Parser Expr} {block : Parser (List Stmt)} {elseIf : Parser Stmt}

/-- A simple statement whose tokens have been read, and its semicolon. -/
theorem yields_ending (s : Stmt) (before : List Token.Kind) :
    Yields (do skip .semicolon; return s) fun kinds next s' =>
      DerivesSimple before (kinds.head?.or next) s → DerivesStmt (before ++ kinds) next s' := by
  refine .skip _ fun ending hending => .pure fun next hs => ?_
  rw [List.append_nil] at hs ⊢
  exact .simple hs hending

variable (h : Yields expression (Derives .assignment))

include h

theorem yields_declaration : Yields (declaration expression) DerivesDeclaration := by
  refine .look looks_peekKind? fun seen => ?_
  dsimp only [id]
  split
  · next kind =>
    refine .advance (.identifier fun name => .accept _ ?_ ?_)
    · exact .map (h.mono fun _ _ _ he => .withValue kind name he)
    · exact .pure fun _ => .bare kind name
  · exact .unexpected _

theorem yields_condition : Yields (condition expression) fun kinds _ e =>
    ∃ test, kinds = inParens test ∧ Derives .assignment test (some (.mark .rightParen)) e :=
  .expect _ (h.bind fun _ test => .expect _ (.pure fun _ he => ⟨test, rfl, he⟩))

theorem yields_giveBack : Yields (giveBack expression) (From .returnJump DerivesStmt) := by
  refine .advance (.look looks_peekKind? fun seen => ?_)
  dsimp only [id]
  split
  · refine .pure fun next hseen => derivesStmt_of_derivesSimple (.giveBackNothing ?_)
    exact congrArg endsReturn hseen
  · refine (yields_ending (.giveBack none) [.keyword .returnJump]).mono ?_
    intro kinds next s hs hseen
    exact hs (.giveBackNothing (congrArg endsReturn hseen))
  · refine .pure fun next hseen => derivesStmt_of_derivesSimple (.giveBackNothing ?_)
    exact congrArg endsReturn hseen
  · next kind hsemicolon hbrace =>
    refine h.bind fun value kinds => ?_
    refine (yields_ending (.giveBack (some value)) (.keyword .returnJump :: kinds)).mono ?_
    intro kinds' next s hs hvalue hseen
    have hfirst : kinds.head?.or (kinds'.head?.or next) = some kind := by
      rw [← hseen, List.head?_append, Option.or_assoc]
    refine hs (.giveBack hvalue ?_)
    rw [hfirst]
    simpa [endsReturn] using ⟨hsemicolon, hbrace⟩

variable (hblock : Yields block fun kinds _ body => IsBlock kinds body)

include hblock

theorem yields_whileLoop : Yields (whileLoop expression block) (From .whileLoop DerivesStmt) := by
  refine .advance ((yields_condition h).bind fun test kinds => .map (hblock.mono ?_))
  rintro _ next body ⟨inner, rfl, hbody⟩ ⟨test, rfl, htest⟩
  exact .whileLoop htest hbody

theorem yields_forLoop : Yields (forLoop expression block) (From .forLoop DerivesStmt) := by
  refine .advance (.expect _ ((yields_declaration h).bind fun init first => .expect _ ?_))
  refine h.bind fun condition test => .expect _ (h.bind fun update last => .expect _ ?_)
  refine .map (hblock.mono ?_)
  rintro _ next body ⟨inner, rfl, hbody⟩ hupdate htest hinit
  have hloop : DerivesStmt _ next _ := .forLoop hinit htest hupdate hbody
  simpa only [inParens, List.cons_append, List.append_assoc, List.nil_append] using hloop

theorem yields_branch (helseIf : Yields elseIf (From .ifBranch IsBranch)) :
    Yields (branch expression block elseIf) (From .ifBranch IsBranch) := by
  refine .advance ((yields_condition h).bind fun condition kinds => ?_)
  refine hblock.bind fun yes kinds' => .nextIs _ (.advance (.nextIs _ ?_ ?_)) ?_
  · refine .map (helseIf.mono ?_)
    rintro others next s hs hif ⟨inner, rfl, hyes⟩ ⟨test, rfl, htest⟩
    exact ⟨.elseIf htest hyes (hs hif).1 (hs hif).2, rfl⟩
  · refine .map (hblock.mono ?_)
    rintro _ next no ⟨other, rfl, hno⟩ - ⟨inner, rfl, hyes⟩ ⟨test, rfl, htest⟩
    exact ⟨.ifElse htest hyes hno, rfl⟩
  · refine .pure ?_
    rintro next - ⟨inner, rfl, hyes⟩ ⟨test, rfl, htest⟩
    rw [List.append_nil]
    exact ⟨.ifThen htest hyes, rfl⟩

omit h in
theorem yields_function : Yields (function block) (From .function DerivesStmt) := by
  refine .advance (.identifier fun name => .expect _ ?_)
  have hafter : ∀ params : List String,
      Yields (do expect .rightParen; return .function name params (← block)) fun kinds next s =>
        DerivesStmt (.keyword .function :: .identifier name :: .mark .leftParen ::
          (commaKinds (params.map fun param => [.identifier param]) ++ kinds)) next s := by
    intro params
    refine .expect _ (.map (hblock.mono ?_))
    rintro _ next body ⟨inner, rfl, hbody⟩
    have hstmt : DerivesStmt _ next _ := .function name params hbody
    simpa only [inParens, List.cons_append, List.append_assoc, List.nil_append] using hstmt
  refine .nextIs _ ?_ ?_
  · exact (hafter []).mono fun _ _ _ hstmt _ => hstmt
  · refine yields_params.bind fun params kinds => (hafter params).mono ?_
    rintro kinds' next s hstmt rfl -
    exact hstmt

theorem yields_statementWith (helseIf : Yields elseIf (From .ifBranch IsBranch)) :
    Yields (statementWith expression block elseIf) DerivesStmt := by
  refine .look looks_peekKind? fun seen => ?_
  dsimp only [id]
  split
  · refine (yields_declaration h).bind fun d kinds => ?_
    exact (yields_ending (.declare d) kinds).mono fun _ _ _ hs hd _ => hs (.declare hd)
  · exact yields_whileLoop h hblock
  · exact yields_forLoop h hblock
  · exact (yields_branch h hblock helseIf).mono fun _ _ _ hs hseen => (hs hseen).1
  · exact yields_function hblock
  · exact yields_giveBack h
  · exact .advance ((yields_ending .breakLoop [.keyword .breakJump]).mono
      fun _ _ _ hs => hs .breakLoop)
  · exact .advance ((yields_ending .continueLoop [.keyword .continueJump]).mono
      fun _ _ _ hs => hs .continueLoop)
  · refine h.bind fun e kinds => ?_
    exact (yields_ending (.expr e) kinds).mono fun _ _ _ hs he _ => hs (.expr he)

end Statement

/-- Statements up to where a question about the next token is answered with yes. -/
theorem yields_statements {ask : Parser Bool} {stops : Option Token.Kind → Bool}
    (hask : Looks ask stops) {statement : Parser Stmt} (h : Yields statement DerivesStmt) :
    Yields (many do if ← ask then return none else return some (← statement))
      fun kinds next body => stops next ∧ DerivesStmts kinds next body := by
  refine .many (Turn (fun kinds next => kinds = [] ∧ stops next) DerivesStmt) _ ?_ ?_ ?_ ?_
  · refine .look hask fun seen => ?_
    split
    · next hstops =>
      refine .pure fun next hseen => ⟨rfl, ?_⟩
      obtain rfl : next = seen := hseen
      exact hstops
    · exact .map (h.mono fun _ _ _ hs _ => hs)
  · rintro kinds next ⟨rfl, hstops⟩
    exact ⟨hstops, .nil⟩
  · rintro kinds others next s body hs ⟨hstops, hbody⟩
    exact ⟨hstops, .cons hs hbody⟩
  · exact fun _ _ _ => ne_nil_of_derivesStmt

theorem yields_block_elseIf : (room : Nat) →
    Yields (block room) (fun kinds _ body => IsBlock kinds body) ∧
      Yields (elseIf room) (From .ifBranch IsBranch)
  | 0 => by
    rw [block, elseIf]
    exact ⟨.expect _ .tooDeep, .tooDeep⟩
  | room + 1 => by
    obtain ⟨hblock, helseIf⟩ := yields_block_elseIf room
    have hexpression := yields_expression room
    rw [block, elseIf]
    refine ⟨.expect _ ?_, yields_branch hexpression hblock helseIf⟩
    refine (yields_statements (looks_atClose _)
      (yields_statementWith hexpression hblock helseIf)).bind fun body inner => ?_
    exact .expect _ (.pure fun next hbody => ⟨inner, rfl, hbody.2⟩)

theorem yields_program :
    Yields program fun kinds next script => next = none ∧ DerivesProgram kinds script := by
  obtain ⟨hblock, helseIf⟩ := yields_block_elseIf nestingLimit
  have hstatement := yields_statementWith (yields_expression nestingLimit) hblock helseIf
  refine .map ((yields_statements looks_atEnd hstatement).mono ?_)
  rintro kinds next body ⟨hend, hbody⟩
  obtain rfl := Option.isNone_iff_eq_none.mp hend
  exact ⟨rfl, hbody⟩

/-- A program that has been read leaves no tokens. -/
theorem eq_nil_of_program {tokens rest : List Token} {script : Program}
    (h : program tokens = .ok script rest) : rest = [] := by
  obtain ⟨taken, -, hend, -⟩ := yields_program tokens script rest h
  simpa using hend

end Parser

/-- **Every script that is read is in the grammar**: all tokens, in their order, are a phrase for
the tree that is returned. So no name in the tree is `true` or `false`, and only names and elements
are assigned to. -/
theorem derivesProgram_of_parse {tokens : List Token} {program : Program}
    (hparse : parse tokens = .ok program) :
    Grammar.DerivesProgram (tokens.map Token.kind) program ∧ program.isPrintable := by
  unfold parse at hparse
  split at hparse
  · next rest hprogram =>
    cases hparse
    obtain ⟨taken, rfl, hend, hderives⟩ := Parser.yields_program tokens _ rest hprogram
    obtain rfl : rest = [] := by simpa using hend
    rw [List.append_nil]
    exact ⟨hderives, Grammar.stmtsPrintable_of_derivesStmts hderives⟩
  · cases hparse

/-- A `return` before a brace, a property after a sign, an `else if`, and commas after the last
item: `if (!a.b) { return } else if (f(a, [1,],)) { }`. -/
theorem derivesProgram_of_parse_of_commas :
    let kinds : List Token.Kind :=
      .keyword .ifBranch :: (inParens [.mark .bang, .identifier "a", .mark .dot, .identifier "b"] ++
        (inBraces [.keyword .returnJump] ++ .keyword .elseBranch :: .keyword .ifBranch ::
          (inParens (.identifier "f" :: inParens [.identifier "a", .mark .comma,
            .mark .leftBracket, .number 1, .mark .comma, .mark .rightBracket, .mark .comma]) ++
            inBraces [])))
    let program : Program := ⟨[.ifElse (.unary .not (.property (.ident "a") "b")) [.giveBack none]
      [.ifThen (.call "f" [.ident "a", .array [.number 1]]) []]]⟩
    parse (kinds.map fun kind => ⟨kind, .nowhere⟩) = .ok program ∧
      Grammar.DerivesProgram kinds program := by
  intro kinds program
  have hparse : parse (kinds.map fun kind => ⟨kind, .nowhere⟩) = .ok program := by
    with_unfolding_all rfl
  refine ⟨hparse, ?_⟩
  have hderives := (derivesProgram_of_parse hparse).1
  rwa [List.map_map, show Token.kind ∘ (fun kind => ⟨kind, .nowhere⟩) = id from rfl,
    List.map_id] at hderives

end Offside
