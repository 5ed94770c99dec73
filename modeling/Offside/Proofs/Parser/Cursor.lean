import Offside.Parser.Cursor
import Offside.Proofs.Parser.Locality

/-!
# Cursors read what parsers read

A walk at a cursor ends as the parser for the same phrase does on the tokens that are left there:
with the same outcome, at the same token, and **at the depth at which it has started, whether it has
succeeded or failed**. This is `Walk.Agrees`. The levels that the depth of the cursor leaves are the
room of the parser.

* Walks agree when their parts do (`Agrees.bind`, `Agrees.many`), and `Walk.nested` takes one level
  from the room (`Agrees.nested`).
* A chain counts its operators up and compares with the depth, where the parser counts its room
  down. `agrees_loop` follows both counts.
* A name is looked past before it is read, but what is seen there is the next token once it has been
  read (`Walk.peekSecondKind?_advance`).

The result is `Walk.agrees_program`.
-/

namespace Offside

/-! ### Cursors -/

namespace Cursor

/-- The tokens that have not been read yet. -/
def left (cursor : Cursor) : List Token :=
  cursor.tokens.toList.drop cursor.position

/-- The cursor, so many tokens further on. -/
def move (cursor : Cursor) (n : Nat) : Cursor :=
  { cursor with position := cursor.position + n }

variable (cursor : Cursor) (n : Nat)

theorem length_left : cursor.left.length = cursor.remaining := by
  rw [left, List.length_drop, Array.length_toList, remaining]

theorem left_move : (cursor.move n).left = cursor.left.drop n := by
  rw [left, left, List.drop_drop, move]

theorem move_move (m : Nat) : (cursor.move n).move m = cursor.move (n + m) := by
  rw [move, move, move, Nat.add_assoc]

theorem current?_eq_head? : cursor.current? = cursor.left.head? := by
  rw [current?, left, List.head?_drop, Array.getElem?_toList]

theorem remaining_move_lt (hn : 0 < n) (hle : n ≤ cursor.left.length) :
    (cursor.move n).remaining < cursor.remaining := by
  rw [length_left, remaining] at hle
  simp only [remaining, move]
  omega

end Cursor

/-! ### Turns

The loops of `Parser.chain` and `Parser.suffixes` count down the operators for which there is room,
and what comes after a turn is part of it. Here a turn stands alone. -/

namespace Parser

variable {α : Type} {length : Nat}

/-- Fails if the chain may not be longer. -/
def spend : Nat → Parser Unit
  | 0 => tooDeep
  | _ + 1 => pure ()

/-- A turn of `chain`. -/
def operation (tier : Tier) (operand : Parser Expr) (length : Nat) (left : Expr) :
    Parser (Option Expr) := do
  match (← peekKind?).bind (operatorOf? tier) with
  | some op =>
    spend length
    advance
    return some (.binary op left (← operand))
  | none => return none

/-- A turn of `suffixes`. -/
def suffix (expression : Parser Expr) (length : Nat) (object : Expr) : Parser (Option Expr) := do
  match ← peekMark? with
  | some .dot =>
    spend length
    advance
    let name ← identifier
    if ← nextIs (.mark .leftParen) then
      unexpected "end of property access"
    else
      return some (.property object name)
  | some .leftBracket =>
    spend length
    advance
    let index ← expression
    expect .rightBracket
    return some (.index object index)
  | _ => return none

theorem chain_eq_operation (tier : Tier) (operand : Parser Expr) (left : Expr) :
    chain tier operand length left = operation tier operand length left >>=
      fun next? => next?.elim (pure left) (chain tier operand (length - 1)) := by
  rw [operation, bind_assoc]
  cases length with
  | zero =>
    refine congrArg (peekKind? >>= ·) (funext fun kind? => ?_)
    cases kind?.bind (operatorOf? tier) <;> rfl
  | succ length =>
    refine congrArg (peekKind? >>= ·) (funext fun kind? => ?_)
    cases kind?.bind (operatorOf? tier) with
    | none => rfl
    | some op =>
      simp only [spend, bind_assoc, pure_bind]
      rfl

theorem suffixes_eq_suffix (expression : Parser Expr) (object : Expr) :
    suffixes expression length object = suffix expression length object >>=
      fun next? => next?.elim (pure object) (suffixes expression (length - 1)) := by
  rw [suffix, bind_assoc]
  cases length with
  | zero =>
    refine congrArg (peekMark? >>= ·) (funext fun mark? => ?_)
    rcases mark? with _ | mark
    · rfl
    · cases mark <;> rfl
  | succ length =>
    refine congrArg (peekMark? >>= ·) (funext fun mark? => ?_)
    rcases mark? with _ | mark
    · rfl
    cases mark with
    | dot =>
      simp only [spend, bind_assoc, pure_bind]
      refine congrArg (advance >>= ·) (funext fun _ => ?_)
      refine congrArg (identifier >>= ·) (funext fun name => ?_)
      refine congrArg (nextIs _ >>= ·) (funext fun called => ?_)
      split
      · funext tokens
        cases tokens <;> rfl
      · rfl
    | leftBracket =>
      simp only [spend, bind_assoc, pure_bind]
      rfl
    | _ => rfl

/-- A turn that goes on needs room and takes a token off. -/
theorem Local.of_spend_advance {body : Parser α} (hbody : Local body) {token : Token}
    {tokens rest : List Token} {value : α}
    (h : (spend length >>= fun _ => advance >>= fun _ => body) (token :: tokens) = .ok value rest) :
    rest.length < (token :: tokens).length ∧ 0 < length := by
  cases length with
  | zero => cases h
  | succ length => exact ⟨Nat.lt_succ_of_le (hbody.length_le h), Nat.succ_pos length⟩

theorem length_lt_of_operation {tier : Tier} {operand : Parser Expr} (hoperand : Local operand)
    {left next : Expr} {tokens rest : List Token}
    (h : operation tier operand length left tokens = .ok (some next) rest) :
    rest.length < tokens.length ∧ 0 < length := by
  cases tokens with
  | nil => cases h
  | cons token tokens =>
    simp only [operation, peekKind?, Bind.bind, EStateM.bind, List.head?_cons, Option.map_some,
      Option.bind_some] at h
    cases hop : operatorOf? tier token.kind with
    | none =>
      rw [hop] at h
      cases h
    | some op =>
      rw [hop] at h
      exact (hoperand.bind fun _ => local_pure _).of_spend_advance h

theorem length_lt_of_suffix {expression : Parser Expr} (hexpression : Local expression)
    {object next : Expr} {tokens rest : List Token}
    (h : suffix expression length object tokens = .ok (some next) rest) :
    rest.length < tokens.length ∧ 0 < length := by
  cases tokens with
  | nil => cases h
  | cons token tokens =>
    simp only [suffix, Bind.bind, EStateM.bind, looks_peekMark? (token :: tokens)] at h
    generalize Option.bind _ markOf? = mark? at h
    split at h
    · refine Local.of_spend_advance
        (local_identifier.bind fun _ => (local_nextIs _).bind fun called => ?_) h
      split
      · exact local_unexpected _
      · exact local_pure _
    · exact Local.of_spend_advance
        (hexpression.bind fun _ => (local_expect _).bind fun _ => local_pure _) h
    · cases h

end Parser

/-- Two runs that have started here end with the same outcome, and the cursor has moved over the
tokens that have been taken off. -/
def Cursor.Meets {α : Type} (cursor : Cursor) (walked : EStateM.Result GrammarFault Cursor α)
    (parsed : EStateM.Result GrammarFault (List Token) α) : Prop :=
  ∃ outcome, ∃ n ≤ cursor.left.length,
    walked = Parser.ending outcome (cursor.move n) ∧
      parsed = Parser.ending outcome (cursor.left.drop n)

/-- What two runs have done before does not matter. -/
theorem Cursor.Meets.of_move {α : Type} {cursor : Cursor} {n : Nat}
    {walked : EStateM.Result GrammarFault Cursor α}
    {parsed : EStateM.Result GrammarFault (List Token) α} (hn : n ≤ cursor.left.length)
    (h : (cursor.move n).Meets walked parsed) : cursor.Meets walked parsed := by
  obtain ⟨outcome, m, hm, hwalked, hparsed⟩ := h
  rw [left_move] at hm hparsed
  rw [List.length_drop] at hm
  rw [List.drop_drop] at hparsed
  rw [move_move] at hwalked
  exact ⟨outcome, n + m, by omega, hwalked, hparsed⟩

namespace Walk

variable {α β : Type}

/-- At every cursor with so many levels left, the walk ends as the parser does on the tokens that
are left there. In particular it ends at the depth at which it has started. -/
def Agrees (room : Nat) (walk : Walk α) (p : Parser α) : Prop :=
  ∀ cursor : Cursor, cursor.depth + room = nestingLimit →
    cursor.Meets (walk cursor) (p cursor.left)

variable {room : Nat}

/-! ### Putting walks together -/

theorem Agrees.bind {walk : Walk α} {p : Parser α} {f : α → Walk β} {g : α → Parser β}
    (h : Agrees room walk p) (hf : ∀ value, Agrees room (f value) (g value)) :
    Agrees room (walk >>= f) (p >>= g) := by
  intro cursor hroom
  obtain ⟨outcome, n, hn, hwalk, hp⟩ := h cursor hroom
  simp only [Bind.bind, EStateM.bind, hwalk, hp]
  cases outcome with
  | error fault => exact ⟨.error fault, n, hn, rfl, rfl⟩
  | ok value =>
    have hrest := hf value (cursor.move n) hroom
    rw [Cursor.left_move] at hrest
    exact hrest.of_move hn

/-- A walk that stays where it is and goes by the next token only. -/
theorem agrees_of_head {walk : Walk α} {p : Parser α}
    (outcome : Option Token → Except GrammarFault α)
    (hwalk : ∀ cursor, walk cursor = Parser.ending (outcome cursor.current?) cursor)
    (hp : ∀ tokens, p tokens = Parser.ending (outcome tokens.head?) tokens) :
    Agrees room walk p := by
  intro cursor _
  refine ⟨outcome cursor.current?, 0, Nat.zero_le _, hwalk cursor, ?_⟩
  rw [hp, Cursor.current?_eq_head?]
  rfl

theorem agrees_pure (value : α) : Agrees room (pure value) (pure value) :=
  agrees_of_head (fun _ => .ok value) (fun _ => rfl) fun _ => rfl

theorem agrees_throw (fault : GrammarFault) :
    Agrees room (throw fault : Walk α) (throw fault) :=
  agrees_of_head (fun _ => .error fault) (fun _ => rfl) fun _ => rfl

/-! ### Single tokens -/

theorem agrees_peek? : Agrees room peek? Parser.peek? :=
  agrees_of_head .ok (fun _ => rfl) fun _ => rfl

theorem agrees_peekKind? : Agrees room peekKind? Parser.peekKind? :=
  agrees_of_head (fun token? => .ok (token?.map Token.kind)) (fun _ => rfl) fun _ => rfl

theorem agrees_peekMark? : Agrees room peekMark? Parser.peekMark? := by
  refine agrees_of_head (fun token? => .ok ((token?.map Token.kind).bind Parser.markOf?))
    (fun cursor => ?_) Parser.looks_peekMark?
  rw [peekMark?]
  generalize cursor.current? = token?
  rcases token? with _ | ⟨kind, span⟩
  · rfl
  · cases kind <;> rfl

theorem agrees_atEnd : Agrees room atEnd Parser.atEnd := by
  refine agrees_of_head (fun token? => .ok token?.isNone) (fun cursor => ?_) fun tokens => ?_
  · simp only [atEnd, Cursor.current?, Parser.ending]
    congr
    rw [Bool.eq_iff_iff]
    simp
  · cases tokens <;> rfl

theorem agrees_nextIs (kind : Token.Kind) : Agrees room (nextIs kind) (Parser.nextIs kind) :=
  agrees_peekKind?.bind fun _ => agrees_pure _

theorem agrees_unexpected (expected : String) :
    Agrees room (unexpected expected : Walk α) (Parser.unexpected expected) := by
  refine agrees_of_head (fun token? => .error (token?.elim (.unexpectedEnd expected) fun token =>
    .unexpectedToken expected token.kind.describe token.span)) (fun cursor => ?_) fun tokens => ?_
  · simp only [unexpected, peek?, Bind.bind, EStateM.bind]
    cases cursor.current? <;> rfl
  · cases tokens <;> rfl

theorem agrees_tooDeep : Agrees room (tooDeep : Walk α) Parser.tooDeep :=
  agrees_of_head (fun token? =>
    .error (.nestingTooDeep nestingLimit ((token?.map Token.span).getD .nowhere)))
    (fun _ => rfl) fun _ => rfl

theorem agrees_advance : Agrees room advance Parser.advance := by
  intro cursor _
  by_cases hend : cursor.position < cursor.tokens.size
  · refine ⟨.ok (), 1, ?_, ?_, ?_⟩
    · rw [Cursor.length_left, Cursor.remaining]
      omega
    · rw [advance, if_pos hend, Parser.ending, Cursor.move]
    · rw [Parser.advance, List.drop_one, Parser.ending]
  · -- At the end neither of the two moves.
    have hleft : cursor.left = [] := by
      rw [← List.length_eq_zero_iff, Cursor.length_left, Cursor.remaining]
      omega
    refine ⟨.ok (), 0, Nat.zero_le _, ?_, ?_⟩
    · rw [advance, if_neg hend]
      rfl
    · rw [hleft]
      rfl

theorem agrees_accept (mark : Mark) : Agrees room (accept mark) (Parser.accept mark) := by
  refine (agrees_nextIs _).bind fun found => ?_
  split
  · exact agrees_advance.bind fun _ => agrees_pure true
  · exact agrees_pure false

theorem agrees_skip (mark : Mark) : Agrees room (skip mark) (Parser.skip mark) :=
  (agrees_accept mark).bind fun _ => agrees_pure ()

theorem agrees_expect (mark : Mark) : Agrees room (expect mark) (Parser.expect mark) := by
  refine (agrees_nextIs _).bind fun found => ?_
  split
  · exact agrees_advance
  · exact agrees_unexpected _

theorem agrees_identifier : Agrees room identifier Parser.identifier := by
  refine agrees_peekKind?.bind fun kind? => ?_
  rcases kind? with _ | kind
  · exact agrees_unexpected _
  cases kind with
  | identifier name => exact agrees_advance.bind fun _ => agrees_pure name
  | _ => exact agrees_unexpected _

/-! ### Levels -/

/-- A level that is opened is left again, so that there is one level less to be had inside. -/
theorem Agrees.nested {walk : Walk α} {p : Parser α} (h : Agrees room walk p) :
    Agrees (room + 1) (nested walk) p := by
  intro cursor hroom
  have hdepth : ¬ nestingLimit ≤ cursor.depth := by omega
  obtain ⟨outcome, n, hn, hwalk, hp⟩ :=
    h { cursor with depth := cursor.depth + 1 } (by simp only; omega)
  refine ⟨outcome, n, hn, ?_, hp⟩
  rw [Walk.nested, if_neg hdepth, hwalk]
  cases outcome <;> rfl

theorem agrees_nested_zero (walk : Walk α) : Agrees 0 (nested walk) Parser.tooDeep := by
  intro cursor hroom
  have hdepth : nestingLimit ≤ cursor.depth := by omega
  rw [Walk.nested, if_pos hdepth]
  exact agrees_tooDeep cursor hroom

/-- The operator with this number fits if the chain may still be so long. -/
theorem agrees_checkChain {turn length : Nat} (h : turn + length = room + 1) :
    Agrees room (checkChain turn) (Parser.spend length) := by
  intro cursor hroom
  cases length with
  | zero =>
    rw [checkChain, if_pos (by omega)]
    exact agrees_tooDeep cursor hroom
  | succ length =>
    rw [checkChain, if_neg (by omega)]
    exact agrees_pure () cursor hroom

/-! ### Repetition -/

theorem Agrees.many {step : Walk (Option α)} {p : Parser (Option α)} (h : Agrees room step p) :
    Agrees room (many step) (Parser.many p) := by
  intro cursor hroom
  induction hremaining : cursor.remaining using Nat.strongRecOn generalizing cursor with
  | ind remaining ih =>
    obtain ⟨outcome, n, hn, hwalk, hp⟩ := h cursor hroom
    rw [Walk.many, Parser.many, hp, hwalk]
    rcases outcome with fault | _ | first
    · exact ⟨.error fault, n, hn, rfl, rfl⟩
    · exact ⟨.ok [], n, hn, rfl, rfl⟩
    rcases Nat.eq_zero_or_pos n with rfl | hpos
    · -- A turn that takes nothing off is the last one on both sides.
      exact ⟨.ok [first], 0, hn, if_neg (Nat.lt_irrefl _), if_neg (Nat.lt_irrefl _)⟩
    · have hshorter := cursor.remaining_move_lt n hpos hn
      have hdrop : (cursor.left.drop n).length < cursor.left.length := by
        rw [List.length_drop]
        omega
      have hrest := ih _ (hremaining ▸ hshorter) (cursor.move n) hroom rfl
      rw [Cursor.left_move] at hrest
      obtain ⟨outcome, m, hm, hwalk', hp'⟩ := hrest.of_move hn
      refine ⟨outcome.map (first :: ·), m, hm, ?_, ?_⟩
      · simp only [Parser.ending, if_pos hshorter, hwalk']
        cases outcome <;> rfl
      · simp only [Parser.ending, if_pos hdrop, hp']
        cases outcome <;> rfl

/-- A loop whose first turn agrees and which agrees from the second turn on. A turn that goes on has
to take a token off. -/
theorem Agrees.grow {step : Nat → α → Walk (Option α)} {turn : Nat} {value : α}
    {p : Parser (Option α)} {after : α → Parser α} (h : Agrees room (step turn value) p)
    (hp : ∀ tokens next rest, p tokens = .ok (some next) rest →
      rest.length < tokens.length ∧ Agrees room (grow step (turn + 1) next) (after next)) :
    Agrees room (grow step turn value) (p >>= fun next? => next?.elim (pure value) after) := by
  intro cursor hroom
  obtain ⟨outcome, n, hn, hwalk, hrun⟩ := h cursor hroom
  rw [Walk.grow, hwalk]
  simp only [Bind.bind, EStateM.bind, hrun]
  rcases outcome with fault | _ | next
  · exact ⟨.error fault, n, hn, rfl, rfl⟩
  · exact ⟨.ok value, n, hn, rfl, rfl⟩
  · obtain ⟨hshorter, hafter⟩ := hp _ _ _ hrun
    rw [← Cursor.left_move, Cursor.length_left, Cursor.length_left] at hshorter
    have hrest := hafter (cursor.move n) hroom
    rw [Cursor.left_move] at hrest
    simp only [Parser.ending, dif_pos hshorter]
    exact hrest.of_move hn

theorem agrees_atClose (close : Mark) : Agrees room (atClose close) (Parser.atClose close) :=
  (agrees_nextIs _).bind fun _ => agrees_atEnd.bind fun _ => agrees_pure _

theorem agrees_items (close : Mark) {item : Walk α} {p : Parser α} (h : Agrees room item p) :
    Agrees room (items close item) (Parser.items close p) := by
  refine (agrees_atClose close).bind fun closed => ?_
  split
  · exact agrees_pure []
  · refine h.bind fun first => Agrees.bind (Agrees.many ?_) fun others => agrees_pure _
    refine (agrees_accept .comma).bind fun comma => ?_
    split
    · refine (agrees_atClose close).bind fun closed => ?_
      split
      · exact agrees_pure none
      · exact h.bind fun value => agrees_pure (some value)
    · exact agrees_pure none

theorem agrees_separated {item : Walk α} {p : Parser α} (h : Agrees room item p) :
    Agrees room (separated item) (Parser.separated p) := by
  refine h.bind fun first => Agrees.bind (Agrees.many ?_) fun others => agrees_pure _
  refine (agrees_accept .comma).bind fun comma => ?_
  split
  · exact h.bind fun value => agrees_pure (some value)
  · exact agrees_pure none

/-! ### Expressions -/

theorem agrees_operation (tier : Tier) {operand : Walk Expr} {p : Parser Expr}
    (h : Agrees room operand p) {turn length : Nat} (hturn : turn + length = room + 1)
    (left : Expr) :
    Agrees room (chainTurn tier operand turn left) (Parser.operation tier p length left) := by
  refine agrees_peekKind?.bind fun kind? => ?_
  cases kind?.bind (Parser.operatorOf? tier) with
  | none => exact agrees_pure none
  | some op =>
    exact (agrees_checkChain hturn).bind fun _ => agrees_advance.bind fun _ =>
      h.bind fun right => agrees_pure _

theorem agrees_suffix {expression : Walk Expr} {p : Parser Expr} (h : Agrees room expression p)
    {turn length : Nat} (hturn : turn + length = room + 1) (object : Expr) :
    Agrees room (suffixTurn expression turn object) (Parser.suffix p length object) := by
  refine agrees_peekMark?.bind fun mark? => ?_
  rcases mark? with _ | mark
  · exact agrees_pure none
  cases mark with
  | dot =>
    refine (agrees_checkChain hturn).bind fun _ => agrees_advance.bind fun _ =>
      agrees_identifier.bind fun name => (agrees_nextIs _).bind fun called => ?_
    cases called with
    | true => exact agrees_unexpected _
    | false => exact agrees_pure _
  | leftBracket =>
    exact (agrees_checkChain hturn).bind fun _ => agrees_advance.bind fun _ =>
      h.bind fun index => (agrees_expect _).bind fun _ => agrees_pure _
  | _ => exact agrees_pure none

/-- By induction on the number of turns for which there is room. -/
theorem agrees_loop {step : Nat → α → Walk (Option α)} {p : Nat → α → Parser (Option α)}
    {loop : Nat → α → Parser α}
    (hstep : ∀ turn length value, turn + length = room + 1 →
      Agrees room (step turn value) (p length value))
    (hp : ∀ length value tokens next rest, p length value tokens = .ok (some next) rest →
      rest.length < tokens.length ∧ 0 < length)
    (hloop : ∀ length value, loop length value =
      p length value >>= fun next? => next?.elim (pure value) (loop (length - 1)))
    (length turn : Nat) (value : α) (hturn : turn + length = room + 1) :
    Agrees room (grow step turn value) (loop length value) := by
  induction length generalizing turn value with
  | zero =>
    rw [hloop]
    refine Agrees.grow (hstep _ _ _ hturn) fun tokens next rest hnext => ?_
    exact absurd (hp _ _ _ _ _ hnext).2 (Nat.lt_irrefl 0)
  | succ length ih =>
    rw [hloop]
    refine Agrees.grow (hstep _ _ _ hturn) fun tokens next rest hnext => ?_
    exact ⟨(hp _ _ _ _ _ hnext).1, ih (turn + 1) next (by omega)⟩

theorem agrees_chain (tier : Tier) {operand : Walk Expr} {p : Parser Expr}
    (h : Agrees room operand p) (hp : Parser.Local p) (left : Expr) :
    Agrees room (chain tier operand left) (Parser.chain tier p room left) :=
  agrees_loop (fun _ _ left hturn => agrees_operation tier h hturn left)
    (fun _ _ _ _ _ hnext => Parser.length_lt_of_operation hp hnext)
    (fun _ left => Parser.chain_eq_operation tier p left) room 1 left (Nat.add_comm 1 room)

theorem agrees_tiers {operand : Walk Expr} {p : Parser Expr} (h : Agrees room operand p)
    (hp : Parser.Local p) (tierList : List Tier) :
    Agrees room (tiers operand tierList) (Parser.tiers room p tierList) := by
  induction tierList with
  | nil => exact h
  | cons tier tighter ih =>
    exact ih.bind fun left => agrees_chain tier ih (Parser.local_tiers room hp tighter) left

theorem agrees_signed {operand plain : Walk Expr} {p q : Parser Expr}
    (hoperand : Agrees room operand p) (hplain : Agrees room plain q) :
    Agrees room (signed operand plain) (Parser.signed p q) := by
  refine agrees_peekMark?.bind fun mark? => ?_
  cases mark?.bind UnaryOp.ofMark? with
  | none => exact hplain
  | some op => exact agrees_advance.bind fun _ => hoperand.bind fun e => agrees_pure _

/-- Whether a name is called can be seen before or after it has been read. -/
theorem peekSecondKind?_advance (f : Option Token.Kind → Walk α) :
    (do let kind? ← peekSecondKind?; advance; f kind?) =
      (do advance; let kind? ← peekKind?; f kind?) := by
  funext cursor
  simp only [Bind.bind, EStateM.bind, peekSecondKind?, peekKind?, advance, Cursor.current?]
  by_cases hend : cursor.position < cursor.tokens.size
  · simp only [if_pos hend]
  · have hnext : cursor.tokens[cursor.position]? = none := Array.getElem?_eq_none (by omega)
    have hsecond : cursor.tokens[cursor.position + 1]? = none := Array.getElem?_eq_none (by omega)
    simp only [if_neg hend, hnext, hsecond]

theorem nameOrCall_eq (expression : Walk Expr) (name : String) :
    nameOrCall expression name = do
      advance
      if ← nextIs (.mark .leftParen) then
        return .call name (← arguments expression)
      else
        return Parser.nameExpr name := by
  simp only [nextIs, bind_assoc, pure_bind, decide_eq_true_eq]
  rw [← peekSecondKind?_advance]
  refine congrArg (peekSecondKind? >>= ·) (funext fun kind? => ?_)
  split <;> rfl

section Expression

variable {expression : Walk Expr} {p : Parser Expr} (h : Agrees room expression p)

include h

theorem agrees_arguments : Agrees room (arguments expression) (Parser.arguments p) :=
  (agrees_expect _).bind fun _ => (agrees_items _ h).bind fun es =>
    (agrees_expect _).bind fun _ => agrees_pure es

theorem agrees_nameOrCall (name : String) :
    Agrees room (nameOrCall expression name) (do
      Parser.advance
      if ← Parser.nextIs (.mark .leftParen) then
        return .call name (← Parser.arguments p)
      else
        return Parser.nameExpr name) := by
  rw [nameOrCall_eq]
  refine agrees_advance.bind fun _ => (agrees_nextIs _).bind fun called => ?_
  split
  · exact (agrees_arguments h).bind fun es => agrees_pure _
  · exact agrees_pure _

theorem agrees_primary : Agrees room (primary expression) (Parser.primary p) := by
  refine agrees_peekKind?.bind fun kind? => ?_
  rcases kind? with _ | kind
  · exact agrees_unexpected _
  cases kind with
  | number value => exact agrees_advance.bind fun _ => agrees_pure _
  | string raw => exact agrees_advance.bind fun _ => agrees_pure _
  | identifier name => exact agrees_nameOrCall h name
  | consoleLog =>
    exact agrees_advance.bind fun _ => (agrees_arguments h).bind fun es => agrees_pure _
  | keyword keyword => exact agrees_unexpected _
  | mark mark =>
    cases mark with
    | leftBracket =>
      exact agrees_advance.bind fun _ => (agrees_items _ h).bind fun es =>
        (agrees_expect _).bind fun _ => agrees_pure _
    | leftParen =>
      exact agrees_advance.bind fun _ => h.bind fun e =>
        (agrees_expect _).bind fun _ => agrees_pure e
    | _ => exact agrees_unexpected _

theorem agrees_suffixes (hp : Parser.Local p) (object : Expr) :
    Agrees room (suffixes expression object) (Parser.suffixes p room object) :=
  agrees_loop (fun _ _ object hturn => agrees_suffix h hturn object)
    (fun _ _ _ _ _ hnext => Parser.length_lt_of_suffix hp hnext)
    (fun _ object => Parser.suffixes_eq_suffix p object) room 1 object (Nat.add_comm 1 room)

theorem agrees_suffixed (hp : Parser.Local p) :
    Agrees room (suffixed expression) (Parser.suffixed room p) :=
  (agrees_primary h).bind fun object => agrees_suffixes h hp object

theorem agrees_assignment {target : Walk Expr} {q : Parser Expr} (htarget : Agrees room target q) :
    Agrees room (assignment target expression) (Parser.assignment q p) := by
  refine htarget.bind fun left => agrees_peek?.bind fun token? => ?_
  rcases token? with _ | ⟨kind, span⟩
  · exact agrees_pure left
  cases kind with
  | mark mark =>
    cases mark with
    | assign =>
      refine agrees_advance.bind fun _ => h.bind fun right => ?_
      split
      · exact agrees_pure _
      · exact agrees_throw _
    | _ => exact agrees_pure left
  | _ => exact agrees_pure left

end Expression

/-- By induction on the levels, of which there are always more than there is room. -/
theorem agrees_expression_operand (levels room : Nat) (hlevels : room ≤ levels) :
    Agrees room (expression levels) (Parser.expression room) ∧
      Agrees room (operand levels) (Parser.operand room) := by
  induction levels generalizing room with
  | zero =>
    obtain rfl : room = 0 := by omega
    rw [expression, operand, Parser.expression, Parser.operand]
    exact ⟨agrees_tooDeep, agrees_tooDeep⟩
  | succ levels ih =>
    rw [expression, operand]
    cases room with
    | zero =>
      rw [Parser.expression, Parser.operand]
      exact ⟨agrees_nested_zero _, agrees_nested_zero _⟩
    | succ room =>
      obtain ⟨hexpression, hoperand⟩ := ih room (by omega)
      obtain ⟨hlocal, hlocal'⟩ := Parser.local_expression_operand room
      have hsigned := agrees_signed hoperand (agrees_suffixed hexpression hlocal)
      have hlocal'' := Parser.local_signed hlocal' (Parser.local_suffixed hlocal room)
      rw [Parser.expression, Parser.operand]
      exact ⟨(agrees_assignment hexpression (agrees_tiers hsigned hlocal'' Tier.all)).nested,
        hsigned.nested⟩

theorem agrees_expression {levels : Nat} (hlevels : room ≤ levels) :
    Agrees room (expression levels) (Parser.expression room) :=
  (agrees_expression_operand levels room hlevels).1

/-! ### Statements -/

section Statement

variable {expression : Walk Expr} {block : Walk (List Stmt)} {elseIf : Walk Stmt}
  {p : Parser Expr} {q : Parser (List Stmt)} {r : Parser Stmt} (h : Agrees room expression p)

include h

theorem agrees_declaration : Agrees room (declaration expression) (Parser.declaration p) := by
  refine agrees_peekKind?.bind fun kind? => ?_
  rcases kind? with _ | kind
  · exact agrees_unexpected _
  cases kind with
  | keyword keyword =>
    cases keyword with
    | decl kind =>
      refine agrees_advance.bind fun _ => agrees_identifier.bind fun name =>
        (agrees_accept _).bind fun assigned => ?_
      split
      · exact h.bind fun e => agrees_pure _
      · exact agrees_pure _
    | _ => exact agrees_unexpected _
  | _ => exact agrees_unexpected _

theorem agrees_condition : Agrees room (condition expression) (Parser.condition p) :=
  (agrees_expect _).bind fun _ => h.bind fun e => (agrees_expect _).bind fun _ => agrees_pure e

theorem agrees_giveBack : Agrees room (giveBack expression) (Parser.giveBack p) := by
  refine agrees_advance.bind fun _ => agrees_peekKind?.bind fun kind? => ?_
  have hvalue : Agrees room
      (do let value ← expression; skip .semicolon; return Stmt.giveBack (some value))
      (do let value ← p; Parser.skip .semicolon; return Stmt.giveBack (some value)) :=
    h.bind fun e => (agrees_skip _).bind fun _ => agrees_pure _
  rcases kind? with _ | kind
  · exact agrees_pure _
  cases kind with
  | mark mark =>
    cases mark with
    | semicolon => exact (agrees_skip _).bind fun _ => agrees_pure _
    | rightBrace => exact agrees_pure _
    | _ => exact hvalue
  | _ => exact hvalue

variable (hblock : Agrees room block q)

include hblock

theorem agrees_branch (helseIf : Agrees room elseIf r) :
    Agrees room (branch expression block elseIf) (Parser.branch p q r) := by
  refine agrees_advance.bind fun _ => (agrees_condition h).bind fun test => hblock.bind fun yes =>
    (agrees_nextIs _).bind fun more => ?_
  split
  · refine agrees_advance.bind fun _ => (agrees_nextIs _).bind fun again => ?_
    split
    · exact helseIf.bind fun s => agrees_pure _
    · exact hblock.bind fun no => agrees_pure _
  · exact agrees_pure _

theorem agrees_whileLoop : Agrees room (whileLoop expression block) (Parser.whileLoop p q) :=
  agrees_advance.bind fun _ => (agrees_condition h).bind fun _ => hblock.bind fun _ => agrees_pure _

theorem agrees_forLoop : Agrees room (forLoop expression block) (Parser.forLoop p q) :=
  agrees_advance.bind fun _ => (agrees_expect _).bind fun _ => (agrees_declaration h).bind fun _ =>
    (agrees_expect _).bind fun _ => h.bind fun _ => (agrees_expect _).bind fun _ =>
    h.bind fun _ => (agrees_expect _).bind fun _ => hblock.bind fun _ => agrees_pure _

omit h in
theorem agrees_function : Agrees room (function block) (Parser.function q) := by
  refine agrees_advance.bind fun _ => agrees_identifier.bind fun name =>
    (agrees_expect _).bind fun _ => (agrees_nextIs _).bind fun empty => ?_
  have hafter (params : List String) :
      Agrees room (do expect .rightParen; return Stmt.function name params (← block))
        (do Parser.expect .rightParen; return Stmt.function name params (← q)) :=
    (agrees_expect _).bind fun _ => hblock.bind fun body => agrees_pure _
  dsimp only
  split
  · exact (agrees_pure []).bind hafter
  · exact (agrees_separated agrees_identifier).bind hafter

theorem agrees_statementWith (helseIf : Agrees room elseIf r) :
    Agrees room (statementWith expression block elseIf) (Parser.statementWith p q r) := by
  refine agrees_peekKind?.bind fun kind? => ?_
  have hexpr : Agrees room (do let value ← expression; skip .semicolon; return Stmt.expr value)
      (do let value ← p; Parser.skip .semicolon; return Stmt.expr value) :=
    h.bind fun e => (agrees_skip _).bind fun _ => agrees_pure _
  rcases kind? with _ | kind
  · exact hexpr
  cases kind with
  | keyword keyword =>
    cases keyword with
    | decl kind =>
      exact (agrees_declaration h).bind fun d => (agrees_skip _).bind fun _ => agrees_pure _
    | whileLoop => exact agrees_whileLoop h hblock
    | forLoop => exact agrees_forLoop h hblock
    | ifBranch => exact agrees_branch h hblock helseIf
    | function => exact agrees_function hblock
    | returnJump => exact agrees_giveBack h
    | breakJump => exact agrees_advance.bind fun _ => (agrees_skip _).bind fun _ => agrees_pure _
    | continueJump =>
      exact agrees_advance.bind fun _ => (agrees_skip _).bind fun _ => agrees_pure _
    | elseBranch => exact hexpr
  | _ => exact hexpr

end Statement

theorem agrees_turn {ask : Walk Bool} {p : Parser Bool} (hask : Agrees room ask p)
    {statement : Walk Stmt} {q : Parser Stmt} (h : Agrees room statement q) :
    Agrees room (do if ← ask then return none else return some (← statement))
      (do if ← p then return none else return some (← q)) := by
  refine hask.bind fun stop => ?_
  split
  · exact agrees_pure none
  · exact h.bind fun s => agrees_pure (some s)

theorem agrees_block_elseIf (levels room : Nat) (hlevels : room ≤ levels) :
    Agrees room (block levels) (Parser.block room) ∧
      Agrees room (elseIf levels) (Parser.elseIf room) := by
  induction levels generalizing room with
  | zero =>
    obtain rfl : room = 0 := by omega
    rw [block, elseIf, Parser.block, Parser.elseIf]
    exact ⟨(agrees_expect _).bind fun _ => agrees_tooDeep, agrees_tooDeep⟩
  | succ levels ih =>
    rw [block, elseIf]
    cases room with
    | zero =>
      rw [Parser.block, Parser.elseIf]
      refine ⟨(agrees_expect _).bind fun _ => ?_, agrees_nested_zero _⟩
      exact (agrees_nested_zero _).bind (g := fun body => do Parser.expect .rightBrace; return body)
        fun body => (agrees_expect _).bind fun _ => agrees_pure body
    | succ room =>
      obtain ⟨hblock, helseIf⟩ := ih room (by omega)
      have hexpression : Agrees room (expression levels) (Parser.expression room) :=
        agrees_expression (by omega)
      have hstatement := agrees_statementWith hexpression hblock helseIf
      rw [Parser.block, Parser.elseIf]
      exact ⟨(agrees_expect _).bind fun _ =>
        (agrees_turn (agrees_atClose _) hstatement).many.nested.bind fun body =>
          (agrees_expect _).bind fun _ => agrees_pure body,
        (agrees_branch hexpression hblock helseIf).nested⟩

theorem agrees_statement : Agrees nestingLimit statement (Parser.statement nestingLimit) := by
  obtain ⟨hblock, helseIf⟩ := agrees_block_elseIf nestingLimit nestingLimit (Nat.le_refl _)
  exact agrees_statementWith (agrees_expression (Nat.le_refl _)) hblock helseIf

/-- **Reading a program at a cursor is reading it from the tokens that are left there.** -/
theorem agrees_program : Agrees nestingLimit program Parser.program :=
  (agrees_turn agrees_atEnd agrees_statement).many.bind fun _ => agrees_pure _

end Walk

end Offside
