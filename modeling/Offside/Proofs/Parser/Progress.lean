import Offside.Proofs.Parser.Cursor

/-!
# Every loop makes progress

A walk never goes back and never goes past the end, and one that reads a phrase goes over a token at
least. `Walk.Moves` says this with the least number of tokens that a success has gone over, and it
is kept when walks are put together.

The loops of a walk stop by a check of their own when a turn goes over no token. Since every turn
that goes on reads a phrase, this check never decides anything: `Walk.Repeats` and `Walk.Grows` are
the same loops without it, and `Walk.repeats_many` and `Walk.grows_grow` say that they end all the
same. The number of levels that a walk is given is never the first to run out either
(`Walk.expression_levels`, `Walk.block_levels`).

The main statement is `Walk.every_loop_progresses`.
-/

namespace Offside

/-! ### Going on -/

/-- The second cursor is over the same tokens, at least so many of them further on, and not past the
end unless the first one is. -/
structure Cursor.Reaches (cursor : Cursor) (least : Nat) (after : Cursor) : Prop where
  tokens_eq : after.tokens = cursor.tokens
  le_position : cursor.position + least ≤ after.position
  position_le : after.position ≤ max cursor.position cursor.tokens.size

namespace Cursor

variable {cursor middle after : Cursor} {least more : Nat}

theorem Reaches.refl (cursor : Cursor) : cursor.Reaches 0 cursor :=
  ⟨rfl, Nat.le_refl _, Nat.le_max_left _ _⟩

theorem Reaches.mono (h : cursor.Reaches more after) (hle : least ≤ more) :
    cursor.Reaches least after :=
  ⟨h.tokens_eq, Nat.le_trans (Nat.add_le_add_left hle _) h.le_position, h.position_le⟩

theorem Reaches.trans (h : cursor.Reaches least middle) (hmore : middle.Reaches more after) :
    cursor.Reaches (least + more) after := by
  obtain ⟨htokens, hle, hend⟩ := h
  obtain ⟨htokens', hle', hend'⟩ := hmore
  rw [htokens] at hend'
  exact ⟨htokens'.trans htokens, by omega, by omega⟩

/-- A cursor that has gone over a token is not past the end. -/
theorem Reaches.position_le_size (h : cursor.Reaches 1 after) :
    after.position ≤ cursor.tokens.size := by
  obtain ⟨-, hle, hend⟩ := h
  omega

theorem Reaches.remaining_lt (h : cursor.Reaches 1 after) : after.remaining < cursor.remaining := by
  have hend := h.position_le_size
  have hle := h.le_position
  rw [remaining, remaining, h.tokens_eq]
  omega

/-- Where a run ends: a success has gone over the least number of tokens for its value. -/
def Leads {α : Type} (cursor : Cursor) (least : α → Nat) :
    EStateM.Result GrammarFault Cursor α → Prop
  | .ok value after => cursor.Reaches (least value) after
  | .error _ after => cursor.Reaches 0 after

end Cursor

namespace Walk

variable {α β : Type} {needs : Nat} {least : α → Nat}

/-- Wherever at least `needs` tokens are left, a success has gone over at least `least` tokens, and
neither a success nor a failure has gone back or past the end. -/
def Moves (needs : Nat) (least : α → Nat) (walk : Walk α) : Prop :=
  ∀ cursor : Cursor, needs ≤ cursor.remaining → cursor.Leads least (walk cursor)

/-- The walk does not go back. -/
abbrev Keeps (walk : Walk α) : Prop :=
  Moves 0 (fun _ => 0) walk

/-- The walk goes over a token at least. -/
abbrev Advances (walk : Walk α) : Prop :=
  Moves 0 (fun _ => 1) walk

/-- The walk goes over a token at least if it gives something. -/
abbrev Turns (step : Walk (Option α)) : Prop :=
  Moves 0 (fun value? => value?.elim 0 fun _ => 1) step

theorem Moves.leads {walk : Walk α} (h : Moves 0 least walk) {cursor : Cursor}
    {result : EStateM.Result GrammarFault Cursor α} (hrun : walk cursor = result) :
    cursor.Leads least result :=
  hrun ▸ h cursor (Nat.zero_le _)

theorem Moves.mono {more : α → Nat} {fewer : Nat} {walk : Walk α} (h : Moves fewer more walk)
    (hneeds : fewer ≤ needs) (hle : ∀ value, least value ≤ more value) :
    Moves needs least walk := by
  intro cursor hcursor
  have hlead := h cursor (Nat.le_trans hneeds hcursor)
  generalize walk cursor = result at hlead ⊢
  cases result with
  | ok value after => exact Cursor.Reaches.mono hlead (hle value)
  | error fault after => exact hlead

theorem Advances.keeps {walk : Walk α} (h : Advances walk) : Keeps walk :=
  h.mono (Nat.le_refl _) fun _ => Nat.zero_le _

/-- What goes over a token anywhere does so where a token is left. -/
theorem Advances.moves {walk : Walk α} (h : Advances walk) : Moves 1 (fun _ => 1) walk :=
  h.mono (Nat.zero_le _) fun _ => Nat.le_refl _

theorem Advances.turns {step : Walk (Option α)} (h : Advances step) : Turns step := by
  refine h.mono (Nat.le_refl _) fun value? => ?_
  cases value? with
  | none => exact Nat.zero_le _
  | some value => exact Nat.le_refl _

/-- What the first walk and what follows go over adds up. -/
theorem Moves.bind_add {walk : Walk α} {f : α → Walk β} {first : Nat} {least : β → Nat}
    (h : Moves needs (fun _ => first) walk) (hf : ∀ value, Moves 0 least (f value)) :
    Moves needs (fun value => first + least value) (walk >>= f) := by
  intro cursor hcursor
  have hlead := h cursor hcursor
  simp only [Bind.bind, EStateM.bind]
  generalize walk cursor = result at hlead ⊢
  cases result with
  | error fault after => exact hlead
  | ok value middle =>
    have hnext := hf value middle (Nat.zero_le _)
    simp only
    generalize f value middle = result at hnext ⊢
    cases result with
    | ok value after => exact Cursor.Reaches.trans hlead hnext
    | error fault after =>
      -- A failure counts for nothing, however far the first walk has gone.
      exact (Cursor.Reaches.trans hlead hnext).mono (Nat.zero_le _)

/-- What follows decides how far a walk goes. -/
theorem Moves.bind {walk : Walk α} {f : α → Walk β} {least : β → Nat}
    (h : Moves needs (fun _ => 0) walk) (hf : ∀ value, Moves 0 least (f value)) :
    Moves needs least (walk >>= f) :=
  (h.bind_add hf).mono (Nat.le_refl _) fun _ => Nat.le_add_left _ _

/-- What has been gone over stays behind. -/
theorem Moves.bind_keeps {walk : Walk α} {f : α → Walk β} (h : Moves needs (fun _ => 1) walk)
    (hf : ∀ value, Keeps (f value)) : Moves needs (fun _ => 1) (walk >>= f) :=
  (h.bind_add hf).mono (Nat.le_refl _) fun _ => Nat.le_refl _

/-! ### Single tokens -/

/-- A walk that stays where it is. -/
theorem keeps_of_stays {walk : Walk α}
    (h : ∀ cursor, ∃ outcome, walk cursor = Parser.ending outcome cursor) : Keeps walk := by
  intro cursor _
  obtain ⟨outcome, houtcome⟩ := h cursor
  rw [houtcome]
  cases outcome <;> exact Cursor.Reaches.refl cursor

/-- A walk that always fails may be said to go over any number of tokens. -/
theorem moves_of_fails {walk : Walk α} (h : ∀ cursor, ∃ fault, walk cursor = .error fault cursor) :
    Moves needs least walk := by
  intro cursor _
  obtain ⟨fault, hfault⟩ := h cursor
  rw [hfault]
  exact Cursor.Reaches.refl cursor

theorem keeps_pure (value : α) : Keeps (pure value : Walk α) :=
  keeps_of_stays fun _ => ⟨.ok value, rfl⟩

theorem keeps_peek? : Keeps peek? :=
  keeps_of_stays fun cursor => ⟨.ok cursor.current?, rfl⟩

theorem keeps_peekKind? : Keeps peekKind? :=
  keeps_of_stays fun cursor => ⟨.ok (cursor.current?.map Token.kind), rfl⟩

theorem keeps_peekMark? : Keeps peekMark? := by
  refine keeps_of_stays fun cursor => ?_
  rw [peekMark?]
  split
  · exact ⟨.ok (some _), rfl⟩
  · exact ⟨.ok none, rfl⟩

theorem keeps_atEnd : Keeps atEnd :=
  keeps_of_stays fun _ => ⟨.ok _, rfl⟩

theorem keeps_nextIs (kind : Token.Kind) : Keeps (nextIs kind) :=
  keeps_peekKind?.bind fun _ => keeps_pure _

theorem moves_throw (fault : GrammarFault) : Moves needs least (throw fault : Walk α) :=
  moves_of_fails fun _ => ⟨fault, rfl⟩

theorem moves_unexpected (expected : String) : Moves needs least (unexpected expected) := by
  refine moves_of_fails fun cursor => ?_
  simp only [unexpected, peek?, Bind.bind, EStateM.bind]
  cases cursor.current? with
  | none => exact ⟨_, rfl⟩
  | some token => exact ⟨_, rfl⟩

theorem moves_tooDeep : Moves needs least (tooDeep : Walk α) :=
  moves_of_fails fun _ => ⟨_, rfl⟩

/-- Where a token is left, it is gone over. -/
theorem moves_advance : Moves 1 (fun _ => 1) advance := by
  intro cursor hcursor
  rw [Cursor.remaining] at hcursor
  rw [advance, if_pos (by omega)]
  exact ⟨rfl, Nat.le_refl _, by simp only; omega⟩

theorem keeps_advance : Keeps advance := by
  intro cursor _
  by_cases hend : cursor.position < cursor.tokens.size
  · exact (moves_advance.mono (Nat.le_refl _) fun _ => Nat.zero_le _) cursor
      (by rw [Cursor.remaining]; omega)
  · rw [advance, if_neg hend]
    exact Cursor.Reaches.refl cursor

/-- Where a kind of token is seen, a token is left. -/
theorem Moves.of_peekKind? {f : Option Token.Kind → Walk α} (hnone : Moves 0 least (f none))
    (hsome : ∀ kind, Moves 1 least (f (some kind))) : Moves 0 least (peekKind? >>= f) := by
  intro cursor _
  have hrun : (peekKind? >>= f) cursor = f (cursor.current?.map Token.kind) cursor := rfl
  rw [hrun]
  cases hcurrent : cursor.current? with
  | none => exact hnone cursor (Nat.zero_le _)
  | some token =>
    obtain ⟨hlt, -⟩ := Array.getElem?_eq_some_iff.1 hcurrent
    exact hsome token.kind cursor (by rw [Cursor.remaining]; omega)

theorem Moves.of_nextIs {kind : Token.Kind} {f : Bool → Walk α} (htrue : Moves 1 least (f true))
    (hfalse : Moves 0 least (f false)) : Moves 0 least (nextIs kind >>= f) := by
  rw [nextIs, bind_assoc]
  refine Moves.of_peekKind? hfalse fun seen => ?_
  rw [pure_bind]
  by_cases hseen : some seen = some kind
  · rw [decide_eq_true hseen]
    exact htrue
  · rw [decide_eq_false hseen]
    exact hfalse.mono (Nat.zero_le _) fun _ => Nat.le_refl _

theorem keeps_accept (mark : Mark) : Keeps (accept mark) := by
  refine (keeps_nextIs _).bind fun found => ?_
  split
  · exact keeps_advance.bind fun _ => keeps_pure true
  · exact keeps_pure false

theorem keeps_skip (mark : Mark) : Keeps (skip mark) :=
  (keeps_accept mark).bind fun _ => keeps_pure ()

theorem advances_expect (mark : Mark) : Advances (expect mark) :=
  Moves.of_nextIs moves_advance (moves_unexpected _)

theorem advances_identifier : Advances identifier := by
  refine Moves.of_peekKind? (moves_unexpected _) fun kind => ?_
  cases kind with
  | identifier name => exact moves_advance.bind_keeps fun _ => keeps_pure name
  | _ => exact moves_unexpected _

/-! ### Levels -/

/-- A level that is opened does not change the position. -/
theorem Moves.nested {walk : Walk α} (h : Moves needs least walk) :
    Moves needs least (nested walk) := by
  intro cursor hcursor
  rw [Walk.nested]
  by_cases hdepth : nestingLimit ≤ cursor.depth
  · rw [if_pos hdepth]
    exact moves_tooDeep cursor hcursor
  · rw [if_neg hdepth]
    have hlead := h { cursor with depth := cursor.depth + 1 } hcursor
    generalize walk _ = result at hlead ⊢
    cases result with
    | ok value after => exact ⟨hlead.tokens_eq, hlead.le_position, hlead.position_le⟩
    | error fault after => exact ⟨hlead.tokens_eq, hlead.le_position, hlead.position_le⟩

theorem keeps_checkChain (length : Nat) : Keeps (checkChain length) := by
  intro cursor hcursor
  rw [checkChain]
  split
  · exact moves_tooDeep cursor hcursor
  · exact Cursor.Reaches.refl cursor

/-! ### Repetition -/

/-- What a loop gives when its first turn has given this value. -/
def withFirst (first : α) :
    EStateM.Result GrammarFault Cursor (List α) → EStateM.Result GrammarFault Cursor (List α)
  | .ok others after => .ok (first :: others) after
  | .error fault after => .error fault after

/-- The runs of a loop that goes on as long as its turns give a value, with no other check. Every
turn that goes on leaves fewer tokens. -/
inductive Repeats (step : Walk (Option α)) :
    Cursor → EStateM.Result GrammarFault Cursor (List α) → Prop
  | stop {cursor after : Cursor} (h : step cursor = .ok none after) :
    Repeats step cursor (.ok [] after)
  | fail {cursor after : Cursor} {fault : GrammarFault} (h : step cursor = .error fault after) :
    Repeats step cursor (.error fault after)
  | goOn {cursor after : Cursor} {first : α} {result : EStateM.Result GrammarFault Cursor (List α)}
    (h : step cursor = .ok (some first) after) (hless : after.remaining < cursor.remaining)
    (hrest : Repeats step after result) : Repeats step cursor (withFirst first result)

/-- The runs of a loop that replaces a value as long as its turns give a new one, with no other
check. Every turn that goes on leaves fewer tokens. -/
inductive Grows (step : Nat → α → Walk (Option α)) :
    Nat → α → Cursor → EStateM.Result GrammarFault Cursor α → Prop
  | stop {turn : Nat} {value : α} {cursor after : Cursor}
    (h : step turn value cursor = .ok none after) : Grows step turn value cursor (.ok value after)
  | fail {turn : Nat} {value : α} {cursor after : Cursor} {fault : GrammarFault}
    (h : step turn value cursor = .error fault after) :
    Grows step turn value cursor (.error fault after)
  | goOn {turn : Nat} {value next : α} {cursor after : Cursor}
    {result : EStateM.Result GrammarFault Cursor α}
    (h : step turn value cursor = .ok (some next) after)
    (hless : after.remaining < cursor.remaining)
    (hrest : Grows step (turn + 1) next after result) : Grows step turn value cursor result

/-- A loop of turns that make progress ends by itself. By induction on the tokens that are left. -/
theorem repeats_many {step : Walk (Option α)} (h : Turns step) (cursor : Cursor) :
    Repeats step cursor (many step cursor) := by
  induction hremaining : cursor.remaining using Nat.strongRecOn generalizing cursor with
  | ind remaining ih =>
    rw [many]
    cases hstep : step cursor with
    | error fault after => exact .fail hstep
    | ok value? after =>
      cases value? with
      | none => exact .stop hstep
      | some first =>
        have hless : after.remaining < cursor.remaining :=
          Cursor.Reaches.remaining_lt (h.leads hstep)
        have hrest := ih _ (hremaining ▸ hless) after rfl
        simp only [if_pos hless]
        exact .goOn hstep hless hrest

theorem grows_grow {step : Nat → α → Walk (Option α)} (h : ∀ turn value, Turns (step turn value))
    (turn : Nat) (value : α) (cursor : Cursor) :
    Grows step turn value cursor (grow step turn value cursor) := by
  induction hremaining : cursor.remaining using Nat.strongRecOn generalizing turn value cursor with
  | ind remaining ih =>
    rw [grow]
    cases hstep : step turn value cursor with
    | error fault after => exact .fail hstep
    | ok value? after =>
      cases value? with
      | none => exact .stop hstep
      | some next =>
        have hless : after.remaining < cursor.remaining :=
          Cursor.Reaches.remaining_lt ((h turn value).leads hstep)
        have hrest := ih _ (hremaining ▸ hless) (turn + 1) next after rfl
        simp only [dif_pos hless]
        exact .goOn hstep hless hrest

/-- By induction on the run of the loop. -/
theorem Turns.many {step : Walk (Option α)} (h : Turns step) : Keeps (many step) := by
  intro cursor hcursor
  clear hcursor
  have hrun := repeats_many h cursor
  generalize Walk.many step cursor = result at hrun ⊢
  induction hrun with
  | stop hstep => exact h.leads hstep
  | fail hstep => exact h.leads hstep
  | @goOn cursor after first result hstep _ _ ih =>
    cases result with
    | ok others final => exact (Cursor.Reaches.trans (h.leads hstep) ih).mono (Nat.zero_le _)
    | error fault final => exact (Cursor.Reaches.trans (h.leads hstep) ih).mono (Nat.zero_le _)

theorem Turns.grow {step : Nat → α → Walk (Option α)} (h : ∀ turn value, Turns (step turn value))
    (turn : Nat) (value : α) : Keeps (grow step turn value) := by
  intro cursor hcursor
  clear hcursor
  have hrun := grows_grow h turn value cursor
  generalize Walk.grow step turn value cursor = result at hrun ⊢
  induction hrun with
  | stop hstep => exact (h _ _).leads hstep
  | fail hstep => exact (h _ _).leads hstep
  | @goOn turn value next cursor after result hstep _ _ ih =>
    have hlead := (h turn value).leads hstep
    cases result with
    | ok last final => exact (Cursor.Reaches.trans hlead ih).mono (Nat.zero_le _)
    | error fault final => exact (Cursor.Reaches.trans hlead ih).mono (Nat.zero_le _)

/-! ### Turns -/

/-- A turn of `items`: the item after a comma, unless the list closes there. -/
def itemTurn (close : Mark) (item : Walk α) : Walk (Option α) := do
  if ← accept .comma then
    if ← atClose close then return none else return some (← item)
  else
    return none

/-- A turn of `separated`: the item after a comma. -/
def separatedTurn (item : Walk α) : Walk (Option α) := do
  if ← accept .comma then return some (← item) else return none

/-- A turn of a block or a program: the next statement, unless they end there. -/
def statementTurn (stop : Walk Bool) (statement : Walk Stmt) : Walk (Option Stmt) := do
  if ← stop then return none else return some (← statement)

theorem items_eq (close : Mark) (item : Walk α) :
    items close item = do
      if ← atClose close then
        return []
      let first ← item
      let others ← many (itemTurn close item)
      return first :: others :=
  rfl

theorem separated_eq (item : Walk α) :
    separated item = do
      let first ← item
      let others ← many (separatedTurn item)
      return first :: others :=
  rfl

theorem block_succ (levels : Nat) :
    block (levels + 1) = do
      expect .leftBrace
      let body ← nested (many (statementTurn (atClose .rightBrace)
        (statementWith (expression levels) (block levels) (elseIf levels))))
      expect .rightBrace
      return body := by
  rw [block]
  rfl

theorem program_eq : program = do return ⟨← many (statementTurn atEnd statement)⟩ :=
  rfl

theorem keeps_atClose (close : Mark) : Keeps (atClose close) :=
  (keeps_nextIs _).bind fun _ => keeps_atEnd.bind fun _ => keeps_pure _

theorem turns_none : Turns (pure none : Walk (Option α)) := fun cursor _ =>
  Cursor.Reaches.refl cursor

theorem Advances.turns_some {β : Type} {item : Walk α} (h : Advances item) (f : α → β) :
    Turns (do return some (f (← item))) :=
  Advances.turns (h.bind_keeps fun _ => keeps_pure _)

theorem turns_itemTurn (close : Mark) {item : Walk α} (h : Advances item) :
    Turns (itemTurn close item) := by
  refine (keeps_accept .comma).bind fun comma => ?_
  split
  · refine (keeps_atClose close).bind fun closed => ?_
    split
    · exact turns_none
    · exact h.turns_some id
  · exact turns_none

theorem turns_separatedTurn {item : Walk α} (h : Advances item) : Turns (separatedTurn item) := by
  refine (keeps_accept .comma).bind fun comma => ?_
  split
  · exact h.turns_some id
  · exact turns_none

theorem turns_statementTurn {stop : Walk Bool} (hstop : Keeps stop) {statement : Walk Stmt}
    (h : Advances statement) : Turns (statementTurn stop statement) := by
  refine hstop.bind fun stopped => ?_
  split
  · exact turns_none
  · exact h.turns_some id

theorem turns_chainTurn (tier : Tier) {operand : Walk Expr} (h : Advances operand) (length : Nat)
    (left : Expr) : Turns (chainTurn tier operand length left) := by
  refine keeps_peekKind?.bind fun kind? => ?_
  cases kind?.bind (Parser.operatorOf? tier) with
  | none => exact turns_none
  | some op =>
    exact (keeps_checkChain _).bind fun _ => keeps_advance.bind fun _ => h.turns_some _

theorem turns_suffixTurn {expression : Walk Expr} (h : Advances expression) (length : Nat)
    (object : Expr) : Turns (suffixTurn expression length object) := by
  refine keeps_peekMark?.bind fun mark? => ?_
  rcases mark? with _ | mark
  · exact turns_none
  cases mark with
  | dot =>
    refine (keeps_checkChain _).bind fun _ => keeps_advance.bind fun _ => Advances.turns
      (advances_identifier.bind_keeps fun name => (keeps_nextIs _).bind fun called => ?_)
    cases called with
    | true => exact moves_unexpected _
    | false => exact keeps_pure _
  | leftBracket =>
    exact (keeps_checkChain _).bind fun _ => keeps_advance.bind fun _ =>
      Advances.turns (h.bind_keeps fun _ => (advances_expect _).keeps.bind fun _ => keeps_pure _)
  | _ => exact turns_none

/-! ### Expressions -/

theorem keeps_items (close : Mark) {item : Walk α} (h : Advances item) :
    Keeps (items close item) := by
  rw [items_eq]
  refine (keeps_atClose close).bind fun closed => ?_
  split
  · exact keeps_pure []
  · exact h.keeps.bind fun _ => (turns_itemTurn close h).many.bind fun _ => keeps_pure _

theorem advances_separated {item : Walk α} (h : Advances item) : Advances (separated item) := by
  rw [separated_eq]
  exact h.bind_keeps fun _ => (turns_separatedTurn h).many.bind fun _ => keeps_pure _

theorem advances_tiers {operand : Walk Expr} (h : Advances operand) (tierList : List Tier) :
    Advances (tiers operand tierList) := by
  induction tierList with
  | nil => exact h
  | cons tier tighter ih =>
    exact ih.bind_keeps fun left => Turns.grow (turns_chainTurn tier ih) 1 left

theorem advances_signed {operand plain : Walk Expr} (hoperand : Advances operand)
    (hplain : Advances plain) : Advances (signed operand plain) := by
  refine keeps_peekMark?.bind fun mark? => ?_
  cases mark?.bind UnaryOp.ofMark? with
  | none => exact hplain
  | some op => exact keeps_advance.bind fun _ => hoperand.bind_keeps fun _ => keeps_pure _

section Expression

variable {expression : Walk Expr} (h : Advances expression)

include h

theorem advances_arguments : Advances (arguments expression) :=
  (advances_expect _).bind_keeps fun _ => (keeps_items _ h).bind fun _ =>
    (advances_expect _).keeps.bind fun _ => keeps_pure _

theorem advances_call (callee : String) : Advances (call expression callee) :=
  keeps_advance.bind fun _ => (advances_arguments h).bind_keeps fun _ => keeps_pure _

/-- A name that is not called is one token, so one has to be left. -/
theorem moves_nameOrCall (name : String) : Moves 1 (fun _ => 1) (nameOrCall expression name) := by
  rw [nameOrCall_eq]
  refine moves_advance.bind_keeps fun _ => (keeps_nextIs _).bind fun called => ?_
  split
  · exact (advances_arguments h).keeps.bind fun _ => keeps_pure _
  · exact keeps_pure _

theorem advances_primary : Advances (primary expression) := by
  refine Moves.of_peekKind? (moves_unexpected _) fun kind => ?_
  cases kind with
  | number value => exact moves_advance.bind_keeps fun _ => keeps_pure _
  | string raw => exact moves_advance.bind_keeps fun _ => keeps_pure _
  | identifier name => exact moves_nameOrCall h name
  | consoleLog => exact (advances_call h _).moves
  | keyword keyword => exact moves_unexpected _
  | mark mark =>
    cases mark with
    | leftBracket =>
      exact moves_advance.bind_keeps fun _ => (keeps_items _ h).bind fun _ =>
        (advances_expect _).keeps.bind fun _ => keeps_pure _
    | leftParen =>
      exact moves_advance.bind_keeps fun _ => h.keeps.bind fun _ =>
        (advances_expect _).keeps.bind fun _ => keeps_pure _
    | _ => exact moves_unexpected _

theorem advances_suffixed : Advances (suffixed expression) :=
  (advances_primary h).bind_keeps fun object => Turns.grow (turns_suffixTurn h) 1 object

theorem advances_assignment {target : Walk Expr} (htarget : Advances target) :
    Advances (assignment target expression) := by
  refine htarget.bind_keeps fun left => keeps_peek?.bind fun token? => ?_
  rcases token? with _ | ⟨kind, span⟩
  · exact keeps_pure left
  cases kind with
  | mark mark =>
    cases mark with
    | assign =>
      refine keeps_advance.bind fun _ => h.keeps.bind fun right => ?_
      split
      · exact keeps_pure _
      · exact moves_throw _
    | _ => exact keeps_pure left
  | _ => exact keeps_pure left

end Expression

/-- By induction on the levels. Without any left, both fail where they are. -/
theorem advances_expression_operand (levels : Nat) :
    Advances (expression levels) ∧ Advances (operand levels) := by
  induction levels with
  | zero =>
    rw [expression, operand]
    exact ⟨moves_tooDeep, moves_tooDeep⟩
  | succ levels ih =>
    obtain ⟨hexpression, hoperand⟩ := ih
    have hsigned := advances_signed hoperand (advances_suffixed hexpression)
    rw [expression, operand]
    exact ⟨(advances_assignment hexpression (advances_tiers hsigned Tier.all)).nested,
      hsigned.nested⟩

/-! ### Statements -/

section Statement

variable {expression : Walk Expr} {block : Walk (List Stmt)} {elseIf : Walk Stmt}
  (h : Advances expression)

include h

theorem advances_declaration : Advances (declaration expression) := by
  refine keeps_peekKind?.bind fun kind? => ?_
  rcases kind? with _ | kind
  · exact moves_unexpected _
  cases kind with
  | keyword keyword =>
    cases keyword with
    | decl kind =>
      refine keeps_advance.bind fun _ => advances_identifier.bind_keeps fun name =>
        (keeps_accept _).bind fun assigned => ?_
      split
      · exact h.keeps.bind fun _ => keeps_pure _
      · exact keeps_pure _
    | _ => exact moves_unexpected _
  | _ => exact moves_unexpected _

theorem advances_condition : Advances (condition expression) :=
  (advances_expect _).bind_keeps fun _ => h.keeps.bind fun _ =>
    (advances_expect _).keeps.bind fun _ => keeps_pure _

/-- A `return` may be its keyword alone, so that one has to be left. -/
theorem moves_giveBack : Moves 1 (fun _ => 1) (giveBack expression) := by
  refine moves_advance.bind_keeps fun _ => keeps_peekKind?.bind fun kind? => ?_
  have hvalue : Keeps
      (do let value ← expression; skip .semicolon; return Stmt.giveBack (some value)) :=
    h.keeps.bind fun _ => (keeps_skip _).bind fun _ => keeps_pure _
  rcases kind? with _ | kind
  · exact keeps_pure _
  cases kind with
  | mark mark =>
    cases mark with
    | semicolon => exact (keeps_skip _).bind fun _ => keeps_pure _
    | rightBrace => exact keeps_pure _
    | _ => exact hvalue
  | _ => exact hvalue

variable (hblock : Advances block)

include hblock

theorem advances_branch (helseIf : Advances elseIf) :
    Advances (branch expression block elseIf) := by
  refine keeps_advance.bind fun _ => (advances_condition h).bind_keeps fun test =>
    hblock.keeps.bind fun yes => (keeps_nextIs _).bind fun more => ?_
  split
  · refine keeps_advance.bind fun _ => (keeps_nextIs _).bind fun again => ?_
    split
    · exact helseIf.keeps.bind fun _ => keeps_pure _
    · exact hblock.keeps.bind fun _ => keeps_pure _
  · exact keeps_pure _

theorem advances_whileLoop : Advances (whileLoop expression block) :=
  keeps_advance.bind fun _ => (advances_condition h).bind_keeps fun _ =>
    hblock.keeps.bind fun _ => keeps_pure _

theorem advances_forLoop : Advances (forLoop expression block) :=
  keeps_advance.bind fun _ => (advances_expect _).bind_keeps fun _ =>
    (advances_declaration h).keeps.bind fun _ => (advances_expect _).keeps.bind fun _ =>
    h.keeps.bind fun _ => (advances_expect _).keeps.bind fun _ => h.keeps.bind fun _ =>
    (advances_expect _).keeps.bind fun _ => hblock.keeps.bind fun _ => keeps_pure _

omit h in
theorem advances_function : Advances (function block) := by
  refine keeps_advance.bind fun _ => advances_identifier.bind_keeps fun name =>
    (advances_expect _).keeps.bind fun _ => (keeps_nextIs _).bind fun empty => ?_
  have hafter (params : List String) :
      Keeps (do expect .rightParen; return Stmt.function name params (← block)) :=
    (advances_expect _).keeps.bind fun _ => hblock.keeps.bind fun _ => keeps_pure _
  dsimp only
  split
  · exact (keeps_pure []).bind hafter
  · exact (advances_separated advances_identifier).keeps.bind hafter

theorem advances_statementWith (helseIf : Advances elseIf) :
    Advances (statementWith expression block elseIf) := by
  have hexpr : Advances (do let value ← expression; skip .semicolon; return Stmt.expr value) :=
    h.bind_keeps fun _ => (keeps_skip _).bind fun _ => keeps_pure _
  have hjump (jump : Stmt) : Moves 1 (fun _ => 1) (do advance; skip .semicolon; return jump) :=
    moves_advance.bind_keeps fun _ => (keeps_skip _).bind fun _ => keeps_pure _
  refine Moves.of_peekKind? hexpr fun kind => ?_
  cases kind with
  | keyword keyword =>
    cases keyword with
    | decl kind =>
      exact Advances.moves ((advances_declaration h).bind_keeps fun _ =>
        (keeps_skip _).bind fun _ => keeps_pure _)
    | whileLoop => exact (advances_whileLoop h hblock).moves
    | forLoop => exact (advances_forLoop h hblock).moves
    | ifBranch => exact (advances_branch h hblock helseIf).moves
    | function => exact (advances_function hblock).moves
    | returnJump => exact moves_giveBack h
    | breakJump => exact hjump _
    | continueJump => exact hjump _
    | elseBranch => exact hexpr.moves
  | _ => exact hexpr.moves

end Statement

theorem advances_block_elseIf (levels : Nat) :
    Advances (block levels) ∧ Advances (elseIf levels) := by
  induction levels with
  | zero =>
    rw [block, elseIf]
    exact ⟨(advances_expect _).bind_keeps fun _ => moves_tooDeep, moves_tooDeep⟩
  | succ levels ih =>
    obtain ⟨hblock, helseIf⟩ := ih
    have hexpression := (advances_expression_operand levels).1
    have hstatement := advances_statementWith hexpression hblock helseIf
    rw [block_succ, elseIf]
    exact ⟨(advances_expect _).bind_keeps fun _ =>
      (turns_statementTurn (keeps_atClose _) hstatement).many.nested.bind fun _ =>
        (advances_expect _).keeps.bind fun _ => keeps_pure _,
      (advances_branch hexpression hblock helseIf).nested⟩

/-! ### Levels are never the first to run out -/

/-- Two walks that agree with one parser end alike. -/
theorem Agrees.unique {room : Nat} {walk other : Walk α} {p : Parser α} (h : Agrees room walk p)
    (hother : Agrees room other p) {cursor : Cursor} (hroom : cursor.depth + room = nestingLimit) :
    walk cursor = other cursor := by
  obtain ⟨outcome, n, hn, hwalk, hp⟩ := h cursor hroom
  obtain ⟨outcome', n', hn', hother, hp'⟩ := hother cursor hroom
  obtain ⟨houtcome, hdrop⟩ := Parser.ending_inj (hp.symm.trans hp')
  have hlength := congrArg List.length hdrop
  rw [List.length_drop, List.length_drop] at hlength
  obtain rfl : n = n' := by omega
  rw [hwalk, hother, houtcome]

theorem nested_of_le {cursor : Cursor} (h : nestingLimit ≤ cursor.depth) (walk : Walk α) :
    nested walk cursor = tooDeep cursor := by
  rw [nested, if_pos h]

theorem depth_expect {mark : Mark} {cursor after : Cursor}
    (h : expect mark cursor = .ok () after) : after.depth = cursor.depth := by
  have hrun : expect mark cursor =
      if cursor.current?.map Token.kind = some (.mark mark) then advance cursor
      else unexpected (Token.Kind.mark mark).describe cursor := by
    simp only [expect, nextIs, peekKind?, Bind.bind, EStateM.bind, Pure.pure, EStateM.pure,
      decide_eq_true_eq]
    split <;> rfl
  rw [hrun] at h
  split at h
  · rw [advance] at h
    split at h <;> cases h <;> rfl
  · simp only [unexpected, peek?, Bind.bind, EStateM.bind] at h
    cases hcurrent : cursor.current? <;> rw [hcurrent] at h <;> cases h

/-- At the limit a block fails behind its first brace, whatever the levels. -/
theorem block_of_le {cursor : Cursor} (h : nestingLimit ≤ cursor.depth) (levels : Nat) :
    block levels cursor = (do expect .leftBrace; tooDeep) cursor := by
  cases levels with
  | zero => rw [block]
  | succ levels =>
    rw [block_succ]
    simp only [Bind.bind, EStateM.bind]
    cases hexpect : expect .leftBrace cursor with
    | error fault after => rfl
    | ok value after =>
      simp only [nested_of_le (depth_expect hexpect ▸ h)]
      rfl

/-- One level more makes no difference once the levels cover what the depth leaves. -/
theorem expression_levels {levels : Nat} {cursor : Cursor}
    (h : nestingLimit ≤ cursor.depth + levels) :
    expression (levels + 1) cursor = expression levels cursor ∧
      operand (levels + 1) cursor = operand levels cursor := by
  by_cases hdepth : nestingLimit ≤ cursor.depth
  · -- Past the limit no parser has room to agree with, but no level can be opened either.
    rw [expression, operand]
    cases levels with
    | zero =>
      rw [expression, operand]
      exact ⟨nested_of_le hdepth _, nested_of_le hdepth _⟩
    | succ levels =>
      rw [expression, operand]
      simp only [nested_of_le hdepth, and_self]
  · obtain ⟨room, hroom⟩ := Nat.exists_eq_add_of_le (Nat.le_of_not_le hdepth)
    have hmore := agrees_expression_operand (levels + 1) room (by omega)
    have hless := agrees_expression_operand levels room (by omega)
    exact ⟨hmore.1.unique hless.1 hroom.symm, hmore.2.unique hless.2 hroom.symm⟩

theorem block_levels {levels : Nat} {cursor : Cursor} (h : nestingLimit ≤ cursor.depth + levels) :
    block (levels + 1) cursor = block levels cursor ∧
      elseIf (levels + 1) cursor = elseIf levels cursor := by
  by_cases hdepth : nestingLimit ≤ cursor.depth
  · rw [block_of_le hdepth, block_of_le hdepth, elseIf]
    cases levels with
    | zero =>
      rw [elseIf]
      exact ⟨rfl, nested_of_le hdepth _⟩
    | succ levels =>
      rw [elseIf]
      simp only [nested_of_le hdepth, and_self]
  · obtain ⟨room, hroom⟩ := Nat.exists_eq_add_of_le (Nat.le_of_not_le hdepth)
    have hmore := agrees_block_elseIf (levels + 1) room (by omega)
    have hless := agrees_block_elseIf levels room (by omega)
    exact ⟨hmore.1.unique hless.1 hroom.symm, hmore.2.unique hless.2 hroom.symm⟩

/-! ### Progress -/

/-- A success has gone over a token at least and not past the end, and a failure has not gone
back. -/
structure Progresses (walk : Walk α) : Prop where
  of_ok : ∀ {cursor : Cursor} {value : α} {after : Cursor}, walk cursor = .ok value after →
    after.tokens = cursor.tokens ∧ cursor.position < after.position ∧
      after.position ≤ cursor.tokens.size
  of_error : ∀ {cursor : Cursor} {fault : GrammarFault} {after : Cursor},
    walk cursor = .error fault after →
    after.tokens = cursor.tokens ∧ cursor.position ≤ after.position

theorem Advances.progresses {walk : Walk α} (h : Advances walk) : Progresses walk where
  of_ok hrun :=
    have hreach : Cursor.Reaches _ 1 _ := h.leads hrun
    ⟨hreach.tokens_eq, hreach.le_position, hreach.position_le_size⟩
  of_error hrun :=
    have hreach : Cursor.Reaches _ 0 _ := h.leads hrun
    ⟨hreach.tokens_eq, hreach.le_position⟩

/-- The walks for phrases make progress, at every cursor and with any number of levels. -/
structure PhrasesProgress (levels : Nat) : Prop where
  statement : Progresses (statementWith (expression levels) (block levels) (elseIf levels))
  blocks : Progresses (block levels)
  elseIfs : Progresses (elseIf levels)
  expressions : Progresses (expression levels)
  tierLists : ∀ tierList,
    Progresses (tiers (signed (operand levels) (suffixed (expression levels))) tierList)
  operands : Progresses (operand levels)
  suffixedOnes : Progresses (suffixed (expression levels))
  primaries : Progresses (primary (expression levels))

/-- The loops end by themselves, each turn that goes on with fewer tokens left. -/
structure LoopsEnd (levels : Nat) : Prop where
  programs : ∀ cursor, Repeats
    (statementTurn atEnd (statementWith (expression levels) (block levels) (elseIf levels))) cursor
    (many (statementTurn atEnd
      (statementWith (expression levels) (block levels) (elseIf levels))) cursor)
  blocks : ∀ cursor, Repeats
    (statementTurn (atClose .rightBrace)
      (statementWith (expression levels) (block levels) (elseIf levels))) cursor
    (many (statementTurn (atClose .rightBrace)
      (statementWith (expression levels) (block levels) (elseIf levels))) cursor)
  /-- Arguments close with a parenthesis, and arrays with a bracket. -/
  items_eq_many : ∀ close, items close (expression levels) = do
    if ← atClose close then
      return []
    let first ← expression levels
    let others ← many (itemTurn close (expression levels))
    return first :: others
  itemLists : ∀ close cursor, Repeats (itemTurn close (expression levels)) cursor
    (many (itemTurn close (expression levels)) cursor)
  parameters_eq_many : separated identifier = do
    let first ← identifier
    let others ← many (separatedTurn identifier)
    return first :: others
  parameters : ∀ cursor, Repeats (separatedTurn identifier) cursor
    (many (separatedTurn identifier) cursor)
  chains : ∀ tier tierList left cursor, Grows
    (chainTurn tier (tiers (signed (operand levels) (suffixed (expression levels))) tierList)) 1
    left cursor
    (chain tier (tiers (signed (operand levels) (suffixed (expression levels))) tierList) left
      cursor)
  suffixChains : ∀ object cursor, Grows (suffixTurn (expression levels)) 1 object cursor
    (suffixes (expression levels) object cursor)

/-- With all levels, the walks that open one call themselves with all levels again. -/
structure LevelsSuffice : Prop where
  expression_eq : expression nestingLimit =
    nested (assignment (tiers (signed (operand nestingLimit) (suffixed (expression nestingLimit)))
      Tier.all) (expression nestingLimit))
  operand_eq : operand nestingLimit =
    nested (signed (operand nestingLimit) (suffixed (expression nestingLimit)))
  block_eq : block nestingLimit = do
    expect .leftBrace
    let body ← nested (many (statementTurn (atClose .rightBrace) statement))
    expect .rightBrace
    return body
  elseIf_eq : elseIf nestingLimit =
    nested (branch (expression nestingLimit) (block nestingLimit) (elseIf nestingLimit))

theorem phrasesProgress (levels : Nat) : PhrasesProgress levels := by
  obtain ⟨hexpression, hoperand⟩ := advances_expression_operand levels
  obtain ⟨hblock, helseIf⟩ := advances_block_elseIf levels
  have hsigned := advances_signed hoperand (advances_suffixed hexpression)
  exact {
    statement := (advances_statementWith hexpression hblock helseIf).progresses
    blocks := hblock.progresses
    elseIfs := helseIf.progresses
    expressions := hexpression.progresses
    tierLists := fun tierList => (advances_tiers hsigned tierList).progresses
    operands := hoperand.progresses
    suffixedOnes := (advances_suffixed hexpression).progresses
    primaries := (advances_primary hexpression).progresses }

theorem loopsEnd (levels : Nat) : LoopsEnd levels := by
  obtain ⟨hexpression, hoperand⟩ := advances_expression_operand levels
  obtain ⟨hblock, helseIf⟩ := advances_block_elseIf levels
  have hsigned := advances_signed hoperand (advances_suffixed hexpression)
  have hstatement := advances_statementWith hexpression hblock helseIf
  exact {
    programs := repeats_many (turns_statementTurn keeps_atEnd hstatement)
    blocks := repeats_many (turns_statementTurn (keeps_atClose _) hstatement)
    items_eq_many := fun close => items_eq close (expression levels)
    itemLists := fun close => repeats_many (turns_itemTurn close hexpression)
    parameters_eq_many := separated_eq identifier
    parameters := repeats_many (turns_separatedTurn advances_identifier)
    chains := fun tier tierList =>
      grows_grow (turns_chainTurn tier (advances_tiers hsigned tierList)) 1
    suffixChains := grows_grow (turns_suffixTurn hexpression) 1 }

theorem levelsSuffice : LevelsSuffice := by
  have hcover (cursor : Cursor) : nestingLimit ≤ cursor.depth + nestingLimit :=
    Nat.le_add_left _ _
  constructor
  · funext cursor
    rw [← (expression_levels (hcover cursor)).1, expression]
  · funext cursor
    rw [← (expression_levels (hcover cursor)).2, operand]
  · funext cursor
    rw [← (block_levels (hcover cursor)).1, block_succ]
    rfl
  · funext cursor
    rw [← (block_levels (hcover cursor)).2, elseIf]

/-- What a use of a cursor gives when the loop over the statements has ended like this. -/
def programOf : EStateM.Result GrammarFault Cursor (List Stmt) →
    Except GrammarFault Program × Cursor
  | .ok body after => (.ok ⟨body⟩, after)
  | .error fault after => (.error fault, after)

theorem parse_eq_programOf (cursor : Cursor) :
    cursor.parse = programOf (many (statementTurn atEnd statement) cursor) := by
  rw [Cursor.parse, program_eq]
  simp only [Bind.bind, EStateM.bind]
  cases many (statementTurn atEnd statement) cursor <;> rfl

/-- **Every loop makes progress.** Every phrase that is read goes over a token at least, so the
loops end without a check of their own; neither does the number of levels ever decide, and reading a
program ends at every cursor. -/
theorem every_loop_progresses :
    (∀ levels, PhrasesProgress levels) ∧ (∀ levels, LoopsEnd levels) ∧ LevelsSuffice ∧
      ∀ cursor : Cursor, ∃ result,
        Repeats (statementTurn atEnd statement) cursor result ∧ cursor.parse = programOf result :=
  ⟨phrasesProgress, loopsEnd, levelsSuffice, fun cursor =>
    ⟨_, (loopsEnd nestingLimit).programs cursor, parse_eq_programOf cursor⟩⟩

end Walk

end Offside
