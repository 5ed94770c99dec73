import Offside.Proofs.Parser.Takes

/-!
# Expressions read back

An expression that is written as tokens is read back, unless there is too little room for it. Room
for twice its height is always enough: an operand opens at most two levels, one after a sign and one
in its parentheses, and a loop has as many turns as there is room.

`reader room place` is the parser for an expression in a place, inside a level with `room` levels
left. A binary operator is read by a loop, and so is a suffix, so what is carried through the
induction (`Readable`) is not that the parser of an expression's own place gives the expression, but
that it comes to the point in the loop where the expression is what has been read so far
(`Expr.tail`). The loop ends there if what follows holds no tighter (`Follows`); if the expression is
itself the left operand of a further operator, the loop goes on.
-/

namespace Offside

namespace Parser

/-! ### Parsers for places -/

/-- The parser for an expression in the given place, with `room` levels left inside. -/
def reader (room : Nat) : Nat → Parser Expr
  | 8 => suffixed room (expression room)
  | 7 => signed (operand room) (suffixed room (expression room))
  | n + 2 =>
    tiers room (signed (operand room) (suffixed room (expression room))) (Tier.all.drop n)
  | _ =>
    assignment (tiers room (signed (operand room) (suffixed room (expression room))) Tier.all)
      (expression room)

theorem expression_succ (room : Nat) : expression (room + 1) = reader room 1 := by
  rw [expression]
  rfl

theorem operand_succ (room : Nat) : operand (room + 1) = reader room 7 := by
  rw [operand]
  rfl

/-- The loop of a tier starts from an operand of the next tighter place. -/
theorem reader_tier (room : Nat) (tier : Tier) :
    reader room tier.place =
      reader room (tier.place + 1) >>= chain tier (reader room (tier.place + 1)) room := by
  cases tier <;> rfl

theorem reader_sign (room : Nat) : reader room 7 = signed (operand room) (reader room 8) := rfl

theorem reader_suffixed (room : Nat) :
    reader room 8 = primary (expression room) >>= suffixes (expression room) room := rfl

theorem reader_whole (room : Nat) :
    reader room 1 = assignment (reader room 2) (expression room) := rfl

/-! ### What may follow -/

/-- The tightest place whose parser goes on at this token, or 0 if none does. A parenthesis after a
name would make it a call. -/
def grip : Token.Kind → Nat
  | .mark .assign => 1
  | .mark .dot => 8
  | .mark .leftBracket => 8
  | .mark .leftParen => 9
  | .mark mark => ((BinaryOp.ofMark? mark).map fun op => op.tier.place).getD 0
  | _ => 0

/-- The next token holds no expression in the given place or a tighter one. -/
def Follows (place : Nat) (next : Option Token.Kind) : Prop :=
  ∀ kind ∈ next, grip kind < place

theorem Follows.mono {place looser : Nat} {next : Option Token.Kind} (h : Follows looser next)
    (hle : looser ≤ place) : Follows place next :=
  fun kind hkind => Nat.lt_of_lt_of_le (h kind hkind) hle

theorem follows_some {place : Nat} {kind : Token.Kind} (h : grip kind < place) :
    Follows place (some kind) := by
  rintro _ ⟨⟩
  exact h

/-- No parenthesis follows, so a name is not the name of a call. -/
theorem Follows.not_call {next : Option Token.Kind} (h : Follows 9 next) :
    decide (next = some (.mark .leftParen)) = false := by
  refine decide_eq_false ?_
  rintro rfl
  exact absurd (h _ rfl) (by decide)

theorem grip_mark (op : BinaryOp) : grip (.mark op.mark) = op.tier.place := by
  cases op <;> rfl

theorem operatorOf?_mark (op : BinaryOp) : operatorOf? op.tier (.mark op.mark) = some op := by
  simp [operatorOf?, BinaryOp.ofMark?_mark]

theorem grip_of_operatorOf? {tier : Tier} {kind : Token.Kind} {op : BinaryOp}
    (h : operatorOf? tier kind = some op) : grip kind = tier.place := by
  cases kind with
  | mark mark =>
    obtain ⟨hop, htier⟩ := Option.filter_eq_some_iff.mp h
    obtain rfl := BinaryOp.ofMark?_eq_some_iff.mp hop
    rw [grip_mark, of_decide_eq_true htier]
  | _ => cases h

/-! ### Loops -/

variable {fits : Prop} {kinds : List Token.Kind}

/-- The loop of a tier ends where no operator of it follows. -/
theorem takes_chain_nil (tier : Tier) (operand : Parser Expr) (room : Nat) (e : Expr) :
    Takes fits (chain tier operand room e) [] (Follows tier.place) (pure e) := by
  have hnone : ∀ next, Follows tier.place next → next.bind (operatorOf? tier) = none := by
    intro next hnext
    cases hop : next.bind (operatorOf? tier) with
    | none => rfl
    | some op =>
      obtain ⟨kind, hkind, hop⟩ := Option.bind_eq_some_iff.mp hop
      have := hnext kind hkind
      rw [grip_of_operatorOf? hop] at this
      omega
  -- The loop looks for an operator before it looks whether a turn is left.
  cases room with
  | _ =>
    refine .look_each looks_peekKind? fun next hnext => ?_
    simp only [List.head?_nil, Option.none_or, id, hnone next hnext]
    exact .refl

/-- The loop of a tier takes one more operator and its right operand. -/
theorem takes_chain_cons (op : BinaryOp) {operand : Parser Expr} {room : Nat} (left : Expr)
    {right : Expr} {follow : Option Token.Kind → Prop} (hroom : fits → 0 < room)
    (hright : Takes fits operand kinds follow (pure right)) :
    Takes fits (chain op.tier operand room left) (.mark op.mark :: kinds) follow
      (chain op.tier operand (room - 1) (.binary op left right)) := by
  cases room with
  | zero =>
    refine .look looks_peekKind? (some (.mark op.mark)) (fun _ _ => rfl) ?_
    simp only [Option.bind_some, operatorOf?_mark]
    exact .tooDeep fun hfits => Nat.lt_irrefl 0 (hroom hfits)
  | succ room =>
    refine .look looks_peekKind? (some (.mark op.mark)) (fun _ _ => rfl) ?_
    simp only [Option.bind_some, operatorOf?_mark]
    exact .advance _ (hright.into _)

/-- The loop of suffixes ends where none follows. -/
theorem takes_suffixes_nil (expression : Parser Expr) (room : Nat) (e : Expr) :
    Takes fits (suffixes expression room e) [] (Follows 8) (pure e) := by
  have hnone : ∀ next mark, Follows 8 next → next.bind markOf? = some mark →
      mark ≠ .dot ∧ mark ≠ .leftBracket := by
    intro next mark hnext hmark
    obtain ⟨kind, hkind, hmark⟩ := Option.bind_eq_some_iff.mp hmark
    cases kind with
    | mark found =>
      cases hmark
      have hgrip := hnext _ hkind
      constructor
      · rintro rfl
        exact absurd hgrip (by decide)
      · rintro rfl
        exact absurd hgrip (by decide)
    | _ => cases hmark
  cases room with
  | _ =>
    refine .look_each looks_peekMark? fun next hnext => ?_
    split
    · next hdot => exact absurd rfl (hnone next _ hnext hdot).1
    · next hbracket => exact absurd rfl (hnone next _ hnext hbracket).2
    · exact .refl

theorem takes_suffixes_property {expression : Parser Expr} {room : Nat} (object : Expr)
    (name : String) (hroom : fits → 0 < room) :
    Takes fits (suffixes expression room object) [.mark .dot, .identifier name] (Follows 9)
      (suffixes expression (room - 1) (.property object name)) := by
  cases room with
  | zero =>
    refine .look looks_peekMark? (some .dot) (fun _ _ => rfl) ?_
    exact .tooDeep fun hfits => Nat.lt_irrefl 0 (hroom hfits)
  | succ room =>
    refine .look looks_peekMark? (some .dot) (fun _ _ => rfl) ?_
    exact .advance _ (.identifier name (.look (looks_nextIs _) false (fun _ h => h.not_call) .refl))

theorem takes_suffixes_index {expression : Parser Expr} {room : Nat} (object : Expr) {index : Expr}
    (hroom : fits → 0 < room) (hindex : Takes fits expression kinds (Follows 1) (pure index)) :
    Takes fits (suffixes expression room object)
      (.mark .leftBracket :: (kinds ++ [.mark .rightBracket])) (Follows 9)
      (suffixes expression (room - 1) (.index object index)) := by
  cases room with
  | zero =>
    refine .look looks_peekMark? (some .leftBracket) (fun _ _ => rfl) ?_
    exact .tooDeep fun hfits => Nat.lt_irrefl 0 (hroom hfits)
  | succ room =>
    refine .look looks_peekMark? (some .leftBracket) (fun _ _ => rfl) ?_
    exact .advance _ (hindex.seq (.expect _ .refl) fun _ _ => follows_some (by decide))

/-! ### First tokens -/

/-- Can an expression start with this token? -/
def startsExpr : Token.Kind → Bool
  | .consoleLog => true
  | .identifier _ => true
  | .number _ => true
  | .string _ => true
  | .mark mark => mark == .leftParen || mark == .leftBracket || mark == .minus || mark == .bang
  | .keyword _ => false

/-- The operator that a token is before an operand. -/
def signOf? (kind : Token.Kind) : Option UnaryOp :=
  (markOf? kind).bind UnaryOp.ofMark?

/-- The tokens start like an expression, and without a sign in the tightest place. -/
def Starts (place : Nat) (kinds : List Token.Kind) : Prop :=
  ∃ kind, kinds.head? = some kind ∧ startsExpr kind ∧ (place = 8 → signOf? kind = none)

theorem Starts.append {place : Nat} (h : Starts place kinds) (others : List Token.Kind) :
    Starts place (kinds ++ others) := by
  obtain ⟨kind, hkind, hstarts⟩ := h
  exact ⟨kind, by simp [List.head?_append, hkind], hstarts⟩

theorem Starts.loosen {place looser : Nat} (h : Starts place kinds) (hle : looser ≤ place)
    (hplace : place ≤ 8) : Starts looser kinds := by
  obtain ⟨kind, hkind, hstarts, hsign⟩ := h
  exact ⟨kind, hkind, hstarts, fun hlooser => hsign (by omega)⟩

theorem Starts.inPlace {e : Expr} (h : Starts e.place e.kinds) (place : Nat) :
    Starts place (e.inPlace place e.kinds) := by
  rw [Expr.inPlace]
  split
  · exact ⟨.mark .leftParen, rfl, rfl, fun _ => rfl⟩
  · exact h.loosen (by omega) e.place_le

theorem starts_kinds : (e : Expr) → Starts e.place e.kinds
  | .assign target value => by
    rw [Expr.kinds]
    exact (((starts_kinds target).inPlace 2).loosen (Nat.le_succ 1) (by decide)).append _
  | .binary op left right => by
    rw [Expr.kinds]
    exact ((starts_kinds left).inPlace _).append _
  | .unary op operand => ⟨.mark op.mark, rfl, by cases op <;> rfl, nofun⟩
  | .call callee arguments => by
    refine ⟨calleeKind callee, rfl, ?_, fun _ => ?_⟩
    · rw [calleeKind]
      split <;> rfl
    · rw [calleeKind]
      split <;> rfl
  | .ident name => ⟨_, rfl, rfl, fun _ => rfl⟩
  | .number value => ⟨_, rfl, rfl, fun _ => rfl⟩
  | .string raw => ⟨_, rfl, rfl, fun _ => rfl⟩
  | .boolean true => ⟨_, rfl, rfl, fun _ => rfl⟩
  | .boolean false => ⟨_, rfl, rfl, fun _ => rfl⟩
  | .array elements => ⟨_, rfl, rfl, fun _ => rfl⟩
  | .index object index => by
    rw [Expr.kinds]
    exact ((starts_kinds object).inPlace 8).append _
  | .property object name => by
    rw [Expr.kinds]
    exact ((starts_kinds object).inPlace 8).append _

/-! ### Down to looser places -/

/-- No token holds just the operand of a sign: signs stand before it. -/
theorem grip_ne_seven (kind : Token.Kind) : grip kind ≠ 7 := by
  cases kind with
  | mark mark => cases mark <;> decide
  | _ => exact nofun

theorem takes_signed {room : Nat} {e : Expr} (hstarts : Starts 8 kinds)
    (h : Takes fits (reader room 8) kinds (Follows 8) (pure e)) :
    Takes fits (reader room 7) kinds (Follows 7) (pure e) := by
  obtain ⟨kind, hkind, -, hsign⟩ := hstarts
  rw [reader_sign]
  refine .look looks_peekMark? (markOf? kind) (fun next _ => by simp [hkind]) ?_
  have hnone : (markOf? kind).bind UnaryOp.ofMark? = none := hsign rfl
  simp only [hnone]
  exact h.mono id fun next hnext => hnext.mono (by decide)

/-- What stands in a tighter place can stand in the place of a tier. -/
theorem takes_tier {room : Nat} (tier : Tier) {e : Expr} {follow : Option Token.Kind → Prop}
    (h : Takes fits (reader room (tier.place + 1)) kinds follow (pure e)) :
    Takes fits (reader room tier.place) kinds follow
      (chain tier (reader room (tier.place + 1)) room e) := by
  rw [reader_tier]
  exact h.into _

theorem takes_whole {room : Nat} {e : Expr}
    (h : Takes fits (reader room 2) kinds (Follows 2) (pure e)) :
    Takes fits (reader room 1) kinds (Follows 1) (pure e) := by
  rw [reader_whole, ← List.append_nil kinds]
  refine h.seq ?_ fun next hnext => hnext.mono (by decide)
  intro tokens rest htokens hrest
  rw [List.map_eq_nil_iff.mp htokens, List.nil_append]
  left
  -- Only `=` would make the parser go on.
  cases rest with
  | nil => rfl
  | cons token others =>
    obtain ⟨kind, span⟩ := token
    cases kind with
    | mark mark =>
      cases mark with
      | assign => exact absurd (hrest _ rfl) (Nat.lt_irrefl 1)
      | _ => rfl
    | _ => rfl

/-- One place down. -/
theorem takes_looser {room place : Nat} {e : Expr} (hpos : 1 ≤ place) (hle : place ≤ 7)
    (hstarts : place = 7 → Starts 8 kinds)
    (h : Takes fits (reader room (place + 1)) kinds (Follows (place + 1)) (pure e)) :
    Takes fits (reader room place) kinds (Follows place) (pure e) := by
  -- The two ends are not tiers.
  by_cases htop : place = 7
  · subst htop
    exact takes_signed (hstarts rfl) h
  by_cases hbottom : place = 1
  · subst hbottom
    exact takes_whole h
  obtain ⟨tier, rfl⟩ := Tier.exists_place_eq (by omega : 2 ≤ place) (by omega)
  have hchain : Takes fits (chain tier (reader room (tier.place + 1)) room e) []
      (Follows tier.place) (pure e) := takes_chain_nil tier _ room e
  simpa using (takes_tier tier h).trans hchain fun next hnext => hnext.mono (Nat.le_succ _)

/-- Any number of places down. -/
theorem takes_loosest {room place looser : Nat} {e : Expr} (hpos : 1 ≤ looser)
    (hle : looser ≤ place) (hplace : place ≤ 8) (hstarts : Starts place kinds)
    (h : Takes fits (reader room place) kinds (Follows place) (pure e)) :
    Takes fits (reader room looser) kinds (Follows looser) (pure e) := by
  induction hdistance : place - looser generalizing looser with
  | zero =>
    obtain rfl : looser = place := by omega
    exact h
  | succ distance ih =>
    have hnext := ih (Nat.le_succ_of_le hpos) (by omega : looser + 1 ≤ place) (by omega)
    refine takes_looser hpos (by omega) (fun hlooser => ?_) hnext
    obtain rfl : place = 8 := by omega
    exact hstarts

/-! ### Where the loop stands after an expression -/

/-- The number of turns of its own loop that an expression takes. -/
def spine : Expr → Nat
  | .binary op left _ => (if left.place = op.tier.place then spine left else 0) + 1
  | .index object _ => (if object.place = 8 then spine object else 0) + 1
  | .property object _ => (if object.place = 8 then spine object else 0) + 1
  | _ => 0

theorem height_pos (e : Expr) : 0 < e.height := by
  cases e <;> simp [Expr.height]

theorem spine_lt_height : (e : Expr) → spine e < e.height
  | .binary op left right => by
    have := spine_lt_height left
    simp only [spine, Expr.height]
    split <;> omega
  | .index object index => by
    have := spine_lt_height object
    simp only [spine, Expr.height]
    split <;> omega
  | .property object name => by
    have := spine_lt_height object
    simp only [spine, Expr.height]
    split <;> omega
  | .assign _ _ => height_pos _
  | .unary _ _ => height_pos _
  | .call _ _ => height_pos _
  | .ident _ => height_pos _
  | .number _ => height_pos _
  | .string _ => height_pos _
  | .boolean _ => height_pos _
  | .array _ => height_pos _

/-- With room for an expression, the loop it is part of has a turn left after it. -/
theorem turn_left {e : Expr} {room : Nat} (h : 2 * e.height ≤ room) (looped : Prop)
    [Decidable looped] : 0 < room - if looped then spine e else 0 := by
  have hpos := height_pos e
  have hspine := spine_lt_height e
  split <;> omega

/-- What the parser of its own place still does once an expression has been read. -/
def tail (room : Nat) (e : Expr) : Parser Expr :=
  match e with
  | .assign _ _ => pure e
  | .binary op _ _ => chain op.tier (reader room (op.tier.place + 1)) (room - spine e) e
  | .unary _ _ => pure e
  | _ => suffixes (expression room) (room - spine e) e

/-- The next token may hold the expression in this place, and in tighter ones. -/
def reach : Expr → Nat
  | .assign _ _ => 1
  | e => e.place + 1

theorem reach_eq {e : Expr} (h : 2 ≤ e.place) : reach e = e.place + 1 := by
  cases e with
  | assign target value => exact absurd h (Nat.not_succ_le_self 1)
  | _ => rfl

theorem place_le_reach (e : Expr) : e.place ≤ reach e := by
  cases e <;> simp [reach, Expr.place]

theorem takes_tail (room : Nat) (e : Expr) :
    Takes fits (tail room e) [] (Follows e.place) (pure e) := by
  cases e with
  | assign target value => exact .refl
  | unary op operand => exact .refl
  | binary op left right => exact takes_chain_nil op.tier _ _ _
  | _ => exact takes_suffixes_nil _ _ _

theorem tail_of_place_eq {room : Nat} {e : Expr} (h : e.place = 8) :
    tail room e = suffixes (expression room) (room - spine e) e := by
  cases e with
  | assign target value => cases h
  | unary op operand => cases h
  | binary op left right =>
    have hhigh := op.tier.place_le
    rw [Expr.place] at h
    omega
  | _ => rfl

theorem tail_of_place_eq_tier {room : Nat} {e : Expr} {tier : Tier} (h : e.place = tier.place) :
    tail room e = chain tier (reader room (tier.place + 1)) (room - spine e) e := by
  have hlow := tier.place_pos
  have hhigh := tier.place_le
  cases e with
  | binary op left right =>
    obtain rfl := Tier.eq_of_place_eq h
    rfl
  | _ =>
    simp only [Expr.place] at h
    omega

/-- **What is carried through the induction**: the parser of its own place comes to the point where
the expression has been read. -/
def Readable (e : Expr) : Prop :=
  ∀ room, Takes (2 * e.height ≤ room + 1) (reader room e.place) e.kinds (Follows (reach e))
    (tail room e)

namespace Readable

variable {e : Expr} {room place : Nat}

theorem here (h : Readable e) :
    Takes (2 * e.height ≤ room + 1) (reader room e.place) e.kinds (Follows e.place) (pure e) := by
  simpa using (h room).trans (takes_tail room e) fun next hnext => hnext.mono (place_le_reach e)

theorem plain (h : Readable e) (hpos : 1 ≤ place) (hplace : place ≤ e.place) :
    Takes (2 * e.height ≤ room + 1) (reader room place) e.kinds (Follows place) (pure e) :=
  takes_loosest hpos hplace e.place_le (starts_kinds e) h.here

theorem whole (h : Readable e) :
    Takes (2 * e.height ≤ room) (expression room) e.kinds (Follows 1) (pure e) := by
  cases room with
  | zero =>
    rw [expression]
    exact .tooDeep (Nat.not_le.mpr (Nat.mul_pos (by decide) (height_pos e)))
  | succ room =>
    rw [expression_succ]
    exact h.plain (Nat.le_refl 1) e.place_pos

/-- An expression in parentheses is a primary one. -/
theorem parens (h : Readable e) :
    Takes (2 * e.height ≤ room) (reader room 8)
      (.mark .leftParen :: (e.kinds ++ [.mark .rightParen])) (Follows 9)
      (suffixes (expression room) room e) := by
  rw [reader_suffixed]
  refine .into (.look looks_peekKind? (some (.mark .leftParen)) (fun _ _ => rfl) ?_) _
  exact .advance _ (h.whole.seq (.expect _ .refl) fun _ _ => follows_some (by decide))

theorem inPlace (h : Readable e) (hpos : 1 ≤ place) (hplace : place ≤ 8) :
    Takes (2 * e.height ≤ room) (reader room place) (e.inPlace place e.kinds) (Follows place)
      (pure e) := by
  rw [Expr.inPlace]
  split
  · have hclosed := h.parens.trans (takes_suffixes_nil (expression room) room e)
      fun next hnext => hnext.mono (by decide)
    rw [List.append_nil] at hclosed
    exact takes_loosest hpos hplace (Nat.le_refl 8) ⟨_, rfl, rfl, fun _ => rfl⟩ hclosed
  · exact (h.plain hpos (by omega)).weaken Nat.le_succ_of_le

/-- The left operand of an operator, up to the point in the loop where the operator is read. -/
theorem left (h : Readable e) (tier : Tier) :
    Takes (2 * e.height ≤ room) (reader room tier.place) (e.inPlace tier.place e.kinds)
      (Follows (tier.place + 1))
      (chain tier (reader room (tier.place + 1))
        (room - if e.place = tier.place then spine e else 0) e) := by
  have hlow := tier.place_pos
  have hhigh := tier.place_le
  rcases Nat.lt_trichotomy e.place tier.place with hlt | heq | hgt
  · have hnext : Takes (2 * e.height ≤ room) (reader room (tier.place + 1))
        (e.inPlace (tier.place + 1) e.kinds) (Follows (tier.place + 1)) (pure e) :=
      h.inPlace (by omega) (by omega)
    rw [Expr.inPlace, if_pos (by omega)] at hnext
    rw [if_neg (by omega), Expr.inPlace, if_pos hlt]
    exact takes_tier tier hnext
  · -- The operand is a chain of the same tier, so the loop is already under way.
    have hown := h room
    rw [tail_of_place_eq_tier heq, reach_eq (by omega), heq] at hown
    rw [if_pos heq, Expr.inPlace, if_neg (by omega)]
    exact hown.weaken Nat.le_succ_of_le
  · rw [if_neg (by omega), Expr.inPlace, if_neg (by omega)]
    refine takes_tier tier ?_
    exact (h.plain (by omega) hgt).weaken Nat.le_succ_of_le

theorem operand (h : Readable e) :
    Takes (2 * e.height + 1 ≤ room) (operand room) (e.inPlace 7 e.kinds) (Follows 7) (pure e) := by
  cases room with
  | zero =>
    rw [Parser.operand]
    exact .tooDeep (Nat.not_succ_le_zero _)
  | succ room =>
    rw [operand_succ]
    exact (h.inPlace (by decide) (by decide)).weaken Nat.le_of_succ_le_succ

/-- The object of a suffix, up to the point in the loop where the suffix is read. -/
theorem object (h : Readable e) :
    Takes (2 * e.height ≤ room) (reader room 8) (e.inPlace 8 e.kinds) (Follows 9)
      (suffixes (expression room) (room - if e.place = 8 then spine e else 0) e) := by
  have hhigh := e.place_le
  by_cases heq : e.place = 8
  · have hown := h room
    rw [tail_of_place_eq heq, reach_eq (by omega), heq] at hown
    rw [if_pos heq, Expr.inPlace, if_neg (by omega)]
    exact hown.weaken Nat.le_succ_of_le
  · rw [if_neg heq, Expr.inPlace, if_pos (by omega)]
    exact h.parens

end Readable

/-! ### Every expression -/

/-- A primary expression is not the start of a loop of its own. -/
theorem readable_of_primary {e : Expr} (hplace : e.place = 8) (hspine : spine e = 0)
    (h : ∀ room, Takes (2 * e.height ≤ room + 1) (primary (expression room)) e.kinds (Follows 9)
      (pure e)) : Readable e := by
  intro room
  rw [tail_of_place_eq hplace, reach_eq (by omega), hplace, hspine, Nat.sub_zero]
  exact (h room).into _

theorem takes_name {room : Nat} (name : String) :
    Takes fits (primary (expression room)) [.identifier name] (Follows 9)
      (pure (nameExpr name)) := by
  refine .look looks_peekKind? (some (.identifier name)) (fun _ _ => rfl) ?_
  exact .advance _ (.look (looks_nextIs _) false (fun _ h => h.not_call) .refl)

theorem exprsKinds_eq_map (es : List Expr) : exprsKinds es = es.map Expr.kinds := by
  induction es with
  | nil => rfl
  | cons e others ih => rw [exprsKinds, ih, List.map_cons]

theorem height_le_exprsHeight {e : Expr} {es : List Expr} (h : e ∈ es) :
    e.height ≤ exprsHeight es := by
  induction es with
  | nil => cases h
  | cons first others ih =>
    rw [exprsHeight]
    rcases List.mem_cons.mp h with rfl | h
    · omega
    · have := ih h
      omega

/-- Expressions between commas, up to a closing mark. -/
theorem takes_items {room : Nat} (close : Mark) {es : List Expr} (hes : ∀ e ∈ es, Readable e)
    (hfits : fits → 2 * exprsHeight es ≤ room) (hclose : grip (.mark close) = 0)
    (hstart : startsExpr (.mark close) = false) (hne : close ≠ .comma) :
    Takes fits (items close (expression room)) (commaKinds (exprsKinds es))
      (· = some (.mark close)) (pure es) := by
  have hcomma : Follows 1 (some (.mark .comma)) := follows_some (by decide)
  have hcloses : Follows 1 (some (.mark close)) := follows_some (by rw [hclose]; decide)
  rw [exprsKinds_eq_map]
  refine .items close (fun e he => ?_) (fun e he => ?_) hcomma hcloses hne
  · refine (hes e he).whole.weaken fun h => ?_
    have := height_le_exprsHeight he
    have := hfits h
    omega
  · obtain ⟨kind, hkind, hstarts, -⟩ := starts_kinds e
    refine ⟨kind, hkind, ?_⟩
    rintro rfl
    rw [hstart] at hstarts
    cases hstarts

theorem takes_arguments {room : Nat} {es : List Expr} (hes : ∀ e ∈ es, Readable e)
    (hfits : fits → 2 * exprsHeight es ≤ room) {follow : Option Token.Kind → Prop} :
    Takes fits (arguments (expression room))
      (.mark .leftParen :: (commaKinds (exprsKinds es) ++ [.mark .rightParen])) follow
      (pure es) :=
  .expect _ ((takes_items .rightParen hes hfits rfl rfl (by decide)).seq (.expect _ .refl)
    fun _ _ => rfl)

theorem readable_call (callee : String) {arguments : List Expr}
    (h : ∀ e ∈ arguments, Readable e) : Readable (.call callee arguments) := by
  refine readable_of_primary rfl rfl fun room => ?_
  have hfits : 2 * (Expr.call callee arguments).height ≤ room + 1 →
      2 * exprsHeight arguments ≤ room := by
    rw [Expr.height]
    omega
  rw [Expr.kinds, calleeKind]
  split
  · next hlog =>
    subst hlog
    refine .look looks_peekKind? (some .consoleLog) (fun _ _ => rfl) ?_
    exact .advance _ ((takes_arguments h hfits).into _)
  · refine .look looks_peekKind? (some (.identifier callee)) (fun _ _ => rfl) ?_
    refine .advance _ (.look (looks_nextIs _) true (fun _ _ => decide_eq_true rfl) ?_)
    exact (takes_arguments h hfits).into _

theorem readable_array {elements : List Expr} (h : ∀ e ∈ elements, Readable e) :
    Readable (.array elements) := by
  refine readable_of_primary rfl rfl fun room => ?_
  have hfits : 2 * (Expr.array elements).height ≤ room + 1 → 2 * exprsHeight elements ≤ room := by
    rw [Expr.height]
    omega
  rw [Expr.kinds]
  refine .look looks_peekKind? (some (.mark .leftBracket)) (fun _ _ => rfl) (.advance _ ?_)
  exact (takes_items .rightBracket h hfits rfl rfl (by decide)).seq (.expect _ .refl) fun _ _ => rfl

section Composite

variable {left right target value inner object index : Expr}

/-- A left operand of the same tier leaves one turn of the loop less. -/
theorem readable_binary (op : BinaryOp) (hleft : Readable left) (hright : Readable right) :
    Readable (.binary op left right) := by
  intro room
  have hlow := op.tier.place_pos
  have hhigh := op.tier.place_le
  have hfits : 2 * (Expr.binary op left right).height ≤ room + 1 →
      2 * left.height ≤ room ∧ 2 * right.height ≤ room := by
    rw [Expr.height]
    omega
  have hfirst := (hleft.left op.tier).weaken fun h => (hfits h).1
  have hsecond : Takes _ (reader room (op.tier.place + 1)) _ _ (pure right) :=
    (hright.inPlace (by omega) (by omega)).weaken fun h => (hfits h).2
  have hloop := hfirst.trans
    (takes_chain_cons op left (fun h => turn_left (hfits h).1 _) hsecond) fun _ _ =>
      follows_some (by rw [grip_mark]; exact Nat.lt_succ_self _)
  -- The operator takes the turn that `spine` counts for it.
  rw [Nat.sub_sub] at hloop
  rw [Expr.kinds]
  exact hloop

theorem Follows.of_eight {next : Option Token.Kind} (h : Follows 8 next) : Follows 7 next := by
  intro kind hkind
  have := h kind hkind
  have := grip_ne_seven kind
  omega

theorem readable_unary (op : UnaryOp) (h : Readable inner) : Readable (.unary op inner) := by
  intro room
  have hop : UnaryOp.ofMark? op.mark = some op := by cases op <;> rfl
  have hinner : Takes (2 * (Expr.unary op inner).height ≤ room + 1) (operand room)
      (inner.inPlace 7 inner.kinds) (Follows 8) (pure inner) :=
    h.operand.mono (by rw [Expr.height]; omega) fun _ hnext => hnext.of_eight
  refine .look looks_peekMark? (some op.mark) (fun _ _ => rfl) ?_
  simp only [Option.bind_some, hop]
  exact .advance _ (hinner.into _)

theorem readable_index (hobject : Readable object) (hindex : Readable index) :
    Readable (.index object index) := by
  intro room
  have hfits : 2 * (Expr.index object index).height ≤ room + 1 →
      2 * object.height ≤ room ∧ 2 * index.height ≤ room := by
    rw [Expr.height]
    omega
  have hfirst := hobject.object.weaken fun h => (hfits h).1
  have hsecond := hindex.whole.weaken fun h => (hfits h).2
  have hloop := hfirst.trans
    (takes_suffixes_index object (fun h => turn_left (hfits h).1 _) hsecond) fun _ _ =>
      follows_some (by decide)
  rw [Nat.sub_sub] at hloop
  rw [Expr.kinds]
  exact hloop

theorem readable_property (name : String) (hobject : Readable object) :
    Readable (.property object name) := by
  intro room
  have hfits : 2 * (Expr.property object name).height ≤ room + 1 → 2 * object.height ≤ room := by
    rw [Expr.height]
    omega
  have hfirst := hobject.object.weaken hfits
  have hloop := hfirst.trans
    (takes_suffixes_property object name fun h => turn_left (hfits h) _) fun _ _ =>
      follows_some (by decide)
  rw [Nat.sub_sub] at hloop
  rw [Expr.kinds]
  exact hloop

/-- The target is checked when the value has been read. -/
theorem readable_assign (hisTarget : target.isTarget) (htarget : Readable target)
    (hvalue : Readable value) : Readable (.assign target value) := by
  intro room
  have hfits : 2 * (Expr.assign target value).height ≤ room + 1 →
      2 * target.height ≤ room ∧ 2 * value.height ≤ room := by
    rw [Expr.height]
    omega
  have hfirst : Takes _ (reader room 2) _ _ (pure target) :=
    (htarget.inPlace (by decide) (by decide)).weaken fun h => (hfits h).1
  have hsecond := hvalue.whole.weaken fun h => (hfits h).2
  rw [Expr.kinds]
  refine hfirst.seq ?_ fun _ _ => follows_some (by decide)
  -- The parser keeps the `=` for a complaint about the target, so it looks at the whole token.
  intro tokens rest htokens hrest
  obtain ⟨⟨kind, span⟩, others, rfl, rfl, hothers⟩ := List.map_eq_cons_iff.mp htokens
  have hread := hsecond.into (fun right => if target.isTarget then
    pure (Expr.assign target right) else throw (.invalidTarget span))
  rw [if_pos hisTarget] at hread
  exact hread others rest hothers hrest

end Composite

mutual

/-- **Every printable expression is read back.** -/
theorem readable (e : Expr) (he : e.isPrintable) : Readable e := by
  cases e with
  | assign target value =>
    simp only [Expr.isPrintable, Bool.and_eq_true] at he
    exact readable_assign he.1.1 (readable target he.1.2) (readable value he.2)
  | binary op left right =>
    simp only [Expr.isPrintable, Bool.and_eq_true] at he
    exact readable_binary op (readable left he.1) (readable right he.2)
  | unary op operand => exact readable_unary op (readable operand he)
  | call callee arguments => exact readable_call callee (readable_all arguments he)
  | ident name =>
    simp only [Expr.isPrintable, Bool.and_eq_true, bne_iff_ne] at he
    refine readable_of_primary rfl rfl fun room => ?_
    have hread : Takes (2 * (Expr.ident name).height ≤ room + 1) (primary (expression room))
        [.identifier name] (Follows 9) (pure (nameExpr name)) := takes_name name
    rw [nameExpr, if_neg he.1, if_neg he.2] at hread
    exact hread
  | number value =>
    refine readable_of_primary rfl rfl fun room => ?_
    exact .look looks_peekKind? (some (.number value)) (fun _ _ => rfl) (.advance _ .refl)
  | string raw =>
    refine readable_of_primary rfl rfl fun room => ?_
    exact .look looks_peekKind? (some (.string raw)) (fun _ _ => rfl) (.advance _ .refl)
  | boolean value =>
    refine readable_of_primary rfl rfl fun room => ?_
    cases value with
    | true => exact takes_name "true"
    | false => exact takes_name "false"
  | array elements => exact readable_array (readable_all elements he)
  | index object index =>
    simp only [Expr.isPrintable, Bool.and_eq_true] at he
    exact readable_index (readable object he.1) (readable index he.2)
  | property object name => exact readable_property name (readable object he)

theorem readable_all (es : List Expr) (hes : exprsPrintable es) : ∀ e ∈ es, Readable e := by
  cases es with
  | nil => exact nofun
  | cons e others =>
    simp only [exprsPrintable, Bool.and_eq_true] at hes
    exact List.forall_mem_cons.mpr ⟨readable e hes.1, readable_all others hes.2⟩

end

end Parser

end Offside
