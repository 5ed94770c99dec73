import Mathlib.Tactic.Ring
import Offside.Proofs.Parser.Leaves
import Offside.Proofs.Tree.Visits

/-!
# How deep a parsed script nests

The room that is left when an expression or a block is read bounds two things: the levels that may
still be opened, and the length of each chain of operators or of suffixes. A level with `room` below
it holds up to six chains one inside the other, five of operators and one of suffixes, and each of
them may have `room` links. So a path through the tree opens at most `nestingLimit` levels, but the
links of all chains on it come on top:

    linkLimit (room + 1) = 6 * room + linkLimit room,    linkLimit room = 3 * room * (room - 1)

* `gives_chain` and `gives_suffixes`: a chain adds as many links as there is room.
* `gives_expression_operand` and `gives_block_elseIf`, by induction on the room: an expression, an
  operand or a block stays within `room` levels and `linkLimit room` links.
* `levels_links_of_parse` is the main statement, and `exists_path_longer_than_nestingLimit` shows
  that the limit does not bound the paths themselves.
* `height_of_parse` draws the conclusion for what is done with a script: however many tokens it has,
  it is checked and laid out with a number of open visits that is fixed by the limit alone.
-/

namespace Offside

/-- How many links a path through what is read with so much room can have. -/
def linkLimit : Nat → Nat
  | 0 => 0
  | room + 1 => 6 * room + linkLimit room

theorem linkLimit_eq (room : Nat) : linkLimit room = 3 * room * (room - 1) := by
  induction room with
  | zero => rfl
  | succ room ih =>
    rw [linkLimit, ih, Nat.add_sub_cancel]
    cases room with
    | zero => rfl
    | succ below =>
      rw [Nat.add_sub_cancel]
      ring

namespace Parser

variable {α : Type} {levels links : Nat}

/-- Every value that the parser gives `holds`. -/
abbrev Gives (p : Parser α) (holds : α → Prop) : Prop :=
  Reads (fun _ => True) p holds

theorem Gives.mono {p : Parser α} {holds holds' : α → Prop} (h : Gives p holds)
    (himp : ∀ value, holds value → holds' value) : Gives p holds' := by
  intro tokens value rest htokens hp
  obtain ⟨hvalue, hrest⟩ := h tokens value rest htokens hp
  exact ⟨himp value hvalue, hrest⟩

/-! ### Chains -/

/-- The paths of the expression are bounded; those of one that can be assigned to have a bound on
their links of their own. -/
structure Fits (levels links targetLinks : Nat) (e : Expr) : Prop where
  within : Within levels links e.paths
  target : e.isTarget → Within levels targetLinks e.paths

/-- An operator adds a link. -/
theorem within_binary (op : BinaryOp) {left right : Expr} (hleft : Within levels links left.paths)
    (hright : Within levels links right.paths) :
    Within levels (links + 1) (Expr.binary op left right).paths := by
  rw [Expr.paths]
  exact (hleft.along_link rfl).append (hright.along_link rfl)

/-- A chain adds at most as many links as there is room. What can be assigned to is no chain. -/
theorem gives_chain (tier : Tier) {operand : Parser Expr} {base targetLinks : Nat}
    (hoperand : Gives operand (Fits levels base targetLinks)) :
    (room used : Nat) → (left : Expr) → Fits levels (base + used) targetLinks left →
      Gives (chain tier operand room left) (Fits levels (base + (used + room)) targetLinks)
  | 0, used, left, hleft => by
    refine reads_peekKind?.bind fun kind? _ => ?_
    split
    · exact reads_tooDeep
    · exact reads_pure hleft
  | room + 1, used, left, hleft => by
    refine reads_peekKind?.bind fun kind? _ => ?_
    split
    · next op _ =>
      refine reads_advance.bind fun _ _ => hoperand.bind fun right hright => ?_
      have hright := hright.within.mono (Nat.le_refl _) (Nat.le_add_right base used)
      have hnext := gives_chain tier hoperand room (used + 1) (.binary op left right)
        ⟨within_binary op hleft.within hright, nofun⟩
      rwa [Nat.add_assoc, Nat.add_comm 1 room] at hnext
    · refine reads_pure ⟨hleft.within.mono (Nat.le_refl _) ?_, hleft.target⟩
      exact Nat.add_le_add_left (Nat.le_add_right used (room + 1)) base

/-- Each tier adds a chain. -/
theorem gives_tiers (room : Nat) {operand : Parser Expr} {base targetLinks : Nat}
    (hoperand : Gives operand (Fits levels base targetLinks)) :
    (tierList : List Tier) →
      Gives (tiers room operand tierList)
        (Fits levels (base + tierList.length * room) targetLinks)
  | [] => by simpa [tiers] using hoperand
  | tier :: tighter => by
    have htighter := gives_tiers room hoperand tighter
    have hsum : base + (tier :: tighter).length * room =
        base + tighter.length * room + (0 + room) := by
      rw [List.length_cons]
      ring
    rw [hsum]
    exact htighter.bind fun left hleft => gives_chain tier htighter room 0 left hleft

/-- Suffixes add at most as many links as there is room. What stands in brackets opens a level. -/
theorem gives_suffixes {expression : Parser Expr} {base : Nat}
    (h : Gives expression fun e => Within levels base e.paths) :
    (room used : Nat) → (object : Expr) → Within (levels + 1) (base + used) object.paths →
      Gives (suffixes expression room object) fun e =>
        Within (levels + 1) (base + (used + room)) e.paths
  | 0, used, object, hobject => by
    refine reads_peekMark?.bind fun mark? _ => ?_
    split
    · exact reads_tooDeep
    · exact reads_tooDeep
    · exact reads_pure hobject
  | room + 1, used, object, hobject => by
    have hlink : Within (levels + 1) (base + (used + 1)) (along .object object.paths) :=
      hobject.along_link rfl
    refine reads_peekMark?.bind fun mark? _ => ?_
    rw [show used + (room + 1) = used + 1 + room by omega]
    split
    · refine reads_advance.bind fun _ _ => reads_identifier.bind fun name _ =>
        (reads_nextIs _).bind fun called _ => ?_
      split
      · exact reads_unexpected _
      · refine gives_suffixes h room (used + 1) (.property object name) ?_
        rw [Expr.paths]
        exact hlink
    · refine reads_advance.bind fun _ _ => h.bind fun index hindex =>
        (reads_expect _).bind fun _ _ => gives_suffixes h room (used + 1) (.index object index) ?_
      have hindex : Within (levels + 1) (base + (used + 1)) (along .index index.paths) :=
        (hindex.along_level rfl).mono (Nat.le_refl _) (Nat.le_add_right base (used + 1))
      rw [Expr.paths]
      exact hlink.append hindex
    · exact reads_pure (hobject.mono (Nat.le_refl _) (by omega))

/-! ### Expressions -/

theorem gives_signed {operand plain : Parser Expr} {base : Nat}
    (hoperand : Gives operand fun e => Within levels base e.paths)
    (hplain : Gives plain fun e => Within (levels + 1) links e.paths) (hle : base ≤ links) :
    Gives (signed operand plain) fun e => Within (levels + 1) links e.paths := by
  refine reads_peekMark?.bind fun mark? _ => ?_
  split
  · refine reads_advance.bind fun _ _ => hoperand.bind fun e he => reads_pure ?_
    rw [Expr.paths]
    exact (he.along_level rfl).mono (Nat.le_refl _) hle
  · exact hplain

theorem within_nameExpr (name : String) : Within levels links (nameExpr name).paths := by
  unfold nameExpr
  split
  · exact within_leaf
  · split
    · exact within_leaf
    · exact within_leaf

/-- Arguments and elements open a level; an expression in parentheses is inside a level, too, but
leaves no trace in the tree. -/
theorem gives_primary {expression : Parser Expr}
    (h : Gives expression fun e => Within levels links e.paths) :
    Gives (primary expression) fun e => Within (levels + 1) links e.paths := by
  have hcall (callee : String) (es : List Expr) (hes : ∀ e ∈ es, Within levels links e.paths) :
      Within (levels + 1) links (Expr.call callee es).paths := by
    rw [Expr.paths]
    exact (within_exprs hes).into rfl
  have harguments : Gives (arguments expression) fun es =>
      ∀ e ∈ es, Within levels links e.paths :=
    (reads_expect _).bind fun _ _ => (reads_items _ h).bind fun _ hes =>
      (reads_expect _).bind fun _ _ => reads_pure hes
  refine reads_peekKind?.bind fun kind? _ => ?_
  split
  · exact reads_advance.bind fun _ _ => reads_pure within_leaf
  · exact reads_advance.bind fun _ _ => reads_pure within_leaf
  · refine reads_advance.bind fun _ _ => (reads_nextIs _).bind fun called _ => ?_
    split
    · exact harguments.bind fun es hes => reads_pure (hcall _ es hes)
    · exact reads_pure (within_nameExpr _)
  · exact reads_advance.bind fun _ _ => harguments.bind fun es hes => reads_pure (hcall _ es hes)
  · refine reads_advance.bind fun _ _ => (reads_items _ h).bind fun es hes =>
      (reads_expect _).bind fun _ _ => reads_pure ?_
    rw [Expr.paths]
    exact (within_exprs hes).into rfl
  · exact reads_advance.bind fun _ _ => h.bind fun e he => (reads_expect _).bind fun _ _ =>
      reads_pure (he.mono (Nat.le_add_right _ _) (Nat.le_refl _))
  · exact reads_unexpected _

/-- An expression with so much room has some, and its paths are bounded by it. -/
def InRoom (room : Nat) (e : Expr) : Prop :=
  0 < room ∧ Within room (linkLimit room) e.paths

theorem gives_suffixed {room : Nat} {expression : Parser Expr}
    (h : Gives expression (InRoom room)) :
    Gives (suffixed room expression) fun e =>
      Within (room + 1) (linkLimit room + room) e.paths := by
  have hwithin := h.mono fun _ he => he.2
  refine (gives_primary hwithin).bind fun object hobject => ?_
  have hsuffixes := gives_suffixes hwithin room 0 object hobject
  rwa [Nat.zero_add] at hsuffixes

theorem gives_assignment {room : Nat} {target value : Parser Expr}
    (htarget : Gives target
      (Fits (room + 1) (linkLimit (room + 1)) (linkLimit room + room)))
    (hvalue : Gives value (InRoom room)) :
    Gives (assignment target value) (InRoom (room + 1)) := by
  refine htarget.bind fun left hleft => reads_peek?.bind fun token? _ => ?_
  split
  · refine reads_advance.bind fun _ _ => hvalue.bind fun right hright => ?_
    obtain ⟨hroom, hright⟩ := hright
    split
    · next hassignable =>
      -- A value was read, so there is room for the link to what it is assigned to.
      have hlinks : linkLimit room + room + 1 ≤ linkLimit (room + 1) := by
        rw [linkLimit]
        omega
      have hless : linkLimit room ≤ linkLimit (room + 1) := by omega
      refine reads_pure ⟨Nat.succ_pos _, ?_⟩
      rw [Expr.paths]
      exact (((hleft.target hassignable).along_link rfl).mono (Nat.le_refl _) hlinks).append
        ((hright.along_level rfl).mono (Nat.le_refl _) hless)
    · exact reads_throw _
  · exact reads_pure ⟨Nat.succ_pos _, hleft.within⟩

/-- By induction on the room: what is inside an expression or an operand has less of it. -/
theorem gives_expression_operand : (room : Nat) →
    Gives (expression room) (InRoom room) ∧ Gives (operand room) (InRoom room)
  | 0 => by
    rw [expression, operand]
    exact ⟨reads_tooDeep, reads_tooDeep⟩
  | room + 1 => by
    obtain ⟨hexpression, hoperand⟩ := gives_expression_operand room
    have hsigned := gives_signed (hoperand.mono fun _ he => he.2) (gives_suffixed hexpression)
      (Nat.le_add_right _ _)
    have hsum : linkLimit room + room + Tier.all.length * room = linkLimit (room + 1) := by
      have hfive : Tier.all.length = 5 := rfl
      rw [linkLimit, hfive]
      omega
    have htiers := gives_tiers room (hsigned.mono fun _ he => ⟨he, fun _ => he⟩) Tier.all
    rw [hsum] at htiers
    rw [expression, operand]
    refine ⟨gives_assignment htiers hexpression, hsigned.mono fun e he => ?_⟩
    exact ⟨Nat.succ_pos _, he.mono (Nat.le_refl _) (by rw [← hsum]; exact Nat.le_add_right _ _)⟩

theorem gives_expression (room : Nat) :
    Gives (expression room) fun e => Within room (linkLimit room) e.paths :=
  (gives_expression_operand room).1.mono fun _ he => he.2

/-! ### Statements -/

/-- However a block is entered, the paths into it are bounded. -/
def BlockWithin (levels links : Nat) (body : List Stmt) : Prop :=
  ∀ passage : Passage, passage.opensLevel → Within levels links (into passage (stmtsPaths body))

section Statement

variable {expression : Parser Expr} {block : Parser (List Stmt)} {elseIf : Parser Stmt}
  (h : Gives expression fun e => Within levels links e.paths)

include h

theorem gives_declaration :
    Gives (declaration expression) fun d => Within levels links d.paths := by
  refine reads_peekKind?.bind fun kind? _ => ?_
  split
  · refine reads_advance.bind fun _ _ => reads_identifier.bind fun name _ =>
      (reads_accept _).bind fun assigned _ => ?_
    split
    · exact h.bind fun e he => reads_pure he
    · exact reads_pure within_leaf
  · exact reads_unexpected _

theorem gives_condition :
    Gives (condition expression) fun e => Within levels links e.paths :=
  (reads_expect _).bind fun _ _ => h.bind fun _ he =>
    (reads_expect _).bind fun _ _ => reads_pure he

theorem gives_giveBack : Gives (giveBack expression) fun s => Within levels links s.paths := by
  refine reads_advance.bind fun _ _ => reads_peekKind?.bind fun kind? _ => ?_
  split
  · exact reads_pure within_leaf
  · exact (reads_skip _).bind fun _ _ => reads_pure within_leaf
  · exact reads_pure within_leaf
  · exact h.bind fun e he => (reads_skip _).bind fun _ _ => reads_pure he

variable (hblock : Gives block (BlockWithin levels links))

include hblock

theorem gives_branch (helseIf : Gives elseIf fun s => BlockWithin levels links [s]) :
    Gives (branch expression block elseIf) fun s => Within levels links s.paths := by
  refine reads_advance.bind fun _ _ => (gives_condition h).bind fun test htest =>
    hblock.bind fun yes hyes => (reads_nextIs _).bind fun more _ => ?_
  split
  · refine reads_advance.bind fun _ _ => (reads_nextIs _).bind fun again _ => ?_
    split
    · exact helseIf.bind fun s hs =>
        reads_pure (htest.append ((hyes .block rfl).append (hs .otherwise rfl)))
    · exact hblock.bind fun no hno =>
        reads_pure (htest.append ((hyes .block rfl).append (hno .otherwise rfl)))
  · exact reads_pure (htest.append (hyes .block rfl))

theorem gives_whileLoop :
    Gives (whileLoop expression block) fun s => Within levels links s.paths :=
  reads_advance.bind fun _ _ => (gives_condition h).bind fun _ htest =>
    hblock.bind fun _ hbody => reads_pure (htest.append (hbody .block rfl))

theorem gives_forLoop : Gives (forLoop expression block) fun s => Within levels links s.paths := by
  refine reads_advance.bind fun _ _ => (reads_expect _).bind fun _ _ =>
    (gives_declaration h).bind fun init hinit => (reads_expect _).bind fun _ _ =>
    h.bind fun test htest => (reads_expect _).bind fun _ _ => h.bind fun update hupdate =>
    (reads_expect _).bind fun _ _ => hblock.bind fun body hbody => reads_pure ?_
  exact hinit.append (htest.append (hupdate.append (hbody .block rfl)))

omit h in
theorem gives_function : Gives (function block) fun s => Within levels links s.paths := by
  refine reads_advance.bind fun _ _ => reads_identifier.bind fun name _ =>
    (reads_expect _).bind fun _ _ => (reads_nextIs _).bind fun empty _ => ?_
  have hafter (params : List String) (_ : ∀ param ∈ params, True) :
      Gives (do expect .rightParen; return Stmt.function name params (← block)) fun s =>
        Within levels links s.paths :=
    (reads_expect _).bind fun _ _ => hblock.bind fun body hbody => reads_pure (hbody .block rfl)
  dsimp only
  split
  · exact (reads_pure nofun).bind hafter
  · exact (reads_separated reads_identifier).bind hafter

theorem gives_statementWith (helseIf : Gives elseIf fun s => BlockWithin levels links [s]) :
    Gives (statementWith expression block elseIf) fun s => Within levels links s.paths := by
  refine reads_peekKind?.bind fun kind? _ => ?_
  split
  · exact (gives_declaration h).bind fun d hd => (reads_skip _).bind fun _ _ => reads_pure hd
  · exact gives_whileLoop h hblock
  · exact gives_forLoop h hblock
  · exact gives_branch h hblock helseIf
  · exact gives_function hblock
  · exact gives_giveBack h
  · exact reads_advance.bind fun _ _ => (reads_skip _).bind fun _ _ => reads_pure within_leaf
  · exact reads_advance.bind fun _ _ => (reads_skip _).bind fun _ _ => reads_pure within_leaf
  · exact h.bind fun e he => (reads_skip _).bind fun _ _ => reads_pure he

end Statement

/-- A block is one level more than the statements in it. -/
theorem blockWithin_of_stmts {room : Nat} {body : List Stmt}
    (h : ∀ s ∈ body, Within room (linkLimit room) s.paths) :
    BlockWithin (room + 1) (linkLimit (room + 1)) body := by
  intro passage hopens
  refine ((within_stmts h).into hopens).mono (Nat.le_refl _) ?_
  rw [linkLimit]
  exact Nat.le_add_left _ _

theorem gives_block_elseIf (room : Nat) :
    Gives (block room) (BlockWithin room (linkLimit room)) ∧
      Gives (elseIf room) fun s => BlockWithin room (linkLimit room) [s] := by
  induction room with
  | zero =>
    rw [block, elseIf]
    exact ⟨(reads_expect _).bind fun _ _ => reads_tooDeep, reads_tooDeep⟩
  | succ room ih =>
    obtain ⟨hblock, helseIf⟩ := ih
    have hexpression := gives_expression room
    rw [block, elseIf]
    constructor
    · refine (reads_expect _).bind fun _ _ => (reads_many ?_).bind fun body hbody =>
        (reads_expect _).bind fun _ _ => reads_pure (blockWithin_of_stmts hbody)
      refine (reads_atClose _).bind fun closed _ => ?_
      split
      · exact reads_pure fun _ h => by cases h
      · exact (gives_statementWith hexpression hblock helseIf).bind fun s hs =>
          reads_pure fun _ h => by cases h; exact hs
    · exact (gives_branch hexpression hblock helseIf).mono fun s hs =>
        blockWithin_of_stmts (List.forall_mem_singleton.mpr hs)

theorem gives_program :
    Gives program fun program => Within nestingLimit (linkLimit nestingLimit) program.paths := by
  refine (reads_many ?_).bind fun body hbody => reads_pure (within_stmts hbody)
  refine reads_atEnd.bind fun ended _ => ?_
  split
  · exact reads_pure fun _ h => by cases h
  · obtain ⟨hblock, helseIf⟩ := gives_block_elseIf nestingLimit
    exact (gives_statementWith (gives_expression nestingLimit) hblock helseIf).bind
      fun s hs => reads_pure fun _ h => by cases h; exact hs

end Parser

theorem within_of_parse {tokens : List Token} {program : Program}
    (h : parse tokens = .ok program) :
    Within nestingLimit (linkLimit nestingLimit) program.paths := by
  unfold parse at h
  split at h
  · next rest hprogram =>
    cases h
    exact (Parser.gives_program tokens _ rest (fun _ _ => trivial) hprogram).1
  · cases h

/-- **The limit bounds the levels of a script, not its depth.** No path through a parsed script
opens more levels than the limit allows, so one without links is no longer than that; but the links
of its chains are bounded only by about three times the square of the limit. -/
theorem levels_links_of_parse {tokens : List Token} {program : Program}
    (h : parse tokens = .ok program) :
    ∀ path ∈ program.paths,
      path.levels ≤ nestingLimit ∧ path.links ≤ 3 * nestingLimit * (nestingLimit - 1) ∧
        (path.links = 0 → path.length ≤ nestingLimit) := by
  intro path hpath
  obtain ⟨hlevels, hlinks⟩ := within_of_parse h path hpath
  rw [linkLimit_eq] at hlinks
  refine ⟨hlevels, hlinks, fun hnone => ?_⟩
  rw [Path.length_eq, hnone]
  exact hlevels

/-- Levels and links on one path: `while (a[-b]) { f([c * d.e]) }`. -/
theorem levels_links_of_parse_of_mixed :
    let kinds : List Token.Kind :=
      [.keyword .whileLoop, .mark .leftParen, .identifier "a", .mark .leftBracket, .mark .minus,
        .identifier "b", .mark .rightBracket, .mark .rightParen, .mark .leftBrace, .identifier "f",
        .mark .leftParen, .mark .leftBracket, .identifier "c", .mark .star, .identifier "d",
        .mark .dot, .identifier "e", .mark .rightBracket, .mark .rightParen, .mark .rightBrace]
    let program : Program := ⟨[.whileLoop (.index (.ident "a") (.unary .neg (.ident "b")))
      [.expr (.call "f" [.array [.binary .mul (.ident "c") (.property (.ident "d") "e")]])]]⟩
    let path : Path := [.block, .arguments, .elements, .right, .object]
    parse (kinds.map fun kind => ⟨kind, .nowhere⟩) = .ok program ∧ path ∈ program.paths ∧
      path.levels ≤ nestingLimit ∧ path.links ≤ 3 * nestingLimit * (nestingLimit - 1) ∧
        (path.links = 0 → path.length ≤ nestingLimit) := by
  intro kinds program path
  have hparse : parse (kinds.map fun kind => ⟨kind, .nowhere⟩) = .ok program := by
    with_unfolding_all rfl
  have hpath : path ∈ program.paths := by decide
  exact ⟨hparse, hpath, levels_links_of_parse hparse path hpath⟩

/-- A product of 130 ones is the first term of a sum of 129, and neither chain is near the limit:
`1 * 1 * … * 1 + 1 + … + 1`. -/
def productInSum : List Token :=
  let factors := List.replicate 129 [Token.Kind.mark .star, .number 1]
  let terms := List.replicate 128 [Token.Kind.mark .plus, .number 1]
  (.number 1 :: (factors ++ terms).flatten).map fun kind => ⟨kind, .nowhere⟩

/-- The chains of two tiers add up: a script is read though it has a path of 257 constructs. -/
theorem exists_path_longer_than_nestingLimit :
    ∃ program, parse productInSum = .ok program ∧
      ∃ path ∈ program.paths, nestingLimit < path.length := by
  have hlong : (parse productInSum).toOption.any fun program =>
      program.paths.any fun path => nestingLimit < path.length := by
    decide +kernel
  cases hparse : parse productInSum with
  | error fault =>
    rw [hparse] at hlong
    cases hlong
  | ok program =>
    rw [hparse] at hlong
    obtain ⟨path, hpath, hlength⟩ := List.any_eq_true.mp hlong
    exact ⟨program, rfl, path, hpath, of_decide_eq_true hlength⟩

/-! ### Going through a parsed script -/

/-- The most constructs, one inside the other, that a script can have. -/
def heightLimit : Nat :=
  4 * (nestingLimit * nestingLimit)

theorem below_of_parse {tokens : List Token} {program : Program}
    (h : parse tokens = .ok program) : Below (heightLimit - 1) program.paths := by
  intro path hpath
  obtain ⟨hlevels, hlinks⟩ := within_of_parse h path hpath
  rw [linkLimit_eq] at hlinks
  rw [Path.length_eq]
  simp only [heightLimit, nestingLimit] at hlevels hlinks ⊢
  omega

/-- **The height of a script is fixed by the limit alone.** However many tokens have been read, no
path through the script passes through more than 262144 constructs, and no more visits than that are
ever open at once when its names are checked and when it is laid out. -/
theorem height_of_parse {tokens : List Token} {program : Program}
    (h : parse tokens = .ok program) :
    heightLimit = 262144 ∧ (∀ path ∈ program.paths, path.length ≤ heightLimit) ∧
      program.eventsWithin heightLimit = some program.events ∧
      program.linesWithin heightLimit = Limited.full program.lines := by
  have hbelow := below_of_parse h
  refine ⟨rfl, fun path hpath => ?_, Program.eventsWithin_eq hbelow, Program.linesWithin_eq hbelow⟩
  exact Nat.le_trans (Nat.le_of_lt (hbelow path hpath)) (Nat.sub_le _ _)

/-- Calls in arrays in a loop: `while (a) { f([g(b)]) }`. -/
theorem height_of_parse_of_calls :
    let kinds : List Token.Kind :=
      [.keyword .whileLoop, .mark .leftParen, .identifier "a", .mark .rightParen, .mark .leftBrace,
        .identifier "f", .mark .leftParen, .mark .leftBracket, .identifier "g", .mark .leftParen,
        .identifier "b", .mark .rightParen, .mark .rightBracket, .mark .rightParen,
        .mark .rightBrace]
    let program : Program := ⟨[.whileLoop (.ident "a")
      [.expr (.call "f" [.array [.call "g" [.ident "b"]]])]]⟩
    let path : Path := [.block, .arguments, .elements, .arguments]
    parse (kinds.map fun kind => ⟨kind, .nowhere⟩) = .ok program ∧ path ∈ program.paths ∧
      path.length ≤ heightLimit ∧ program.eventsWithin heightLimit = some program.events ∧
      program.linesWithin heightLimit = Limited.full program.lines := by
  intro kinds program path
  have hparse : parse (kinds.map fun kind => ⟨kind, .nowhere⟩) = .ok program := by
    with_unfolding_all rfl
  have hpath : path ∈ program.paths := by decide
  obtain ⟨-, hpaths, hvisits⟩ := height_of_parse hparse
  exact ⟨hparse, hpath, hpaths path hpath, hvisits⟩

end Offside
