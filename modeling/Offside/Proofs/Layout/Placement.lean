import Offside.Proofs.Layout.LeadingWord
import Offside.Scope.Event

/-!
# Where jumps and returns stand

Where a line stands can be told from the indentation alone. The lines around it, `enclosers`, are
found by going up: the nearest line that is less indented, the nearest one that is less indented
than that, and so on. A `break` or `continue` belongs to a loop if there is a `while` header among
them with no `def` header before it, and a `return` belongs to a function if there is a `def` header.

The events of a script say the same without any lines: each jump comes with whether it stands in a
loop, and each `return` with whether it stands in a function. `jumpsIn_stmtsLines` shows that **the
lines and the events agree**: the jumps and returns among the lines are those among the events, in
the same order and with the same flags.
-/

namespace Offside

/-! ### Lines around a line -/

namespace Line

/-- Is the line a header that starts with the given text? -/
def isHeaderOf (start : String) (line : Line) : Bool :=
  line.isHeader && start.toList.isPrefixOf line.text.toList

/-- Is the line the header of a loop? -/
def isLoop (line : Line) : Bool :=
  line.isHeaderOf "while "

/-- Is the line the header of a function? -/
def isFunction (line : Line) : Bool :=
  line.isHeaderOf "def "

/-- Is the line a `break` or a `continue`? -/
def isJump (line : Line) : Bool :=
  line.text = "break" || line.text = "continue"

/-- Is the line a `return`, with or without a value? -/
def isReturn (line : Line) : Bool :=
  line.text = "return" || "return ".toList.isPrefixOf line.text.toList

end Line

/-- The lines in whose suites a line at the given level stands, the innermost first, where `above`
are the lines above it, the nearest first. -/
def enclosers (level : Nat) : List Line → List Line
  | [] => []
  | line :: above =>
    if line.level < level then line :: enclosers line.level above else enclosers level above

/-- Is there a loop around, with no function in between? -/
def inLoop (around : List Line) : Bool :=
  (around.takeWhile fun line => !line.isFunction).any Line.isLoop

/-- Is there a function around? -/
def inFunction (around : List Line) : Bool :=
  around.any Line.isFunction

/-- A line and the lines around it. -/
structure Placed where
  line : Line
  around : List Line

/-- The lines with those around them, where `above` are the lines above all of them. -/
def placed (above : List Line) : List Line → List Placed
  | [] => []
  | line :: rest => ⟨line, enclosers line.level above⟩ :: placed (line :: above) rest

namespace Placed

/-- Is this a jump outside of all loops? -/
def isMisplacedJump (p : Placed) : Bool :=
  p.line.isJump && !inLoop p.around

/-- Is this a `return` outside of all functions? -/
def isMisplacedReturn (p : Placed) : Bool :=
  p.line.isReturn && !inFunction p.around

end Placed

/-- How many `break`s and `continue`s stand outside of all loops. -/
def misplacedJumps (lines : List Line) : Nat :=
  (placed [] lines).countP Placed.isMisplacedJump

/-- How many `return`s stand outside of all functions. -/
def misplacedReturns (lines : List Line) : Nat :=
  (placed [] lines).countP Placed.isMisplacedReturn

/-! ### Going up -/

variable {level : Nat} {above lines others : List Line} {text : String}

/-- Lines that are at least as far in are passed over. -/
theorem enclosers_append (h : ∀ line ∈ lines, level ≤ line.level) (above : List Line) :
    enclosers level (lines ++ above) = enclosers level above := by
  induction lines with
  | nil => rfl
  | cons line rest ih =>
    obtain ⟨hline, hrest⟩ := List.forall_mem_cons.mp h
    rw [List.cons_append, enclosers, if_neg (Nat.not_lt.mpr hline), ih hrest]

theorem enclosers_cons (level : Nat) (text : String) (above : List Line) :
    enclosers (level + 1) (⟨level, text⟩ :: above) = ⟨level, text⟩ :: enclosers level above := by
  rw [enclosers, if_pos (Nat.lt_succ_self level)]

theorem placed_append (above lines others : List Line) :
    placed above (lines ++ others) =
      placed above lines ++ placed (lines.reverse ++ above) others := by
  induction lines generalizing above with
  | nil => rfl
  | cons line rest ih =>
    rw [List.cons_append, placed, placed, ih, List.reverse_cons, List.append_assoc]
    rfl

/-! ### Jumps among lines -/

/-- The words with which jumps and returns start. -/
def jumpWords : List (List Char) :=
  [Keyword.breakJump, .continueJump, .returnJump].map fun keyword => keyword.spelling.toList

theorem leadingWord_of_isJump {line : Line} (h : line.isJump) :
    leadingWord line.text ∈ jumpWords := by
  simp only [Line.isJump, Bool.or_eq_true, decide_eq_true_eq] at h
  rcases h with h | h
  · rw [h]
    decide
  · rw [h]
    decide

theorem leadingWord_of_isReturn {line : Line} (h : line.isReturn) :
    leadingWord line.text ∈ jumpWords := by
  simp only [Line.isReturn, Bool.or_eq_true, decide_eq_true_eq] at h
  rcases h with h | h
  · rw [h]
    decide
  · obtain ⟨rest, hrest⟩ := List.isPrefixOf_iff_prefix.mp h
    have hword : leadingWord line.text = "return".toList := by
      rw [leadingWord, ← hrest]
      rfl
    rw [hword]
    decide

/-- The jump or `return` that a line is. -/
def Placed.event? (p : Placed) : Option Event :=
  if p.line.isJump then some (.jump p.line.text (inLoop p.around))
  else if p.line.isReturn then some (.giveBack (inFunction p.around))
  else none

/-- The jumps and returns among lines. -/
def jumpsIn (above lines : List Line) : List Event :=
  (placed above lines).filterMap Placed.event?

theorem jumpsIn_nil : jumpsIn above [] = [] := rfl

theorem jumpsIn_cons (line : Line) (rest : List Line) :
    jumpsIn above (line :: rest) =
      (Placed.event? ⟨line, enclosers line.level above⟩).toList ++
        jumpsIn (line :: above) rest := by
  rw [jumpsIn, placed, List.filterMap_cons]
  cases Placed.event? ⟨line, enclosers line.level above⟩ <;> rfl

theorem jumpsIn_append : jumpsIn above (lines ++ others) =
    jumpsIn above lines ++ jumpsIn (lines.reverse ++ above) others := by
  rw [jumpsIn, placed_append, List.filterMap_append]
  rfl

/-- Other lines are passed over. -/
theorem jumpsIn_cons_of_not_mem (htext : leadingWord text ∉ jumpWords) (rest : List Line) :
    jumpsIn above (⟨level, text⟩ :: rest) = jumpsIn (⟨level, text⟩ :: above) rest := by
  have hjump : Line.isJump ⟨level, text⟩ = false :=
    Bool.eq_false_iff.mpr fun h => htext (leadingWord_of_isJump h)
  have hreturn : Line.isReturn ⟨level, text⟩ = false :=
    Bool.eq_false_iff.mpr fun h => htext (leadingWord_of_isReturn h)
  rw [jumpsIn_cons, Placed.event?, hjump, hreturn]
  rfl

/-- A `return` with a value. -/
theorem event?_return (text : String) (around : List Line) :
    Placed.event? ⟨⟨level, "return " ++ text⟩, around⟩ = some (.giveBack (inFunction around)) := by
  have hother (word : String) (hword : word.toList.head? ≠ some 'r') :
      "return " ++ text ≠ word := by
    rintro rfl
    exact hword (by simp [String.toList_append])
  have hjump : Line.isJump ⟨level, "return " ++ text⟩ = false := by
    rw [Line.isJump, decide_eq_false (hother "break" (by decide)),
      decide_eq_false (hother "continue" (by decide)), Bool.or_false]
  have hreturn : Line.isReturn ⟨level, "return " ++ text⟩ = true := by
    rw [Line.isReturn, String.toList_append,
      List.isPrefixOf_iff_prefix.mpr (List.prefix_append _ _), Bool.or_true]
  rw [Placed.event?, hjump, hreturn]
  rfl

theorem IsPlain.not_mem_jumpWords (h : IsPlain text) : leadingWord text ∉ jumpWords := by
  intro hmem
  obtain ⟨keyword, -, hkeyword⟩ := List.mem_map.mp hmem
  exact h keyword hkeyword.symm

/-- The first word of a text is that of its start, if it ends there. -/
theorem leadingWord_start {start : String} (h : leadingWord start ≠ start.toList) (rest : String) :
    leadingWord (start ++ rest) = leadingWord start := by
  rw [leadingWord, String.toList_append, List.takeWhile_append, if_neg]
  · rfl
  · exact fun hlength => h ((List.takeWhile_prefix _).eq_of_length hlength)

theorem not_mem_jumpWords_of_start {start : String} (hends : leadingWord start ≠ start.toList)
    (hword : leadingWord start ∉ jumpWords) (rest : String) :
    leadingWord (start ++ rest ++ ":") ∉ jumpWords := by
  rwa [String.append_assoc, leadingWord_start hends]

/-! ### Jumps among events -/

/-- Is the event a jump or a `return`? -/
def Event.isJump : Event → Bool
  | .jump _ _ => true
  | .giveBack _ => true
  | _ => false

mutual

/-- There are no jumps in expressions. -/
theorem Expr.filter_isJump_events : (e : Expr) → e.events.filter Event.isJump = []
  | .assign target value => by
    have htarget := target.filter_isJump_events
    have hvalue := value.filter_isJump_events
    cases target with
    | ident name =>
      rw [Expr.events, List.filter_cons_of_neg (by simp [Event.isJump]),
        List.filter_append, hvalue]
      rfl
    | _ => rw [Expr.events, List.filter_append, htarget, hvalue] <;> simp
  | .binary op left right => by
    rw [Expr.events, List.filter_append, left.filter_isJump_events, right.filter_isJump_events]
    rfl
  | .unary op operand => by
    rw [Expr.events, operand.filter_isJump_events]
  | .call callee arguments => by
    rw [Expr.events, List.filter_cons_of_neg (by simp [Event.isJump]),
      filter_isJump_exprsEvents arguments]
  | .ident name => rfl
  | .number value => rfl
  | .string raw => rfl
  | .boolean value => rfl
  | .array elements => by
    rw [Expr.events, filter_isJump_exprsEvents elements]
  | .index object index => by
    rw [Expr.events, List.filter_append, object.filter_isJump_events, index.filter_isJump_events]
    rfl
  | .property object name => by
    rw [Expr.events, object.filter_isJump_events]

theorem filter_isJump_exprsEvents : (es : List Expr) → (exprsEvents es).filter Event.isJump = []
  | [] => rfl
  | e :: others => by
    rw [exprsEvents, List.filter_append, e.filter_isJump_events,
      filter_isJump_exprsEvents others]
    rfl

end

theorem Declaration.filter_isJump_events (d : Declaration) :
    d.events.filter Event.isJump = [] := by
  unfold Declaration.events
  split
  · next value _ =>
    rw [List.filter_cons_of_neg (by simp [Event.isJump]), List.filter_append,
      value.filter_isJump_events]
    rfl
  · rfl

/-! ### What surrounds a statement -/

/-- The lines around a statement are those of its surroundings. -/
structure Surrounds (around : Surroundings) (enclosing : List Line) : Prop where
  inLoop_eq : inLoop enclosing = around.inLoop
  inFunction_eq : inFunction enclosing = around.inFunction

theorem isHeaderOf_eq_false {start : String} {c d : Char} (hstart : start.toList.head? = some c)
    (htext : text.toList.head? = some d) (hne : c ≠ d) :
    Line.isHeaderOf start ⟨level, text⟩ = false := by
  obtain ⟨starts, hstarts⟩ := List.head?_eq_some_iff.mp hstart
  obtain ⟨texts, htexts⟩ := List.head?_eq_some_iff.mp htext
  have hcons : (c :: starts).isPrefixOf (d :: texts) = (c == d && starts.isPrefixOf texts) := rfl
  rw [Line.isHeaderOf, hstarts, htexts, hcons, beq_false_of_ne hne, Bool.false_and, Bool.and_false]

theorem isHeaderOf_append (start text : String) :
    Line.isHeaderOf start ⟨level, start ++ text ++ ":"⟩ := by
  have hstarts : start.toList.isPrefixOf (start ++ text ++ ":").toList := by
    rw [String.append_assoc, String.toList_append]
    exact List.isPrefixOf_iff_prefix.mpr (List.prefix_append _ _)
  rw [Line.isHeaderOf, isHeader_append_colon, hstarts]
  rfl

namespace Surrounds

variable {around : Surroundings} {enclosing : List Line}

theorem top : Surrounds .top [] := ⟨rfl, rfl⟩

/-- A header that is neither that of a loop nor that of a function changes nothing. -/
theorem other {c : Char} (h : Surrounds around enclosing) (htext : text.toList.head? = some c)
    (hc : c ∉ ['w', 'd']) : Surrounds around (⟨level, text⟩ :: enclosing) := by
  have hloop : Line.isLoop ⟨level, text⟩ = false :=
    isHeaderOf_eq_false rfl htext (by rintro rfl; exact hc (.head _))
  have hfunction : Line.isFunction ⟨level, text⟩ = false :=
    isHeaderOf_eq_false rfl htext (by rintro rfl; exact hc (.tail _ (.head _)))
  constructor
  · rw [← h.inLoop_eq, inLoop, List.takeWhile_cons_of_pos (by rw [hfunction]; rfl), List.any_cons,
      hloop]
    rfl
  · rw [← h.inFunction_eq, inFunction, List.any_cons, hfunction]
    rfl

theorem loop (h : Surrounds around enclosing) (test : String) :
    Surrounds around.loop (⟨level, "while " ++ test ++ ":"⟩ :: enclosing) := by
  have hloop : Line.isLoop ⟨level, "while " ++ test ++ ":"⟩ := isHeaderOf_append _ _
  have hfunction : Line.isFunction ⟨level, "while " ++ test ++ ":"⟩ = false :=
    isHeaderOf_eq_false (d := 'w') rfl (by simp [String.toList_append]) (by decide)
  constructor
  · rw [inLoop, List.takeWhile_cons_of_pos (by rw [hfunction]; rfl), List.any_cons, hloop]
    rfl
  · rw [inFunction, List.any_cons, hfunction, Bool.false_or]
    exact h.inFunction_eq

/-- Loops around a function do not reach into it. -/
theorem function (signature : String) (enclosing : List Line) :
    Surrounds .function (⟨level, "def " ++ signature ++ ":"⟩ :: enclosing) := by
  have hfunction : Line.isFunction ⟨level, "def " ++ signature ++ ":"⟩ := isHeaderOf_append _ _
  constructor
  · rw [inLoop, List.takeWhile_cons_of_neg (by rw [hfunction]; decide)]
    rfl
  · rw [inFunction, List.any_cons, hfunction]
    rfl

/-- The same lines are around what follows at the same level. -/
theorem after (h : Surrounds around (enclosers level above)) (hlines : Indented level lines) :
    Surrounds around (enclosers level (lines.reverse ++ above)) := by
  rwa [enclosers_append fun line hline => hlines.inside line (List.mem_reverse.mp hline)]

end Surrounds

/-! ### Statements -/

section Suites

variable {around : Surroundings} {events : List Event}

/-- A header that is no jump, and the body below it. The line that stands for an empty body is no
jump either. -/
theorem jumpsIn_suite (hword : leadingWord text ∉ jumpWords)
    (haround : Surrounds around (⟨level, text⟩ :: enclosers level above))
    (h : ∀ above, Surrounds around (enclosers (level + 1) above) → jumpsIn above lines = events) :
    jumpsIn above (⟨level, text⟩ :: bodyLines (level + 1) lines) = events := by
  rw [← enclosers_cons] at haround
  have hbody : ∀ above, jumpsIn above (bodyLines (level + 1) lines) = jumpsIn above lines := by
    cases lines with
    | nil => exact fun above => jumpsIn_cons_of_not_mem (by decide) []
    | cons line rest => exact fun above => rfl
  rw [jumpsIn_cons_of_not_mem hword, hbody, h _ haround]

theorem jumpsIn_function (signature : String)
    (h : ∀ above, Surrounds .function (enclosers (level + 1) above) →
      jumpsIn above lines = events) :
    jumpsIn above (⟨level, "def " ++ signature ++ ":"⟩ :: bodyLines (level + 1) lines) = events :=
  jumpsIn_suite (not_mem_jumpWords_of_start (by decide) (by decide) signature)
    (.function signature _) h

variable (haround : Surrounds around (enclosers level above))

include haround

theorem jumpsIn_loop (test : String)
    (h : ∀ above, Surrounds around.loop (enclosers (level + 1) above) →
      jumpsIn above lines = events) :
    jumpsIn above (⟨level, "while " ++ test ++ ":"⟩ :: bodyLines (level + 1) lines) = events :=
  jumpsIn_suite (not_mem_jumpWords_of_start (by decide) (by decide) test) (haround.loop test) h

variable (h : ∀ above, Surrounds around (enclosers (level + 1) above) →
  jumpsIn above lines = events)

include h

theorem jumpsIn_branch {opening : String} (hopening : opening ∈ openings) (test : String) :
    jumpsIn above (⟨level, opening ++ " " ++ test ++ ":"⟩ :: bodyLines (level + 1) lines) =
      events := by
  simp only [openings, List.mem_cons, List.not_mem_nil, or_false] at hopening
  rcases hopening with rfl | rfl
  · exact jumpsIn_suite (not_mem_jumpWords_of_start (by decide) (by decide) test)
      (haround.other (c := 'i') (by simp [String.toList_append]) (by decide)) h
  · exact jumpsIn_suite (not_mem_jumpWords_of_start (by decide) (by decide) test)
      (haround.other (c := 'e') (by simp [String.toList_append]) (by decide)) h

theorem jumpsIn_else :
    jumpsIn above (⟨level, "else:"⟩ :: bodyLines (level + 1) lines) = events :=
  jumpsIn_suite (by decide) (haround.other (c := 'e') rfl (by decide)) h

end Suites

open Stmt

mutual

theorem Stmt.jumpsIn_lines {opening : String} {inFor : Bool} {level : Nat} {above lines : List Line}
    {around : Surroundings} (s : Stmt) (hopening : opening ∈ openings)
    (h : s.lines opening inFor level = .ok lines) (hleaves : ProperLeaves s.leaves)
    (haround : Surrounds around (enclosers level above)) :
    jumpsIn above lines = (s.events around).filter Event.isJump := by
  have hplain {text : String} (htext : IsPlain text) : jumpsIn above [⟨level, text⟩] = [] :=
    jumpsIn_cons_of_not_mem htext.not_mem_jumpWords []
  cases s with
  | declare d =>
    obtain ⟨text, htext, rfl⟩ := lines_declare_eq_ok.mp h
    rw [hplain (isPlain_declaration htext hleaves), Stmt.events, d.filter_isJump_events]
  | function name params body =>
    obtain ⟨inner, hbody, rfl⟩ := lines_function_eq_ok.mp h
    have hbodyLeaves : ProperLeaves (stmtsLeaves body) :=
      hleaves.mono (by simp +contextual [Stmt.leaves])
    have hparams : (params.map Event.declareParam).filter Event.isJump = [] := by
      simp [Event.isJump]
    rw [functionHeader_eq, Stmt.events, List.filter_cons_of_neg (by simp [Event.isJump]),
      List.filter_append, hparams, List.nil_append]
    exact jumpsIn_function _ fun above haround =>
      jumpsIn_stmtsLines body (.head _) hbody hbodyLeaves haround
  | ifThen condition yes =>
    obtain ⟨test, inner, -, hyes, rfl⟩ := lines_ifThen_eq_ok.mp h
    have hyesLeaves : ProperLeaves (stmtsLeaves yes) :=
      hleaves.mono (by simp +contextual [Stmt.leaves])
    rw [Stmt.events, List.filter_append, condition.filter_isJump_events, List.nil_append]
    exact jumpsIn_branch haround (fun above haround =>
      jumpsIn_stmtsLines yes (.head _) hyes hyesLeaves haround) hopening test
  | ifElse condition yes no =>
    have hyesLeaves : ProperLeaves (stmtsLeaves yes) :=
      hleaves.mono (by simp +contextual [Stmt.leaves])
    have hnoLeaves : ProperLeaves (stmtsLeaves no) :=
      hleaves.mono (by simp +contextual [Stmt.leaves])
    have hword : IsFlush (opening ++ " ") := (isFlush_of_mem_openings hopening).append " "
    rw [Stmt.events, List.filter_append, List.filter_append, condition.filter_isJump_events,
      List.nil_append]
    cases helse : isElseIf no with
    | true =>
      obtain ⟨test, inner, rest, -, hyes, hno, rfl⟩ := (lines_ifElse_eq_ok_of_isElseIf helse).mp h
      have hindented := indented_suite test hword
        (indented_stmtsLines yes (.head _) hyes hyesLeaves.isNamed)
      rw [jumpsIn_append, jumpsIn_branch haround (fun above haround =>
          jumpsIn_stmtsLines yes (.head _) hyes hyesLeaves haround) hopening test,
        jumpsIn_stmtsLines no (.tail _ (.head _)) hno hnoLeaves (haround.after hindented)]
    | false =>
      obtain ⟨test, inner, rest, -, hyes, hno, rfl⟩ :=
        (lines_ifElse_eq_ok_of_not_isElseIf helse).mp h
      have hindented := indented_suite test hword
        (indented_stmtsLines yes (.head _) hyes hyesLeaves.isNamed)
      rw [jumpsIn_append, jumpsIn_branch haround (fun above haround =>
          jumpsIn_stmtsLines yes (.head _) hyes hyesLeaves haround) hopening test,
        jumpsIn_else (haround.after hindented) fun above haround =>
          jumpsIn_stmtsLines no (.head _) hno hnoLeaves haround]
  | whileLoop condition body =>
    obtain ⟨test, inner, -, hbody, rfl⟩ := lines_whileLoop_eq_ok.mp h
    have hbodyLeaves : ProperLeaves (stmtsLeaves body) :=
      hleaves.mono (by simp +contextual [Stmt.leaves])
    rw [Stmt.events, List.filter_append, condition.filter_isJump_events, List.nil_append]
    exact jumpsIn_loop haround test fun above haround =>
      jumpsIn_stmtsLines body (.head _) hbody hbodyLeaves haround
  | forLoop init condition update body =>
    obtain ⟨first, test, inner, last, hinit, -, hbody, hupdate, rfl⟩ := lines_forLoop_eq_ok.mp h
    have hinitLeaves : ProperLeaves init.leaves := hleaves.mono (by simp +contextual [Stmt.leaves])
    have hupdateLeaves : ProperLeaves update.leaves :=
      hleaves.mono (by simp +contextual [Stmt.leaves])
    have hbodyLeaves : ProperLeaves (stmtsLeaves body) :=
      hleaves.mono (by simp +contextual [Stmt.leaves])
    have hfirst := (isPlain_declaration hinit hinitLeaves).not_mem_jumpWords
    have hlast := (isPlain_lineText hupdate hupdateLeaves).not_mem_jumpWords
    have hindented := (framed_declaration hinit hinitLeaves.isNamed).indented level
    have hinner : ∀ above, Surrounds around.loop (enclosers (level + 1) above) →
        jumpsIn above (inner ++ [⟨level + 1, last⟩]) =
          (stmtsEvents around.loop body).filter Event.isJump := by
      intro above haround
      rw [jumpsIn_append, jumpsIn_cons_of_not_mem hlast, jumpsIn_nil, List.append_nil]
      exact jumpsIn_stmtsLines body (.head _) hbody hbodyLeaves haround
    have hloop := jumpsIn_loop (haround.after hindented) test hinner
    rw [bodyLines_of_ne_nil (by simp)] at hloop
    rw [jumpsIn_cons_of_not_mem hfirst, Stmt.events, List.filter_append, List.filter_append,
      List.filter_append, init.filter_isJump_events, condition.filter_isJump_events,
      update.filter_isJump_events]
    exact hloop
  | giveBack value =>
    cases value with
    | none =>
      obtain rfl := lines_giveBack_none_eq_ok.mp h
      rw [jumpsIn_cons, Stmt.events, ← haround.inFunction_eq]
      rfl
    | some value =>
      obtain ⟨text, -, rfl⟩ := lines_giveBack_some_eq_ok.mp h
      rw [jumpsIn_cons, event?_return, Stmt.events, ← haround.inFunction_eq,
        List.filter_cons_of_pos rfl, value.filter_isJump_events]
      rfl
  | breakLoop =>
    obtain rfl := lines_breakLoop_eq_ok.mp h
    rw [jumpsIn_cons, Stmt.events, ← haround.inLoop_eq]
    rfl
  | continueLoop =>
    obtain ⟨-, rfl⟩ := lines_continueLoop_eq_ok.mp h
    rw [jumpsIn_cons, Stmt.events, ← haround.inLoop_eq]
    rfl
  | expr value =>
    obtain ⟨text, htext, rfl⟩ := lines_expr_eq_ok.mp h
    rw [hplain (isPlain_lineText htext hleaves), Stmt.events, value.filter_isJump_events]

/-- **The lines and the events of statements have the same jumps and returns**, in the same order
and with the same surroundings. -/
theorem jumpsIn_stmtsLines {opening : String} {inFor : Bool} {level : Nat}
    {above lines : List Line} {around : Surroundings} (body : List Stmt)
    (hopening : opening ∈ openings) (h : stmtsLines opening inFor level body = .ok lines)
    (hleaves : ProperLeaves (stmtsLeaves body))
    (haround : Surrounds around (enclosers level above)) :
    jumpsIn above lines = (stmtsEvents around body).filter Event.isJump := by
  cases body with
  | nil =>
    obtain rfl := stmtsLines_nil_eq_ok.mp h
    rfl
  | cons s rest =>
    obtain ⟨first, others, hs, hrest, rfl⟩ := stmtsLines_cons_eq_ok.mp h
    have hsLeaves : ProperLeaves s.leaves := hleaves.mono (by simp +contextual [stmtsLeaves])
    have hrestLeaves : ProperLeaves (stmtsLeaves rest) :=
      hleaves.mono (by simp +contextual [stmtsLeaves])
    have hindented := s.indented_lines hopening hs hsLeaves.isNamed
    rw [jumpsIn_append, stmtsEvents, List.filter_append,
      s.jumpsIn_lines hopening hs hsLeaves haround,
      jumpsIn_stmtsLines rest hopening hrest hrestLeaves (haround.after hindented)]

end

end Offside
