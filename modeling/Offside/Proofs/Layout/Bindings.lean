import Offside.Proofs.Layout.Placement
import Offside.Proofs.Layout.Targets

/-!
# Which names the lines bind

In Python a name is local to a function if it is a parameter or if some line of the body binds it,
be it an assignment or the header of another function. The function is told from the indentation
alone: it is the innermost `def` header among the lines around (`scope?`). `bindingsIn` collects
what the lines bind, each name with the function that it is local to.

The statements of a script say the same without any lines (`Stmt.bindings`): a declaration binds its
name, a function its own name, and an assignment its target, all within the innermost function, and
the parameters of a function are bound in the function itself.
`bindingsIn_stmtsLines` shows that **the lines and the statements bind the same names**, in the same
order and in the same functions.
-/

namespace Offside

/-! ### Names that lines bind -/

/-- The word that a token is, reserved or not. -/
def Python.Token.word? : Python.Token → Option String
  | .name word => some word
  | .keyword word => some word
  | _ => none

@[simp]
theorem Python.filterMap_word?_operator (spelling : String) (rest : List Python.Token) :
    (Python.Token.operator spelling :: rest).filterMap Python.Token.word? =
      rest.filterMap Python.Token.word? :=
  rfl

namespace Line

/-- The tokens of the line. It ends where its writer ends it, at the newline: a string with a
carriage return in it is one token here, although Python stops reading there. -/
def tokens (line : Line) : List Python.Token :=
  (Python.tokenize isNewline line.text.toList).getD []

/-- The words behind `def` in the header of a function: its name, and its parameters. -/
def headerWords (line : Line) : List String :=
  if line.isFunction then (line.tokens.filterMap Python.Token.word?).tail else []

/-- The name of the function whose header the line is. -/
def functionName? (line : Line) : Option String :=
  line.headerWords.head?

/-- The parameters of the function whose header the line is. -/
def params (line : Line) : List String :=
  line.headerWords.tail

/-- The names that the line binds where it stands: that of the function of which it is the header,
or those to which it assigns. -/
def boundNames (line : Line) : List String :=
  if line.isFunction then line.functionName?.toList else Python.targets line.tokens

end Line

/-- The innermost function around. -/
def scope? (around : List Line) : Option String :=
  around.findSome? Line.functionName?

/-- A name that is bound, the function that it is local to, and whether it is that of a function. -/
structure Binding where
  scope : Option String
  name : String
  isFunction : Bool
deriving DecidableEq

/-- What a line binds: names where it stands, and the parameters of its function in that one. -/
def Placed.bindings (p : Placed) : List Binding :=
  p.line.boundNames.map (⟨scope? p.around, ·, p.line.isFunction⟩) ++
    p.line.params.map (⟨p.line.functionName?, ·, false⟩)

/-- What lines bind, where `above` are the lines above all of them. -/
def bindingsIn (above lines : List Line) : List Binding :=
  (placed above lines).flatMap Placed.bindings

/-! ### Names that statements bind -/

/-- What the assignments among events bind. -/
def assignments (scope : Option String) (events : List Event) : List Binding :=
  (assignedBy events).map fun name => ⟨scope, name, false⟩

mutual

/-- What a statement binds, in the order of its lines. -/
def Stmt.bindings (scope : Option String) : Stmt → List Binding
  | .declare d => ⟨scope, d.name, false⟩ :: assignments scope d.events
  | .function name params body =>
    ⟨scope, name, true⟩ :: (params.map (⟨some name, ·, false⟩) ++ stmtsBindings (some name) body)
  | .ifThen condition yes => assignments scope condition.events ++ stmtsBindings scope yes
  | .ifElse condition yes no =>
    assignments scope condition.events ++ (stmtsBindings scope yes ++ stmtsBindings scope no)
  | .whileLoop condition body => assignments scope condition.events ++ stmtsBindings scope body
  | .forLoop init condition update body =>
    ⟨scope, init.name, false⟩ :: (assignments scope init.events ++
      (assignments scope condition.events ++
        (stmtsBindings scope body ++ assignments scope update.events)))
  | .giveBack value => assignments scope ((value.map Expr.events).getD [])
  | .breakLoop => []
  | .continueLoop => []
  | .expr value => assignments scope value.events

/-- What several statements bind. -/
def stmtsBindings (scope : Option String) : List Stmt → List Binding
  | [] => []
  | s :: rest => s.bindings scope ++ stmtsBindings scope rest

end

theorem assignments_of_text {e : Expr} {t : String} (h : e.text = .ok t) (scope : Option String) :
    assignments scope e.events = [] := by
  rw [assignments, assignedBy_events_of_text h]
  rfl

/-! ### What a line binds -/

variable {level : Nat} {above lines others : List Line} {text : String}
  {scope inner : Option String}

theorem headerWords_of_not_isFunction {line : Line} (h : line.isFunction = false) :
    line.headerWords = [] := by
  rw [Line.headerWords, h]
  rfl

theorem functionName?_of_not_isFunction {line : Line} (h : line.isFunction = false) :
    line.functionName? = none := by
  rw [Line.functionName?, headerWords_of_not_isFunction h]
  rfl

theorem boundNames_of_tokenize {line : Line} {tokens : List Python.Token}
    (hline : line.isFunction = false)
    (h : Python.tokenize isNewline line.text.toList = some tokens) :
    line.boundNames = Python.targets tokens := by
  rw [Line.boundNames, hline, Line.tokens, h]
  rfl

/-- A line that is no header of a function has no parameters. -/
theorem bindings_of_not_isFunction {line : Line} (h : line.isFunction = false)
    (around : List Line) :
    Placed.bindings ⟨line, around⟩ = line.boundNames.map (⟨scope? around, ·, false⟩) := by
  rw [Placed.bindings, Line.params, headerWords_of_not_isFunction h, h]
  exact List.append_nil _

theorem not_isFunction_of_closes (h : Closes text) : Line.isFunction ⟨level, text⟩ = false := by
  rw [Line.isFunction, Line.isHeaderOf, isHeader_eq_false_of_closes h]
  rfl

theorem spells_blank : Python.Spells isNewline Anything " ".toList [] := by
  intro rest _
  simp

/-- A word, reserved or not, and a value behind it. -/
theorem IsValue.afterWord {word : String} (h : IsValue text)
    (hword : Python.isIdentifier word.toList) : IsValue (word ++ " " ++ text) :=
  joined spells_blank (by simp) (fun rest => Python.breaks_cons rest rfl) (.word hword) h

/-- The tokens of a header are those before its colon, and the colon. -/
theorem tokenize_header {tokens : List Python.Token}
    (h : Python.Spells isNewline Python.Breaks text.toList tokens) :
    Python.tokenize isNewline (text ++ ":").toList = some (tokens ++ [.operator ":"]) := by
  have hcolon : Python.Spells isNewline (· = []) ":".toList [.operator ":"] :=
    Python.spells_operator rfl rfl fun rest hrest => by subst hrest; rfl
  have hwhole := h.append hcolon fun rest _ => Python.breaks_cons rest rfl
  rw [String.toList_append]
  simpa using hwhole [] rfl

/-- What a line by itself binds. -/
theorem boundNames_of_binds {names : List String} (h : Binds text names) (hcloses : Closes text) :
    Line.boundNames ⟨level, text⟩ = names := by
  obtain ⟨tokens, hspells, rfl⟩ := h
  exact boundNames_of_tokenize (not_isFunction_of_closes hcloses) hspells.tokenize_eq

/-- The header of a loop or of a branch binds nothing. -/
theorem boundNames_header (h : IsValue text)
    (hline : Line.isFunction ⟨level, text ++ ":"⟩ = false) :
    Line.boundNames ⟨level, text ++ ":"⟩ = [] := by
  obtain ⟨tokens, hspells, hsign⟩ := h
  rw [boundNames_of_tokenize hline (tokenize_header hspells)]
  exact Python.targets_of_not_mem (by simpa [Python.assignSign] using hsign)

/-! ### Headers of functions -/

/-- The text is cut into tokens of which these are words. -/
def HasWords (text : String) (words : List String) : Prop :=
  ∃ tokens, Python.Spells isNewline Python.Breaks text.toList tokens ∧
    tokens.filterMap Python.Token.word? = words

namespace HasWords

variable {a b : String} {wordsA wordsB : List String}

theorem word {word : String} (h : Python.isIdentifier word.toList) : HasWords word [word] := by
  refine ⟨_, Python.spells_word h, ?_⟩
  unfold Python.Token.ofWord
  split <;> rfl

theorem joined {sign : String} {tokens : List Python.Token}
    (hspells : Python.Spells isNewline Anything sign.toList tokens)
    (hwords : tokens.filterMap Python.Token.word? = [])
    (hbreak : ∀ rest, Python.Breaks (sign.toList ++ rest)) (ha : HasWords a wordsA)
    (hb : HasWords b wordsB) : HasWords (a ++ sign ++ b) (wordsA ++ wordsB) := by
  obtain ⟨ta, hta, rfl⟩ := ha
  obtain ⟨tb, htb, rfl⟩ := hb
  exact ⟨_, spells_joined hspells hbreak hta htb, by simp [hwords]⟩

theorem commaSeparated {words : List String} (h : ∀ word ∈ words, Python.isIdentifier word.toList) :
    HasWords (commaSeparated words) words := by
  induction words with
  | nil => exact ⟨[], fun rest _ => by simp [Offside.commaSeparated], rfl⟩
  | cons first others ih =>
    obtain ⟨hfirst, hothers⟩ := List.forall_mem_cons.mp h
    cases others with
    | nil => exact .word hfirst
    | cons second more =>
      rw [commaSeparated_cons_cons, ← String.append_assoc]
      exact joined spells_comma rfl (fun rest => Python.breaks_cons _ rfl) (.word hfirst)
        (ih hothers)

end HasWords

/-- The name and the parameters of a function can be told from its header. -/
theorem headerWords_function {name : String} {params : List String}
    (hname : Python.isIdentifier name.toList)
    (hparams : ∀ param ∈ params, Python.isIdentifier param.toList) :
    Line.headerWords ⟨level, "def " ++ (name ++ "(" ++ commaSeparated params ++ ")") ++ ":"⟩ =
      name :: params := by
  have hcall : HasWords (name ++ ("(" ++ commaSeparated params ++ ")")) (name :: params) := by
    obtain ⟨ta, hta, hwords⟩ := HasWords.word hname
    obtain ⟨tb, htb, hwords'⟩ := HasWords.commaSeparated hparams
    exact ⟨_, spells_trailed (.inl rfl) (.inl rfl) hta htb, by simp [hwords, hwords']⟩
  have hdef : HasWords "def" ["def"] := .word rfl
  have hwhole : HasWords ("def" ++ " " ++ (name ++ ("(" ++ commaSeparated params ++ ")")))
      ("def" :: name :: params) :=
    hdef.joined spells_blank rfl (fun rest => Python.breaks_cons rest rfl) hcall
  obtain ⟨tokens, hspells, hwords⟩ := hwhole
  have htext : "def " ++ (name ++ "(" ++ commaSeparated params ++ ")") =
      "def" ++ " " ++ (name ++ ("(" ++ commaSeparated params ++ ")")) := by
    simp [String.append_assoc]
  have hheader : Line.isFunction
      ⟨level, "def " ++ (name ++ "(" ++ commaSeparated params ++ ")") ++ ":"⟩ :=
    isHeaderOf_append _ _
  rw [Line.headerWords, if_pos hheader, Line.tokens, htext, tokenize_header hspells,
    Option.getD_some, List.filterMap_append, hwords]
  exact List.append_nil _

/-! ### What lines bind -/

theorem bindingsIn_cons (line : Line) (rest : List Line) :
    bindingsIn above (line :: rest) =
      Placed.bindings ⟨line, enclosers line.level above⟩ ++ bindingsIn (line :: above) rest :=
  List.flatMap_cons

theorem bindingsIn_append : bindingsIn above (lines ++ others) =
    bindingsIn above lines ++ bindingsIn (lines.reverse ++ above) others := by
  rw [bindingsIn, placed_append, List.flatMap_append]
  rfl

/-- A line by itself. -/
theorem bindingsIn_line {names : List String} (hscope : scope? (enclosers level above) = scope)
    (h : Binds text names) (hcloses : Closes text) (rest : List Line) :
    bindingsIn above (⟨level, text⟩ :: rest) =
      names.map (⟨scope, ·, false⟩) ++ bindingsIn (⟨level, text⟩ :: above) rest := by
  rw [bindingsIn_cons, bindings_of_not_isFunction (not_isFunction_of_closes hcloses),
    boundNames_of_binds h hcloses, hscope]

/-- A header and the body below it. The line that stands for an empty body binds nothing. -/
theorem bindingsIn_suite {bindings : List Binding}
    (hinner : scope? (⟨level, text⟩ :: enclosers level above) = inner)
    (h : ∀ above, scope? (enclosers (level + 1) above) = inner →
      bindingsIn above lines = bindings) :
    bindingsIn above (⟨level, text⟩ :: bodyLines (level + 1) lines) =
      Placed.bindings ⟨⟨level, text⟩, enclosers level above⟩ ++ bindings := by
  rw [← enclosers_cons] at hinner
  have hbody : ∀ above,
      bindingsIn above (bodyLines (level + 1) lines) = bindingsIn above lines := by
    intro above
    cases lines with
    | nil =>
      have hpass : Binds "pass" [] := (IsValue.word rfl).binds
      exact bindingsIn_line rfl hpass ⟨'s', rfl, rfl⟩ []
    | cons line rest => rfl
  rw [bindingsIn_cons, hbody, h _ hinner]

theorem scope?_after (h : scope? (enclosers level above) = scope) (hlines : Indented level lines) :
    scope? (enclosers level (lines.reverse ++ above)) = scope := by
  rwa [enclosers_append fun line hline => hlines.inside line (List.mem_reverse.mp hline)]

/-! ### Statements -/

theorem closes_declaration {d : Declaration} {t : String} (h : d.text = .ok t)
    (hleaves : SpellableLeaves d.leaves) : Closes t :=
  (framed_declaration h hleaves.isNamed).closes

/-- A declaration binds its name, and then the targets of its first value. -/
theorem binds_declaration {d : Declaration} {t : String} (h : d.text = .ok t)
    (hleaves : SpellableLeaves d.leaves) (hprintable : d.isPrintable) :
    Binds t (d.name :: assignedBy d.events) := by
  have hname := isIdentifier_of_isSpellable (hleaves (.identifier d.name) (.head _))
  unfold Declaration.text at h
  split at h
  · next value hinit =>
    obtain ⟨v, hv, ht⟩ := bind_eq_ok.mp h
    obtain rfl := pure_eq_ok.mp ht
    rw [Declaration.isPrintable, hinit] at hprintable
    have hvalue := binds_lineText hv
      (hleaves.mono (by simp +contextual [Declaration.leaves, hinit])) hprintable
    rw [String.append_assoc]
    simpa [Declaration.events, hinit, Event.assigned?] using hvalue.assignName hname
  · next hinit =>
    obtain rfl := pure_eq_ok.mp h
    have hnone : IsValue "None" := .word rfl
    simpa [Declaration.events, hinit, Event.assigned?] using hnone.binds.assignName hname

section Suites

variable {bindings : List Binding}
  (h : ∀ above, scope? (enclosers (level + 1) above) = scope → bindingsIn above lines = bindings)

include h

/-- The parameters and the body of a function are in a scope of its own. -/
theorem bindingsIn_function {name : String} {params : List String}
    (hname : Python.isIdentifier name.toList)
    (hparams : ∀ param ∈ params, Python.isIdentifier param.toList) (hscope : scope = some name)
    (houter : scope? (enclosers level above) = inner) :
    bindingsIn above
        (⟨level, "def " ++ (name ++ "(" ++ commaSeparated params ++ ")") ++ ":"⟩ ::
          bodyLines (level + 1) lines) =
      ⟨inner, name, true⟩ :: (params.map (⟨scope, ·, false⟩) ++ bindings) := by
  have hwords : Line.headerWords
      ⟨level, "def " ++ (name ++ "(" ++ commaSeparated params ++ ")") ++ ":"⟩ = name :: params :=
    headerWords_function hname hparams
  have hheader : Line.isFunction
      ⟨level, "def " ++ (name ++ "(" ++ commaSeparated params ++ ")") ++ ":"⟩ :=
    isHeaderOf_append _ _
  -- From here on the header counts for its words only.
  generalize "def " ++ (name ++ "(" ++ commaSeparated params ++ ")") ++ ":" = text at *
  have hfunction : Line.functionName? ⟨level, text⟩ = scope := by
    rw [Line.functionName?, hwords, hscope]
    rfl
  have hinner : scope? (⟨level, text⟩ :: enclosers level above) = scope := by
    rw [scope?, List.findSome?_cons, hfunction, hscope]
  rw [bindingsIn_suite hinner h, Placed.bindings, Line.boundNames, Line.params, hheader, houter,
    hwords, hfunction, hscope]
  rfl

variable (hscope : scope? (enclosers level above) = scope)

include hscope

/-- Other bodies belong to the scope of their header. -/
theorem bindingsIn_block {c : Char} (hheader : IsValue text) (hhead : text.toList.head? = some c)
    (hc : 'd' ≠ c) :
    bindingsIn above (⟨level, text ++ ":"⟩ :: bodyLines (level + 1) lines) = bindings := by
  have hline : Line.isFunction ⟨level, text ++ ":"⟩ = false :=
    isHeaderOf_eq_false rfl (by rw [String.toList_append, List.head?_append, hhead]; rfl) hc
  have hinner : scope? (⟨level, text ++ ":"⟩ :: enclosers level above) = scope := by
    rw [scope?, List.findSome?_cons, functionName?_of_not_isFunction hline]
    exact hscope
  rw [bindingsIn_suite hinner h, bindings_of_not_isFunction hline,
    boundNames_header hheader hline]
  rfl

theorem bindingsIn_else :
    bindingsIn above (⟨level, "else:"⟩ :: bodyLines (level + 1) lines) = bindings := by
  have hheader : IsValue "else" := .word rfl
  have hcolon : "else:" = "else" ++ ":" := rfl
  rw [hcolon]
  exact bindingsIn_block h hscope hheader (c := 'e') rfl (by decide)

variable {test : String} (htest : IsValue test)

include htest

theorem bindingsIn_loop :
    bindingsIn above (⟨level, "while " ++ test ++ ":"⟩ :: bodyLines (level + 1) lines) =
      bindings := by
  have hheader : IsValue ("while" ++ " " ++ test) := htest.afterWord rfl
  exact bindingsIn_block h hscope hheader (c := 'w') (by simp [String.toList_append]) (by decide)

theorem bindingsIn_branch {opening : String} (hopening : opening ∈ openings) :
    bindingsIn above (⟨level, opening ++ " " ++ test ++ ":"⟩ :: bodyLines (level + 1) lines) =
      bindings := by
  simp only [openings, List.mem_cons, List.not_mem_nil, or_false] at hopening
  rcases hopening with rfl | rfl
  · exact bindingsIn_block h hscope (htest.afterWord rfl) (c := 'i')
      (by simp [String.toList_append]) (by decide)
  · exact bindingsIn_block h hscope (htest.afterWord rfl) (c := 'e')
      (by simp [String.toList_append]) (by decide)

end Suites

open Stmt

mutual

theorem Stmt.bindingsIn_lines {opening : String} {inFor : Bool} {level : Nat}
    {above lines : List Line} {scope : Option String} (s : Stmt) (hopening : opening ∈ openings)
    (h : s.lines opening inFor level = .ok lines) (hleaves : SpellableLeaves s.leaves)
    (hprintable : s.isPrintable) (hscope : scope? (enclosers level above) = scope) :
    bindingsIn above lines = s.bindings scope := by
  cases s with
  | declare d =>
    obtain ⟨text, htext, rfl⟩ := lines_declare_eq_ok.mp h
    have hbinds := binds_declaration htext hleaves hprintable
    rw [bindingsIn_line hscope hbinds (closes_declaration htext hleaves)]
    exact List.append_nil _
  | function name params body =>
    obtain ⟨inner, hbody, rfl⟩ := lines_function_eq_ok.mp h
    have hname := isIdentifier_of_isSpellable (hleaves (.identifier name) (.head _))
    have hparams : ∀ param ∈ params, Python.isIdentifier param.toList := fun param hparam =>
      isIdentifier_of_isSpellable (hleaves (.identifier param) (by simp [Stmt.leaves, hparam]))
    have hbodyLeaves : SpellableLeaves (stmtsLeaves body) :=
      hleaves.mono (by simp +contextual [Stmt.leaves])
    rw [functionHeader_eq, Stmt.bindings]
    exact bindingsIn_function (fun above hscope =>
      bindingsIn_stmtsLines body (.head _) hbody hbodyLeaves hprintable hscope) hname hparams rfl
      hscope
  | ifThen condition yes =>
    obtain ⟨test, inner, htest, hyes, rfl⟩ := lines_ifThen_eq_ok.mp h
    obtain ⟨-, hyesPrintable⟩ := Bool.and_eq_true_iff.mp hprintable
    have hyesLeaves : SpellableLeaves (stmtsLeaves yes) :=
      hleaves.mono (by simp +contextual [Stmt.leaves])
    have hvalue := isValue_text htest (hleaves.mono (by simp +contextual [Stmt.leaves]))
    rw [Stmt.bindings, assignments_of_text htest, List.nil_append]
    exact bindingsIn_branch (fun above hscope =>
      bindingsIn_stmtsLines yes (.head _) hyes hyesLeaves hyesPrintable hscope) hscope hvalue
      hopening
  | ifElse condition yes no =>
    simp only [Stmt.isPrintable, Bool.and_eq_true] at hprintable
    obtain ⟨⟨-, hyesPrintable⟩, hnoPrintable⟩ := hprintable
    have hyesLeaves : SpellableLeaves (stmtsLeaves yes) :=
      hleaves.mono (by simp +contextual [Stmt.leaves])
    have hnoLeaves : SpellableLeaves (stmtsLeaves no) :=
      hleaves.mono (by simp +contextual [Stmt.leaves])
    have htestLeaves : SpellableLeaves condition.leaves :=
      hleaves.mono (by simp +contextual [Stmt.leaves])
    have hword : IsFlush (opening ++ " ") := (isFlush_of_mem_openings hopening).append " "
    cases helse : isElseIf no with
    | true =>
      -- The lines of the `else` part go on at the level of the `if`, in the same scope.
      obtain ⟨test, inner, rest, htest, hyes, hno, rfl⟩ :=
        (lines_ifElse_eq_ok_of_isElseIf helse).mp h
      have hindented := indented_suite test hword
        (indented_stmtsLines yes (.head _) hyes hyesLeaves.isNamed)
      rw [Stmt.bindings, assignments_of_text htest, List.nil_append, bindingsIn_append,
        bindingsIn_branch (fun above hscope =>
          bindingsIn_stmtsLines yes (.head _) hyes hyesLeaves hyesPrintable hscope) hscope
          (isValue_text htest htestLeaves) hopening,
        bindingsIn_stmtsLines no (.tail _ (.head _)) hno hnoLeaves hnoPrintable
          (scope?_after hscope hindented)]
    | false =>
      obtain ⟨test, inner, rest, htest, hyes, hno, rfl⟩ :=
        (lines_ifElse_eq_ok_of_not_isElseIf helse).mp h
      have hindented := indented_suite test hword
        (indented_stmtsLines yes (.head _) hyes hyesLeaves.isNamed)
      rw [Stmt.bindings, assignments_of_text htest, List.nil_append, bindingsIn_append,
        bindingsIn_branch (fun above hscope =>
          bindingsIn_stmtsLines yes (.head _) hyes hyesLeaves hyesPrintable hscope) hscope
          (isValue_text htest htestLeaves) hopening,
        bindingsIn_else (fun above hscope =>
          bindingsIn_stmtsLines no (.head _) hno hnoLeaves hnoPrintable hscope)
          (scope?_after hscope hindented)]
  | whileLoop condition body =>
    obtain ⟨test, inner, htest, hbody, rfl⟩ := lines_whileLoop_eq_ok.mp h
    obtain ⟨-, hbodyPrintable⟩ := Bool.and_eq_true_iff.mp hprintable
    have hbodyLeaves : SpellableLeaves (stmtsLeaves body) :=
      hleaves.mono (by simp +contextual [Stmt.leaves])
    have hvalue := isValue_text htest (hleaves.mono (by simp +contextual [Stmt.leaves]))
    rw [Stmt.bindings, assignments_of_text htest, List.nil_append]
    exact bindingsIn_loop (fun above hscope =>
      bindingsIn_stmtsLines body (.head _) hbody hbodyLeaves hbodyPrintable hscope) hscope hvalue
  | forLoop init condition update body =>
    obtain ⟨first, test, inner, last, hinit, htest, hbody, hupdate, rfl⟩ :=
      lines_forLoop_eq_ok.mp h
    simp only [Stmt.isPrintable, Bool.and_eq_true] at hprintable
    obtain ⟨⟨⟨hinitPrintable, -⟩, hupdatePrintable⟩, hbodyPrintable⟩ := hprintable
    have hinitLeaves : SpellableLeaves init.leaves :=
      hleaves.mono (by simp +contextual [Stmt.leaves])
    have htestLeaves : SpellableLeaves condition.leaves :=
      hleaves.mono (by simp +contextual [Stmt.leaves])
    have hupdateLeaves : SpellableLeaves update.leaves :=
      hleaves.mono (by simp +contextual [Stmt.leaves])
    have hbodyLeaves : SpellableLeaves (stmtsLeaves body) :=
      hleaves.mono (by simp +contextual [Stmt.leaves])
    have hfirst := binds_declaration hinit hinitLeaves hinitPrintable
    have hlast := binds_lineText hupdate hupdateLeaves hupdatePrintable
    have hlastCloses := (framed_lineText hupdate hupdateLeaves.isNamed).closes
    have hindented := (framed_declaration hinit hinitLeaves.isNamed).indented level
    -- The update is the last line of the loop, so it stands in the scope of the body.
    have hinner : ∀ above, scope? (enclosers (level + 1) above) = scope →
        bindingsIn above (inner ++ [⟨level + 1, last⟩]) =
          stmtsBindings scope body ++ assignments scope update.events := by
      intro above hscope
      have hindentedBody := indented_stmtsLines body (.head _) hbody hbodyLeaves.isNamed
      rw [bindingsIn_append, bindingsIn_stmtsLines body (.head _) hbody hbodyLeaves hbodyPrintable
          hscope,
        bindingsIn_line (scope?_after hscope hindentedBody) hlast hlastCloses]
      exact congrArg _ (List.append_nil _)
    have hloop := bindingsIn_loop hinner (scope?_after hscope hindented)
      (isValue_text htest htestLeaves)
    rw [bodyLines_of_ne_nil (by simp)] at hloop
    rw [bindingsIn_line hscope hfirst (closes_declaration hinit hinitLeaves), Stmt.bindings,
      assignments_of_text htest, List.nil_append]
    exact congrArg _ hloop
  | giveBack value =>
    cases value with
    | none =>
      obtain rfl := lines_giveBack_none_eq_ok.mp h
      have hbinds : Binds "return" [] := (IsValue.word rfl).binds
      exact bindingsIn_line hscope hbinds ⟨'n', rfl, rfl⟩ []
    | some value =>
      obtain ⟨text, htext, rfl⟩ := lines_giveBack_some_eq_ok.mp h
      have hspaced : IsValue ("return" ++ " " ++ text) := (isValue_text htext hleaves).afterWord rfl
      have hvalue : IsValue ("return " ++ text) := hspaced
      have hcloses := (framed_text value htext hleaves.isNamed).closes.prepend "return "
      rw [bindingsIn_line hscope hvalue.binds hcloses, Stmt.bindings, Option.map_some,
        Option.getD_some, assignments_of_text htext]
      rfl
  | breakLoop =>
    obtain rfl := lines_breakLoop_eq_ok.mp h
    have hbinds : Binds "break" [] := (IsValue.word rfl).binds
    exact bindingsIn_line hscope hbinds ⟨'k', rfl, rfl⟩ []
  | continueLoop =>
    obtain ⟨-, rfl⟩ := lines_continueLoop_eq_ok.mp h
    have hbinds : Binds "continue" [] := (IsValue.word rfl).binds
    exact bindingsIn_line hscope hbinds ⟨'e', rfl, rfl⟩ []
  | expr value =>
    obtain ⟨text, htext, rfl⟩ := lines_expr_eq_ok.mp h
    have hbinds := binds_lineText htext hleaves hprintable
    rw [bindingsIn_line hscope hbinds (framed_lineText htext hleaves.isNamed).closes]
    exact List.append_nil _

/-- **The lines and the statements bind the same names**, in the same order and in the same
functions. -/
theorem bindingsIn_stmtsLines {opening : String} {inFor : Bool} {level : Nat}
    {above lines : List Line} {scope : Option String} (body : List Stmt)
    (hopening : opening ∈ openings) (h : stmtsLines opening inFor level body = .ok lines)
    (hleaves : SpellableLeaves (stmtsLeaves body)) (hprintable : stmtsPrintable body)
    (hscope : scope? (enclosers level above) = scope) :
    bindingsIn above lines = stmtsBindings scope body := by
  cases body with
  | nil =>
    obtain rfl := stmtsLines_nil_eq_ok.mp h
    rfl
  | cons s rest =>
    obtain ⟨first, others, hs, hrest, rfl⟩ := stmtsLines_cons_eq_ok.mp h
    obtain ⟨hsPrintable, hrestPrintable⟩ := Bool.and_eq_true_iff.mp hprintable
    have hsLeaves : SpellableLeaves s.leaves := hleaves.mono (by simp +contextual [stmtsLeaves])
    have hrestLeaves : SpellableLeaves (stmtsLeaves rest) :=
      hleaves.mono (by simp +contextual [stmtsLeaves])
    have hindented := s.indented_lines hopening hs hsLeaves.isNamed
    rw [bindingsIn_append, stmtsBindings,
      s.bindingsIn_lines hopening hs hsLeaves hsPrintable hscope,
      bindingsIn_stmtsLines rest hopening hrest hrestLeaves hrestPrintable
        (scope?_after hscope hindented)]

end

end Offside
