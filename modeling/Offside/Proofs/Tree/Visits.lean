import Offside.Layout.Stmt
import Offside.Proofs.Tree.Paths
import Offside.Scope.Event

/-!
# Going through a tree with a limited stack

Checking a script and laying it out both go down its tree, and a visit to a construct stays open as
long as its parts are visited. Here are the same walks with a limit on the visits to statements and
expressions that are open at once: `eventsWithin` for the events of a script, `linesWithin` for its
lines. They give nothing if the limit is too low. The parts of a list are visited one after another,
so its length does not count.

The length of the paths through a tree bounds the visits: a walk whose limit exceeds every path
finds what it finds without a limit (`Program.eventsWithin_eq`, `Program.linesWithin_eq`).
-/

namespace Offside

/-! ### Paths below a limit -/

/-- Every path is shorter than this. -/
def Below (limit : Nat) (paths : List Path) : Prop :=
  ∀ path ∈ paths, path.length < limit

section Below

variable {limit : Nat} {paths others : List Path} {passage : Passage}

theorem below_append : Below limit (paths ++ others) ↔ Below limit paths ∧ Below limit others :=
  List.forall_mem_append

theorem below_along : Below (limit + 1) (along passage paths) ↔ Below limit paths := by
  simp [Below, along]

/-- Only what lies below a positive limit can be gone into. -/
theorem Below.of_into (h : Below limit (into passage paths)) :
    ∃ below, limit = below + 1 ∧ Below below paths := by
  obtain ⟨hhere, hpaths⟩ := List.forall_mem_cons.mp h
  cases limit with
  | zero => exact absurd hhere (Nat.not_lt_zero _)
  | succ below => exact ⟨below, rfl, below_along.mp hpaths⟩

theorem below_exprsPaths {es : List Expr} :
    Below limit (exprsPaths es) ↔ ∀ e ∈ es, Below limit e.paths := by
  constructor
  · intro h e he path hpath
    exact h path (mem_exprsPaths.mpr ⟨e, he, hpath⟩)
  · intro h path hpath
    obtain ⟨e, he, hpath⟩ := mem_exprsPaths.mp hpath
    exact h e he path hpath

theorem below_stmtsPaths {body : List Stmt} :
    Below limit (stmtsPaths body) ↔ ∀ s ∈ body, Below limit s.paths := by
  constructor
  · intro h s hs path hpath
    exact h path (mem_stmtsPaths.mpr ⟨s, hs, hpath⟩)
  · intro h path hpath
    obtain ⟨s, hs, hpath⟩ := mem_stmtsPaths.mp hpath
    exact h s hs path hpath

/-- There is a way down through every expression. -/
theorem Expr.exists_mem_paths (e : Expr) : ∃ path, path ∈ e.paths := by
  have halong (passage : Passage) {inner : Expr} (h : ∃ path, path ∈ inner.paths) :
      ∃ path, path ∈ along passage inner.paths := by
    obtain ⟨path, hpath⟩ := h
    exact ⟨passage :: path, List.mem_map_of_mem hpath⟩
  cases e with
  | assign target value =>
    obtain ⟨path, hpath⟩ := halong .target target.exists_mem_paths
    exact ⟨path, by rw [paths]; exact List.mem_append_left _ hpath⟩
  | binary op left right =>
    obtain ⟨path, hpath⟩ := halong .left left.exists_mem_paths
    exact ⟨path, by rw [paths]; exact List.mem_append_left _ hpath⟩
  | unary op operand =>
    rw [paths]
    exact halong .operand operand.exists_mem_paths
  | call callee arguments => exact ⟨_, by rw [paths]; exact List.mem_cons_self⟩
  | array elements => exact ⟨_, by rw [paths]; exact List.mem_cons_self⟩
  | index object index =>
    obtain ⟨path, hpath⟩ := halong .object object.exists_mem_paths
    exact ⟨path, by rw [paths]; exact List.mem_append_left _ hpath⟩
  | property object name =>
    rw [paths]
    exact halong .object object.exists_mem_paths
  | _ => exact ⟨[], by simp [paths]⟩

theorem Expr.not_below_zero (e : Expr) : ¬ Below 0 e.paths := by
  intro h
  obtain ⟨path, hpath⟩ := e.exists_mem_paths
  exact Nat.not_lt_zero _ (h path hpath)

end Below

/-! ### Events -/

/-- The events of an expression, with so many visits open at once. -/
def Expr.eventsWithin : Nat → Expr → Option (List Event)
  | 0, _ => none
  | _ + 1, .ident name => some [.use name]
  | limit + 1, .assign (.ident name) value => do
    return .assignTo name :: ((← value.eventsWithin limit) ++ [.gainValue name])
  | limit + 1, .assign target value => do
    return (← target.eventsWithin limit) ++ (← value.eventsWithin limit)
  | limit + 1, .binary _ left right => do
    return (← left.eventsWithin limit) ++ (← right.eventsWithin limit)
  | limit + 1, .unary _ operand => operand.eventsWithin limit
  | limit + 1, .call callee arguments => do
    let inner ← arguments.mapM (eventsWithin limit)
    return .call callee arguments.length :: inner.flatten
  | _ + 1, .number _ => some []
  | _ + 1, .string _ => some []
  | _ + 1, .boolean _ => some []
  | limit + 1, .array elements => do
    return (← elements.mapM (eventsWithin limit)).flatten
  | limit + 1, .index object offset => do
    return (← object.eventsWithin limit) ++ (← offset.eventsWithin limit)
  | limit + 1, .property object _ => object.eventsWithin limit

/-- The events of a declaration, with so many visits open at once. -/
def Declaration.eventsWithin (limit : Nat) (d : Declaration) : Option (List Event) :=
  match d.init with
  | some value => do
    return .declareVariable d.name :: ((← value.eventsWithin limit) ++ [.gainValue d.name])
  | none => some [.declareVariable d.name]

/-- The events of a statement, with so many visits open at once. -/
def Stmt.eventsWithin : Nat → Surroundings → Stmt → Option (List Event)
  | 0, _, _ => none
  | limit + 1, _, .declare d => d.eventsWithin limit
  | limit + 1, _, .function name params body => do
    let inner ← body.mapM (eventsWithin limit .function)
    return .declareFunction name params :: (params.map .declareParam ++ inner.flatten)
  | limit + 1, around, .ifThen condition yes => do
    return (← condition.eventsWithin limit) ++ (← yes.mapM (eventsWithin limit around)).flatten
  | limit + 1, around, .ifElse condition yes no => do
    let test ← condition.eventsWithin limit
    return test ++ (← yes.mapM (eventsWithin limit around)).flatten ++
      (← no.mapM (eventsWithin limit around)).flatten
  | limit + 1, around, .whileLoop condition body => do
    let test ← condition.eventsWithin limit
    return test ++ (← body.mapM (eventsWithin limit around.loop)).flatten
  | limit + 1, around, .forLoop init condition update body => do
    let first ← init.eventsWithin limit
    let test ← condition.eventsWithin limit
    let last ← update.eventsWithin limit
    return first ++ test ++ last ++ (← body.mapM (eventsWithin limit around.loop)).flatten
  | _ + 1, around, .giveBack none => some [.giveBack around.inFunction]
  | limit + 1, around, .giveBack (some value) => do
    return .giveBack around.inFunction :: (← value.eventsWithin limit)
  | _ + 1, around, .breakLoop => some [.jump "break" around.inLoop]
  | _ + 1, around, .continueLoop => some [.jump "continue" around.inLoop]
  | limit + 1, _, .expr value => value.eventsWithin limit

/-- The events of a script, with so many visits open at once. -/
def Program.eventsWithin (limit : Nat) (program : Program) : Option (List Event) := do
  return (← program.body.mapM (Stmt.eventsWithin limit .top)).flatten

theorem exprsEvents_eq (es : List Expr) : exprsEvents es = (es.map Expr.events).flatten := by
  induction es with
  | nil => rfl
  | cons e rest ih => rw [exprsEvents, ih, List.map_cons, List.flatten_cons]

theorem stmtsEvents_eq (around : Surroundings) (body : List Stmt) :
    stmtsEvents around body = (body.map (Stmt.events around)).flatten := by
  induction body with
  | nil => rfl
  | cons s rest ih => rw [stmtsEvents, ih, List.map_cons, List.flatten_cons]

theorem mapM_eq_some {α β : Type} {f : α → Option β} {g : α → β} {as : List α}
    (h : ∀ a ∈ as, f a = some (g a)) : as.mapM f = some (as.map g) := by
  induction as with
  | nil => rfl
  | cons a rest ih =>
    obtain ⟨ha, hrest⟩ := List.forall_mem_cons.mp h
    rw [List.mapM_cons, ha, ih hrest]
    rfl

/-- By induction on the limit, one case for each kind of expression. -/
theorem Expr.eventsWithin_eq {limit : Nat} {e : Expr} (h : Below limit e.paths) :
    e.eventsWithin limit = some e.events := by
  induction limit generalizing e with
  | zero => exact absurd h e.not_below_zero
  | succ limit ih =>
    have hlist {es : List Expr} {passage : Passage}
        (hes : Below (limit + 1) (into passage (exprsPaths es))) :
        es.mapM (eventsWithin limit) = some (es.map Expr.events) := by
      obtain ⟨_, hlimit, hbelow⟩ := hes.of_into
      obtain rfl := Nat.succ.inj hlimit
      exact mapM_eq_some fun e he => ih (below_exprsPaths.mp hbelow e he)
    cases e with
    | assign target value =>
      rw [paths, below_append, below_along, below_along] at h
      have hvalue := ih h.2
      by_cases hident : ∃ name, target = .ident name
      · obtain ⟨name, rfl⟩ := hident
        rw [eventsWithin, hvalue, events]
        rfl
      · have hother (name : String) (heq : target = .ident name) : False := hident ⟨name, heq⟩
        rw [eventsWithin, ih h.1, hvalue, events]
        · rfl
        · exact hother
        · exact hother
    | binary op left right =>
      rw [paths, below_append, below_along, below_along] at h
      rw [eventsWithin, ih h.1, ih h.2, events]
      rfl
    | unary op operand =>
      rw [paths, below_along] at h
      rw [eventsWithin, ih h, events]
    | call callee arguments =>
      rw [paths] at h
      rw [eventsWithin, hlist h, events, exprsEvents_eq]
      rfl
    | array elements =>
      rw [paths] at h
      rw [eventsWithin, hlist h, events, exprsEvents_eq]
      rfl
    | index object offset =>
      rw [paths, below_append, below_along, below_along] at h
      rw [eventsWithin, ih h.1, ih h.2, events]
      rfl
    | property object name =>
      rw [paths, below_along] at h
      rw [eventsWithin, ih h, events]
    | _ => rw [eventsWithin, events]

/-- A tree that is as high as the limit is not visited to its end. -/
example : (Expr.unary .neg (.ident "x")).eventsWithin 1 = none := rfl

theorem Declaration.eventsWithin_eq {limit : Nat} {d : Declaration} (h : Below limit d.paths) :
    d.eventsWithin limit = some d.events := by
  obtain ⟨kind, name, init⟩ := d
  cases init with
  | none => rfl
  | some value =>
    rw [eventsWithin, events]
    simp only [Expr.eventsWithin_eq (e := value) h]
    rfl

/-- By induction on the limit: the visit to a statement is open while those in its blocks are. -/
theorem Stmt.eventsWithin_eq {limit : Nat} {s : Stmt} (around : Surroundings)
    (h : Below limit s.paths) : s.eventsWithin (limit + 1) around = some (s.events around) := by
  induction limit using Nat.strongRecOn generalizing s around with
  | ind limit ih =>
    have hblock {body : List Stmt} {passage : Passage} (around : Surroundings)
        (hbody : Below limit (into passage (stmtsPaths body))) :
        body.mapM (eventsWithin limit around) = some (body.map (Stmt.events around)) := by
      obtain ⟨below, rfl, hbelow⟩ := hbody.of_into
      exact mapM_eq_some fun s hs =>
        ih below (Nat.lt_succ_self below) around (below_stmtsPaths.mp hbelow s hs)
    cases s with
    | declare d => exact Declaration.eventsWithin_eq h
    | function name params body =>
      rw [paths] at h
      rw [eventsWithin, hblock .function h, events, stmtsEvents_eq]
      rfl
    | ifThen condition yes =>
      rw [paths, below_append] at h
      rw [eventsWithin, Expr.eventsWithin_eq h.1, hblock around h.2, events, stmtsEvents_eq]
      rfl
    | ifElse condition yes no =>
      rw [paths, below_append, below_append] at h
      rw [eventsWithin, Expr.eventsWithin_eq h.1, hblock around h.2.1, hblock around h.2.2, events,
        stmtsEvents_eq, stmtsEvents_eq]
      rfl
    | whileLoop condition body =>
      rw [paths, below_append] at h
      rw [eventsWithin, Expr.eventsWithin_eq h.1, hblock around.loop h.2, events, stmtsEvents_eq]
      rfl
    | forLoop init condition update body =>
      rw [paths, below_append, below_append, below_append] at h
      rw [eventsWithin, Declaration.eventsWithin_eq h.1, Expr.eventsWithin_eq h.2.1,
        Expr.eventsWithin_eq h.2.2.1, hblock around.loop h.2.2.2, events, stmtsEvents_eq]
      rfl
    | giveBack value =>
      cases value with
      | none => rw [eventsWithin, events]
      | some value =>
        rw [eventsWithin, Expr.eventsWithin_eq h, events]
        rfl
    | breakLoop => rw [eventsWithin, events]
    | continueLoop => rw [eventsWithin, events]
    | expr value =>
      rw [eventsWithin, events]
      exact Expr.eventsWithin_eq h

theorem Program.eventsWithin_eq {limit : Nat} {program : Program} (h : Below limit program.paths) :
    program.eventsWithin (limit + 1) = some program.events := by
  have hbody := mapM_eq_some fun s hs => Stmt.eventsWithin_eq .top (below_stmtsPaths.mp h s hs)
  rw [eventsWithin, hbody, events, stmtsEvents_eq]
  rfl

/-! ### Lines -/

/-- What laying out gives with a limit: nothing if the limit is too low. -/
abbrev Limited (α : Type) : Type :=
  ExceptT LayoutFault Option α

namespace Limited

variable {α β : Type}

/-- What laying out gives without a limit. -/
def full (result : Except LayoutFault α) : Limited α :=
  ExceptT.mk (some result)

theorem full_pure (value : α) : full (pure value) = pure value := rfl

theorem full_throw (fault : LayoutFault) :
    full (throw fault : Except LayoutFault α) = throw fault :=
  rfl

theorem full_bind (result : Except LayoutFault α) (f : α → Except LayoutFault β) :
    full (result >>= f) = full result >>= fun value => full (f value) := by
  cases result <;> rfl

theorem full_ite (c : Prop) [Decidable c] (yes no : Except LayoutFault α) :
    full (if c then yes else no) = if c then full yes else full no :=
  apply_ite full c yes no

end Limited

open Limited

/-- The text of an expression, with so many visits open at once. -/
def Expr.textWithin : Nat → Expr → Limited String
  | 0, _ => ExceptT.mk none
  | _ + 1, .assign _ _ => throw (.unsupported "assignment used as a value")
  | limit + 1, .binary op left right => do
    let l ← left.textWithin limit
    let r ← right.textWithin limit
    return left.asOperand op.leftRank l ++ " " ++ op.word ++ " " ++ right.asOperand op.rightRank r
  | limit + 1, .unary op operand => do
    let t ← operand.textWithin limit
    return op.word ++ operand.asOperand op.operandRank t
  | limit + 1, .call callee arguments => do
    let texts ← arguments.mapM (textWithin limit)
    return calleeName callee ++ "(" ++ commaSeparated texts ++ ")"
  | _ + 1, .ident name => return name
  | _ + 1, .number value => return value.repr
  | _ + 1, .string raw => return "\"" ++ raw ++ "\""
  | _ + 1, .boolean true => return "True"
  | _ + 1, .boolean false => return "False"
  | limit + 1, .array elements => do
    let texts ← elements.mapM (textWithin limit)
    return "[" ++ commaSeparated texts ++ "]"
  | limit + 1, .index object offset => do
    let o ← object.textWithin limit
    let i ← offset.textWithin limit
    return object.asOperand Strength.atom.rank o ++ "[" ++ i ++ "]"
  | limit + 1, .property object name => do
    if name = lengthProperty then
      let t ← object.textWithin limit
      return "len(" ++ t ++ ")"
    else
      throw (.unsupportedProperty name)

/-- The text of an expression on a line of its own, with so many visits open at once. -/
def Expr.lineTextWithin : Nat → Expr → Limited String
  | limit + 1, .assign target value => do
    let t ← target.textWithin limit
    let v ← value.lineTextWithin limit
    return t ++ " = " ++ v
  | limit, e => e.textWithin limit

/-- The line of a declaration, with so many visits open at once. -/
def Declaration.textWithin (limit : Nat) (d : Declaration) : Limited String :=
  match d.init with
  | some value => do
    let v ← value.lineTextWithin limit
    return d.name ++ " = " ++ v
  | none => return d.name ++ " = None"

/-- The lines of several statements, which are visited one after another. -/
def linesOfAll (lines : Stmt → Limited (List Line)) (body : List Stmt) : Limited (List Line) := do
  return (← body.mapM lines).flatten

/-- The lines of a statement, with so many visits open at once. -/
def Stmt.linesWithin : Nat → String → Bool → Nat → Stmt → Limited (List Line)
  | 0, _, _, _, _ => ExceptT.mk none
  | limit + 1, _, _, level, .declare d => do
    let text ← d.textWithin limit
    return [⟨level, text⟩]
  | limit + 1, _, _, level, .function name params body => do
    let inner ← linesOfAll (linesWithin limit "if" false (level + 1)) body
    return ⟨level, "def " ++ name ++ "(" ++ commaSeparated params ++ "):"⟩ ::
      bodyLines (level + 1) inner
  | limit + 1, opening, inFor, level, .ifThen condition yes => do
    let test ← condition.textWithin limit
    let inner ← linesOfAll (linesWithin limit "if" inFor (level + 1)) yes
    return ⟨level, opening ++ " " ++ test ++ ":"⟩ :: bodyLines (level + 1) inner
  | limit + 1, opening, inFor, level, .ifElse condition yes no => do
    let test ← condition.textWithin limit
    let inner ← linesOfAll (linesWithin limit "if" inFor (level + 1)) yes
    let first := ⟨level, opening ++ " " ++ test ++ ":"⟩ :: bodyLines (level + 1) inner
    if isElseIf no then
      let rest ← linesOfAll (linesWithin limit "elif" inFor level) no
      return first ++ rest
    else
      let rest ← linesOfAll (linesWithin limit "if" inFor (level + 1)) no
      return first ++ ⟨level, "else:"⟩ :: bodyLines (level + 1) rest
  | limit + 1, _, _, level, .whileLoop condition body => do
    let test ← condition.textWithin limit
    let inner ← linesOfAll (linesWithin limit "if" false (level + 1)) body
    return ⟨level, "while " ++ test ++ ":"⟩ :: bodyLines (level + 1) inner
  | limit + 1, _, _, level, .forLoop init condition update body => do
    let first ← init.textWithin limit
    let test ← condition.textWithin limit
    let inner ← linesOfAll (linesWithin limit "if" true (level + 1)) body
    let last ← update.lineTextWithin limit
    return ⟨level, first⟩ :: ⟨level, "while " ++ test ++ ":"⟩ ::
      (inner ++ [⟨level + 1, last⟩])
  | _ + 1, _, _, level, .giveBack none => return [⟨level, "return"⟩]
  | limit + 1, _, _, level, .giveBack (some value) => do
    let text ← value.textWithin limit
    return [⟨level, "return " ++ text⟩]
  | _ + 1, _, _, level, .breakLoop => return [⟨level, "break"⟩]
  | _ + 1, _, inFor, level, .continueLoop =>
    if inFor then
      throw (.unsupported "'continue' directly inside a for loop")
    else
      return [⟨level, "continue"⟩]
  | limit + 1, _, _, level, .expr value => do
    let text ← value.lineTextWithin limit
    return [⟨level, text⟩]

/-- The lines of a script, with so many visits open at once. -/
def Program.linesWithin (limit : Nat) (program : Program) : Limited (List Line) :=
  linesOfAll (Stmt.linesWithin limit "if" false 0) program.body

theorem mapM_eq_full_exprTexts {f : Expr → Limited String} {es : List Expr}
    (h : ∀ e ∈ es, f e = full e.text) : es.mapM f = full (exprTexts es) := by
  induction es with
  | nil => rfl
  | cons e rest ih =>
    obtain ⟨he, hrest⟩ := List.forall_mem_cons.mp h
    rw [List.mapM_cons, he, ih hrest, exprTexts]
    simp only [full_bind, full_pure]

theorem linesOfAll_eq {f : Stmt → Limited (List Line)} {opening : String} {inFor : Bool}
    {level : Nat} {body : List Stmt} (h : ∀ s ∈ body, f s = full (s.lines opening inFor level)) :
    linesOfAll f body = full (stmtsLines opening inFor level body) := by
  induction body with
  | nil => rfl
  | cons s rest ih =>
    obtain ⟨hs, hrest⟩ := List.forall_mem_cons.mp h
    rw [linesOfAll, List.mapM_cons, hs, stmtsLines]
    simp only [full_bind, full_pure, bind_assoc, pure_bind, List.flatten_cons, ← ih hrest,
      linesOfAll]

theorem Expr.textWithin_eq {limit : Nat} {e : Expr} (h : Below limit e.paths) :
    e.textWithin limit = full e.text := by
  induction limit generalizing e with
  | zero => exact absurd h e.not_below_zero
  | succ limit ih =>
    have hlist {es : List Expr} {passage : Passage}
        (hes : Below (limit + 1) (into passage (exprsPaths es))) :
        es.mapM (textWithin limit) = full (exprTexts es) := by
      obtain ⟨_, hlimit, hbelow⟩ := hes.of_into
      obtain rfl := Nat.succ.inj hlimit
      exact mapM_eq_full_exprTexts fun e he => ih (below_exprsPaths.mp hbelow e he)
    cases e with
    | assign target value =>
      rw [textWithin, text, full_throw]
    | binary op left right =>
      rw [paths, below_append, below_along, below_along] at h
      rw [textWithin, ih h.1, ih h.2, text]
      simp only [full_bind, full_pure]
    | unary op operand =>
      rw [paths, below_along] at h
      rw [textWithin, ih h, text]
      simp only [full_bind, full_pure]
    | call callee arguments =>
      rw [paths] at h
      rw [textWithin, hlist h, text]
      simp only [full_bind, full_pure]
    | array elements =>
      rw [paths] at h
      rw [textWithin, hlist h, text]
      simp only [full_bind, full_pure]
    | index object offset =>
      rw [paths, below_append, below_along, below_along] at h
      rw [textWithin, ih h.1, ih h.2, text]
      simp only [full_bind, full_pure]
    | property object name =>
      rw [paths, below_along] at h
      rw [textWithin, ih h, text]
      simp only [full_ite, full_bind, full_pure, full_throw]
    | boolean value => cases value <;> rw [textWithin, text, full_pure]
    | _ => rw [textWithin, text, full_pure]

theorem Expr.lineTextWithin_eq {limit : Nat} {e : Expr} (h : Below limit e.paths) :
    e.lineTextWithin limit = full e.lineText := by
  induction limit generalizing e with
  | zero => exact absurd h e.not_below_zero
  | succ limit ih =>
    cases e with
    | assign target value =>
      rw [paths, below_append, below_along, below_along] at h
      rw [lineTextWithin, Expr.textWithin_eq h.1, ih h.2, lineText]
      simp only [full_bind, full_pure]
    | _ =>
      rw [lineTextWithin, Expr.textWithin_eq h, lineText]
      all_goals
        intros
        contradiction

theorem Declaration.textWithin_eq {limit : Nat} {d : Declaration} (h : Below limit d.paths) :
    d.textWithin limit = full d.text := by
  obtain ⟨kind, name, init⟩ := d
  cases init with
  | none => rfl
  | some value =>
    rw [textWithin, text]
    simp only [Expr.lineTextWithin_eq (e := value) h, full_bind, full_pure]

theorem Stmt.linesWithin_eq {limit : Nat} {s : Stmt} (opening : String) (inFor : Bool) (level : Nat)
    (h : Below limit s.paths) :
    s.linesWithin (limit + 1) opening inFor level = full (s.lines opening inFor level) := by
  induction limit using Nat.strongRecOn generalizing s opening inFor level with
  | ind limit ih =>
    have hblock {body : List Stmt} {passage : Passage} (opening : String) (inFor : Bool)
        (level : Nat) (hbody : Below limit (into passage (stmtsPaths body))) :
        linesOfAll (linesWithin limit opening inFor level) body =
          full (stmtsLines opening inFor level body) := by
      obtain ⟨below, rfl, hbelow⟩ := hbody.of_into
      exact linesOfAll_eq fun s hs =>
        ih below (Nat.lt_succ_self below) opening inFor level (below_stmtsPaths.mp hbelow s hs)
    cases s with
    | declare d =>
      rw [linesWithin, Declaration.textWithin_eq h, lines]
      simp only [full_bind, full_pure]
    | function name params body =>
      rw [paths] at h
      rw [linesWithin, hblock _ _ _ h, lines]
      simp only [full_bind, full_pure]
    | ifThen condition yes =>
      rw [paths, below_append] at h
      rw [linesWithin, Expr.textWithin_eq h.1, hblock _ _ _ h.2, lines]
      simp only [full_bind, full_pure]
    | ifElse condition yes no =>
      rw [paths, below_append, below_append] at h
      rw [linesWithin, Expr.textWithin_eq h.1, hblock _ _ _ h.2.1, hblock _ _ _ h.2.2,
        hblock _ _ _ h.2.2, lines]
      simp only [full_bind, full_pure, full_ite]
    | whileLoop condition body =>
      rw [paths, below_append] at h
      rw [linesWithin, Expr.textWithin_eq h.1, hblock _ _ _ h.2, lines]
      simp only [full_bind, full_pure]
    | forLoop init condition update body =>
      rw [paths, below_append, below_append, below_append] at h
      rw [linesWithin, Declaration.textWithin_eq h.1, Expr.textWithin_eq h.2.1,
        Expr.lineTextWithin_eq h.2.2.1, hblock _ _ _ h.2.2.2, lines]
      simp only [full_bind, full_pure]
    | giveBack value =>
      cases value with
      | none => rw [linesWithin, lines, full_pure]
      | some value =>
        rw [linesWithin, Expr.textWithin_eq h, lines]
        simp only [full_bind, full_pure]
    | breakLoop => rw [linesWithin, lines, full_pure]
    | continueLoop =>
      rw [linesWithin, lines, full_ite, full_throw, full_pure]
    | expr value =>
      rw [linesWithin, Expr.lineTextWithin_eq h, lines]
      simp only [full_bind, full_pure]

theorem Program.linesWithin_eq {limit : Nat} {program : Program} (h : Below limit program.paths) :
    program.linesWithin (limit + 1) = full program.lines :=
  linesOfAll_eq fun s hs => Stmt.linesWithin_eq "if" false 0 (below_stmtsPaths.mp h s hs)

end Offside
