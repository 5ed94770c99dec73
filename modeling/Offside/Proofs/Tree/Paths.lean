import Offside.Tree

/-!
# Paths through a tree

A path leads from the top of a script down to one of its leaves. It is the list of the steps that
go into a construct: into a block, into the `else` of an `if`, or from an expression that is no leaf
into one of its parts. So the length of a path is the number of constructs that it passes through.

Steps come in two kinds. Some *open a level*, as reading them takes one off the levels that may
still be opened; the others only go *along* what is read on one level: an operator and its operands,
what a suffix is put behind, and what is assigned to. `Within levels links paths` bounds both kinds.
-/

namespace Offside

/-- A step from a construct into one of its parts. -/
inductive Passage where
  | block
  /-- The block after an `else`, or the `if` that follows it. -/
  | otherwise
  /-- What is assigned to. -/
  | target
  /-- What is assigned. -/
  | value
  | left
  | right
  /-- The operand of a sign. -/
  | operand
  | arguments
  | elements
  /-- What stands before a suffix. -/
  | object
  | index
deriving DecidableEq

/-- Does the step open a level? -/
def Passage.opensLevel : Passage → Bool
  | target => false
  | left => false
  | right => false
  | object => false
  | _ => true

/-- The steps from the top of a tree down to a leaf. -/
abbrev Path := List Passage

namespace Path

/-- How many levels are opened on the way. -/
def levels (path : Path) : Nat :=
  path.countP Passage.opensLevel

/-- How many steps on the way stay on one level. -/
def links (path : Path) : Nat :=
  path.countP fun passage => !passage.opensLevel

/-- Every step is of one of the two kinds. -/
theorem length_eq (path : Path) : path.length = path.levels + path.links := by
  rw [List.length_eq_countP_add_countP Passage.opensLevel, levels, links]
  simp only [Bool.not_eq_true, Bool.decide_eq_false]

theorem levels_cons (passage : Passage) (path : Path) :
    levels (passage :: path) = path.levels + if passage.opensLevel then 1 else 0 :=
  List.countP_cons

theorem links_cons (passage : Passage) (path : Path) :
    links (passage :: path) = path.links + if passage.opensLevel then 0 else 1 := by
  rw [links, List.countP_cons, links]
  cases passage.opensLevel <;> rfl

end Path

/-! ### The paths of a script -/

/-- The paths that start with the given step. -/
def along (passage : Passage) (paths : List Path) : List Path :=
  paths.map (passage :: ·)

/-- The paths into a construct that may be empty. -/
def into (passage : Passage) (paths : List Path) : List Path :=
  [passage] :: along passage paths

mutual

/-- The paths from an expression to its leaves. -/
def Expr.paths : Expr → List Path
  | .assign target value => along .target target.paths ++ along .value value.paths
  | .binary _ left right => along .left left.paths ++ along .right right.paths
  | .unary _ operand => along .operand operand.paths
  | .call _ arguments => into .arguments (exprsPaths arguments)
  | .array elements => into .elements (exprsPaths elements)
  | .index object index => along .object object.paths ++ along .index index.paths
  | .property object _ => along .object object.paths
  | .ident _ => [[]]
  | .number _ => [[]]
  | .string _ => [[]]
  | .boolean _ => [[]]

/-- The paths of several expressions. -/
def exprsPaths : List Expr → List Path
  | [] => []
  | e :: others => e.paths ++ exprsPaths others

end

/-- The paths from a declaration, through its first value if it has one. -/
def Declaration.paths (d : Declaration) : List Path :=
  (d.init.map Expr.paths).getD [[]]

mutual

/-- The paths from a statement. -/
def Stmt.paths : Stmt → List Path
  | .declare d => d.paths
  | .function _ _ body => into .block (stmtsPaths body)
  | .ifThen condition yes => condition.paths ++ into .block (stmtsPaths yes)
  | .ifElse condition yes no =>
    condition.paths ++ (into .block (stmtsPaths yes) ++ into .otherwise (stmtsPaths no))
  | .whileLoop condition body => condition.paths ++ into .block (stmtsPaths body)
  | .forLoop init condition update body =>
    init.paths ++ (condition.paths ++ (update.paths ++ into .block (stmtsPaths body)))
  | .giveBack value => (value.map Expr.paths).getD [[]]
  | .breakLoop => [[]]
  | .continueLoop => [[]]
  | .expr value => value.paths

/-- The paths of several statements. -/
def stmtsPaths : List Stmt → List Path
  | [] => []
  | s :: rest => s.paths ++ stmtsPaths rest

end

/-- The paths of a script. -/
def Program.paths (program : Program) : List Path :=
  stmtsPaths program.body

theorem mem_exprsPaths {path : Path} {es : List Expr} :
    path ∈ exprsPaths es ↔ ∃ e ∈ es, path ∈ e.paths := by
  induction es with
  | nil => simp [exprsPaths]
  | cons e others ih => simp [exprsPaths, ih]

theorem mem_stmtsPaths {path : Path} {body : List Stmt} :
    path ∈ stmtsPaths body ↔ ∃ s ∈ body, path ∈ s.paths := by
  induction body with
  | nil => simp [stmtsPaths]
  | cons s rest ih => simp [stmtsPaths, ih]

/-! ### Bounds on paths -/

/-- No path opens more than `levels` levels or has more than `links` other steps. -/
def Within (levels links : Nat) (paths : List Path) : Prop :=
  ∀ path ∈ paths, path.levels ≤ levels ∧ path.links ≤ links

section Within

variable {levels links : Nat} {paths others : List Path} {passage : Passage}

theorem within_leaf : Within levels links [[]] :=
  List.forall_mem_singleton.mpr ⟨Nat.zero_le _, Nat.zero_le _⟩

theorem Within.mono {levels' links' : Nat} (h : Within levels links paths)
    (hlevels : levels ≤ levels') (hlinks : links ≤ links') : Within levels' links' paths :=
  fun path hpath =>
    ⟨Nat.le_trans (h path hpath).1 hlevels, Nat.le_trans (h path hpath).2 hlinks⟩

theorem Within.append (h : Within levels links paths) (hothers : Within levels links others) :
    Within levels links (paths ++ others) :=
  List.forall_mem_append.mpr ⟨h, hothers⟩

/-- A step that opens a level takes a level. -/
theorem Within.along_level (hopens : passage.opensLevel = true) (h : Within levels links paths) :
    Within (levels + 1) links (along passage paths) := by
  intro path hpath
  obtain ⟨inner, hinner, rfl⟩ := List.mem_map.mp hpath
  obtain ⟨hlevels, hlinks⟩ := h inner hinner
  rw [Path.levels_cons, Path.links_cons, hopens]
  exact ⟨Nat.add_le_add_right hlevels 1, hlinks⟩

/-- Every other step takes a link. -/
theorem Within.along_link (hstays : passage.opensLevel = false) (h : Within levels links paths) :
    Within levels (links + 1) (along passage paths) := by
  intro path hpath
  obtain ⟨inner, hinner, rfl⟩ := List.mem_map.mp hpath
  obtain ⟨hlevels, hlinks⟩ := h inner hinner
  rw [Path.levels_cons, Path.links_cons, hstays]
  exact ⟨hlevels, Nat.add_le_add_right hlinks 1⟩

theorem Within.into (hopens : passage.opensLevel = true) (h : Within levels links paths) :
    Within (levels + 1) links (into passage paths) := by
  have hempty : Within 0 links [[]] := within_leaf
  have hstep := (hempty.along_level hopens).mono (Nat.le_add_left _ levels) (Nat.le_refl _)
  exact hstep.append (h.along_level hopens)

theorem within_exprs {es : List Expr} (h : ∀ e ∈ es, Within levels links e.paths) :
    Within levels links (exprsPaths es) := by
  intro path hpath
  obtain ⟨e, he, hpath⟩ := mem_exprsPaths.mp hpath
  exact h e he path hpath

theorem within_stmts {body : List Stmt} (h : ∀ s ∈ body, Within levels links s.paths) :
    Within levels links (stmtsPaths body) := by
  intro path hpath
  obtain ⟨s, hs, hpath⟩ := mem_stmtsPaths.mp hpath
  exact h s hs path hpath

end Within

end Offside
