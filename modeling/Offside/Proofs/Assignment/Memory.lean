import Mathlib.Logic.Function.Basic
import Offside.Tree

/-!
# Values, places and the memory of a script

A `Memory` of integers and arrays says what each `Place` holds: a variable, or an element of an
array. Arrays are values by reference, so two variables may stand for the same one. What is common
to the script language and its output language, arithmetic and which element an index means, is a
parameter (`Meaning`).

Storing one value at several places (`Memory.storeAll`) does not depend on their order, and two
lists of places lead to the same memory exactly if what is in only one of them holds the value
already (`Memory.storeAll_eq_storeAll_iff`).

An expression without side effects has a value (`Expr.value?`), and one that can stand on the left
of `=` a place (`Expr.place?`). As far as its text tells, it depends on variables by name and on
elements as a whole (`Region`): **a store outside of the regions that an expression reads does not
change its value** (`Expr.value?_store`).
-/

namespace Offside

/-! ### Memories -/

/-- What a place can hold. An array is given by its address. -/
inductive Value where
  | number (value : Int)
  | array (address : Nat)
deriving DecidableEq

/-- The integer that a value is. -/
def Value.number? : Value → Option Int
  | number value => some value
  | array _ => none

/-- The address of the array that a value is. -/
def Value.address? : Value → Option Nat
  | number _ => none
  | array address => some address

/-- Where a value can be stored. -/
inductive Place where
  | variable (name : String)
  | element (address position : Nat)
deriving DecidableEq

/-- How long the arrays are, and what each place holds. -/
@[ext]
structure Memory where
  lengths : Nat → Nat
  held : Place → Option Value

namespace Memory

/-- Stores a value at a place. -/
def store (memory : Memory) (place : Place) (x : Value) : Memory :=
  { memory with held := Function.update memory.held place (some x) }

/-- Stores a value at several places. -/
def storeAll (memory : Memory) (x : Value) : List Place → Memory
  | [] => memory
  | place :: rest => (memory.store place x).storeAll x rest

variable {memory : Memory} {x : Value}

theorem held_store_of_ne {place other : Place} (h : other ≠ place) :
    (memory.store place x).held other = memory.held other :=
  Function.update_of_ne h _ _

@[simp]
theorem lengths_storeAll (places : List Place) :
    (memory.storeAll x places).lengths = memory.lengths := by
  induction places generalizing memory with
  | nil => rfl
  | cons place rest ih => exact ih

theorem held_storeAll (places : List Place) (place : Place) :
    (memory.storeAll x places).held place =
      if place ∈ places then some x else memory.held place := by
  induction places generalizing memory with
  | nil => simp only [storeAll, List.not_mem_nil, if_false]
  | cons first rest ih =>
    rw [storeAll, ih]
    by_cases hrest : place ∈ rest
    · rw [if_pos hrest, if_pos (List.mem_cons_of_mem first hrest)]
    · rw [if_neg hrest]
      by_cases hfirst : place = first
      · rw [if_pos (hfirst ▸ List.mem_cons_self), hfirst]
        exact Function.update_self first (some x) memory.held
      · rw [if_neg (List.not_mem_cons_of_ne_of_not_mem hfirst hrest), held_store_of_ne hfirst]

/-- **One value stored at two lists of places gives one memory exactly if each place in only one of
them holds it already.** -/
theorem storeAll_eq_storeAll_iff {places others : List Place} :
    memory.storeAll x places = memory.storeAll x others ↔
      ∀ place, (place ∈ places ↔ place ∉ others) → memory.held place = some x := by
  simp only [Memory.ext_iff, lengths_storeAll, true_and, funext_iff, held_storeAll]
  refine forall_congr' fun place => ?_
  -- Only a place in one of the lists can be held differently.
  by_cases hplaces : place ∈ places <;> by_cases hothers : place ∈ others <;>
    simp [hplaces, hothers, eq_comm]

/-- A place can be stored to last as well as first. -/
theorem store_storeAll (places : List Place) (place : Place) :
    (memory.storeAll x places).store place x = memory.storeAll x (place :: places) := by
  have hlast :
      (memory.storeAll x places).store place x = memory.storeAll x (places ++ [place]) := by
    induction places generalizing memory with
    | nil => rfl
    | cons first rest ih => exact ih
  rw [hlast, storeAll_eq_storeAll_iff]
  intro other hother
  have hsame : other ∈ places ++ [place] ↔ other ∈ place :: places := by simp [or_comm]
  exact absurd (hsame.symm.trans hother) iff_not_self

end Memory

/-! ### Values of expressions -/

/-- Does the operator compute a number from numbers? -/
def BinaryOp.isArithmetic (op : BinaryOp) : Bool :=
  op.tier = .sum || op.tier = .product

/-- What operators compute, and which element of an array of a given length an index means. Both may
be undefined. -/
structure Meaning where
  compute : BinaryOp → Int → Int → Option Int
  position : (length : Nat) → Int → Option (Fin length)

namespace Meaning

/-- Sums, differences and products of integers, and elements counted from zero. -/
def plain : Meaning where
  compute
    | .add, a, b => some (a + b)
    | .sub, a, b => some (a - b)
    | .mul, a, b => some (a * b)
    | _, _, _ => none
  position length n :=
    if h : 0 ≤ n ∧ n < length then some ⟨n.toNat, by omega⟩ else none

/-- The negative of a number. -/
def negative? (x : Value) : Option Value :=
  x.number?.map fun n => .number (-n)

variable (meaning : Meaning)

/-- What an operator makes of two numbers. -/
def result? (op : BinaryOp) (x y : Value) : Option Value := do
  let a ← x.number?
  let b ← y.number?
  let c ← meaning.compute op a b
  return .number c

/-- The element of an array that an index means. -/
def element? (memory : Memory) (object index : Value) : Option Place := do
  let address ← object.address?
  let n ← index.number?
  let position ← meaning.position (memory.lengths address) n
  return .element address position

end Meaning

/-- Is the expression made of names, numbers, arithmetic and indexing? -/
def Expr.isSimple : Expr → Bool
  | .ident _ => true
  | .number _ => true
  | .unary .neg operand => operand.isSimple
  | .binary op left right => op.isArithmetic && (left.isSimple && right.isSimple)
  | .index object offset => object.isSimple && offset.isSimple
  | _ => false

section Evaluation

variable (meaning : Meaning) (memory : Memory)

/-- The value of a simple expression. -/
def Expr.value? : Expr → Option Value
  | .ident name => memory.held (.variable name)
  | .number n => some (.number n)
  | .unary .neg operand => do
    let x ← operand.value?
    Meaning.negative? x
  | .binary op left right => do
    let x ← left.value?
    let y ← right.value?
    meaning.result? op x y
  | .index object offset => do
    let array ← object.value?
    let n ← offset.value?
    let place ← meaning.element? memory array n
    memory.held place
  | _ => none

/-- The place that a target means. Its object and its index are evaluated for it. -/
def Expr.place? : Expr → Option Place
  | .ident name => some (.variable name)
  | .index object offset => do
    let array ← object.value? meaning memory
    let n ← offset.value? meaning memory
    meaning.element? memory array n
  | _ => none

end Evaluation

/-! ### What expressions depend on -/

/-- Places that the text of an expression does not tell apart. -/
inductive Region where
  | variable (name : String)
  | elements
deriving DecidableEq

/-- The region in which a place lies. -/
def Place.region : Place → Region
  | .variable name => .variable name
  | .element _ _ => .elements

/-- May the value of an expression depend on the region? -/
def Expr.reads (region : Region) : Expr → Bool
  | .ident name => region = .variable name
  | .unary _ operand => operand.reads region
  | .binary _ left right => left.reads region || right.reads region
  | .index object offset => object.reads region || (offset.reads region || region = .elements)
  | _ => false

/-- May the place of a target depend on the region? -/
def Expr.looksUp (region : Region) : Expr → Bool
  | .index object offset => object.reads region || offset.reads region
  | _ => false

/-- The region to which a target belongs. -/
def Expr.region? : Expr → Option Region
  | .ident name => some (.variable name)
  | .index _ _ => some .elements
  | _ => none

section Frame

variable {meaning : Meaning} {memory : Memory} {place : Place} {x : Value}

theorem Meaning.region_of_element? {object index : Value}
    (h : meaning.element? memory object index = some place) : place.region = .elements := by
  simp only [element?, Option.bind_eq_bind, Option.bind_eq_some_iff, Option.pure_def,
    Option.some.injEq] at h
  obtain ⟨address, -, n, -, position, -, rfl⟩ := h
  rfl

theorem Expr.region?_of_place? {target : Expr} (h : target.place? meaning memory = some place) :
    target.region? = some place.region := by
  cases target with
  | ident name =>
    cases h
    rfl
  | index object offset =>
    simp only [place?, Option.bind_eq_bind, Option.bind_eq_some_iff] at h
    obtain ⟨array, -, n, -, helement⟩ := h
    rw [Meaning.region_of_element? helement]
    rfl
  | _ => cases h

/-- **A store outside of what an expression reads keeps its value.** -/
theorem Expr.value?_store (e : Expr) (h : e.reads place.region = false) :
    e.value? meaning (memory.store place x) = e.value? meaning memory := by
  cases e with
  | ident name =>
    refine Memory.held_store_of_ne ?_
    rintro rfl
    exact absurd h (by simp [reads, Place.region])
  | unary op operand =>
    cases op with
    | neg => rw [value?, value?, value?_store operand h]
    | not => rfl
  | binary op left right =>
    simp only [reads, Bool.or_eq_false_iff] at h
    rw [value?, value?, value?_store left h.1, value?_store right h.2]
  | index object offset =>
    simp only [reads, Bool.or_eq_false_iff, decide_eq_false_iff_not] at h
    obtain ⟨hobject, hindex, hregion⟩ := h
    rw [value?, value?, value?_store object hobject, value?_store offset hindex]
    refine Option.bind_congr fun array _ => Option.bind_congr fun n _ =>
      Option.bind_congr fun element helement => Memory.held_store_of_ne ?_
    -- The element lies in the one region that the place does not.
    rintro rfl
    exact hregion (Meaning.region_of_element? helement)
  | _ => rfl

/-- A store outside of what a target looks up keeps its place. -/
theorem Expr.place?_store {target : Expr} (h : target.looksUp place.region = false) :
    target.place? meaning (memory.store place x) = target.place? meaning memory := by
  cases target with
  | index object offset =>
    simp only [looksUp, Bool.or_eq_false_iff] at h
    rw [place?, place?, object.value?_store h.1, offset.value?_store h.2]
    rfl
  | _ => rfl

end Frame

end Offside
