import Offside.Proofs.Assignment.Memory

/-!
# Chains of assignments, stored in two orders

A chain assigns one value to several targets. The script language finds the places of all targets
first, from left to right, then the value, and stores from right to left (`Expr.run`). The output
language starts with the value; it then goes through the targets from left to right and stores to
each before it looks at the next (`Expr.runInTurn`), so the stores to the targets on its left can
move a target to another place.

Both store the same value, so the order of the stores is no difference, only the places are:
**the two agree exactly if each place that only one of them stores to holds the value already**
(`Expr.runInTurn_eq_run_iff`). That is so whenever no target looks up what a target on its left may
store to (`Expr.Independent`), since then the places are the same (`placesInTurn_of_independent`).
-/

namespace Offside

/-! ### Chains -/

/-- The targets of a chain, from left to right. -/
def Expr.targets : Expr → List Expr
  | .assign target value => target :: value.targets
  | _ => []

/-- What is assigned to all targets of a chain. -/
def Expr.assigned : Expr → Expr
  | .assign _ value => value.assigned
  | e => e

/-- Is the expression a chain of targets and a value without side effects? -/
def Expr.isChain : Expr → Bool
  | .assign target value => target.isTarget && (target.isSimple && value.isChain)
  | e => e.isSimple

/-- Stores to the one target never move the other. -/
def Expr.Spares (target other : Expr) : Prop :=
  ∀ region ∈ target.region?, other.looksUp region = false

instance : DecidableRel Expr.Spares := fun target other =>
  inferInstanceAs (Decidable (∀ region ∈ target.region?, other.looksUp region = false))

/-- No target looks up what a target on its left may store to. -/
def Expr.Independent (a : Expr) : Prop :=
  a.targets.Pairwise Expr.Spares

instance (a : Expr) : Decidable a.Independent :=
  inferInstanceAs (Decidable (a.targets.Pairwise Expr.Spares))

section Rules

variable (meaning : Meaning)

/-- The rule of the script language: an assignment finds its place, then the value, and then stores
it. What is assigned is also the value of the assignment. -/
def Expr.perform (memory : Memory) : Expr → Option (Value × Memory)
  | .assign target value => do
    let place ← target.place? meaning memory
    let (x, after) ← value.perform memory
    return (x, after.store place x)
  | e => do
    let x ← e.value? meaning memory
    return (x, memory)

/-- The memory that a chain leaves by the rule of the script language. -/
def Expr.run (a : Expr) (memory : Memory) : Option Memory :=
  (a.perform meaning memory).map Prod.snd

/-- The rule of the output language for targets whose value is known: each of them is found and
stored to before the next. -/
def storeInTurn {Target : Type} (place? : Target → Memory → Option Place) (x : Value) :
    List Target → Memory → Option Memory
  | [], memory => some memory
  | target :: rest, memory => do
    let place ← place? target memory
    storeInTurn place? x rest (memory.store place x)

/-- The memory that a chain leaves by the rule of the output language. -/
def Expr.runInTurn (a : Expr) (memory : Memory) : Option Memory := do
  let x ← a.assigned.value? meaning memory
  storeInTurn (fun target memory => target.place? meaning memory) x a.targets memory

/-- The places of targets in one memory. -/
def placesBefore (memory : Memory) (targets : List Expr) : Option (List Place) :=
  targets.mapM fun target => target.place? meaning memory

/-- The places of targets, each after the stores to those on its left. -/
def placesInTurn (x : Value) : List Expr → Memory → Option (List Place)
  | [], _ => some []
  | target :: rest, memory => do
    let place ← target.place? meaning memory
    let places ← placesInTurn x rest (memory.store place x)
    return place :: places

end Rules

/-- Storing the value at either list of places leads to the same memory: each place in only one of
them holds it already. Where there is no list of places, nothing is left to compare. -/
inductive Memory.Alike (memory : Memory) (x : Value) :
    Option (List Place) → Option (List Place) → Prop
  | undefined : Alike memory x none none
  | stored {places others : List Place}
      (h : ∀ place, (place ∈ places ↔ place ∉ others) → memory.held place = some x) :
      Alike memory x (some places) (some others)

/-! ### The two rules in terms of places -/

variable {meaning : Meaning} {memory : Memory} {x : Value}

theorem placesBefore_cons (target : Expr) (rest : List Expr) :
    placesBefore meaning memory (target :: rest) =
      (target.place? meaning memory).bind fun place =>
        (placesBefore meaning memory rest).map (place :: ·) := by
  rw [placesBefore, List.mapM_cons]
  cases target.place? meaning memory with
  | none => rfl
  | some place =>
    change (placesBefore meaning memory rest).bind _ = (placesBefore meaning memory rest).map _
    cases placesBefore meaning memory rest <;> rfl

theorem placesInTurn_cons (target : Expr) (rest : List Expr) :
    placesInTurn meaning x (target :: rest) memory =
      (target.place? meaning memory).bind fun place =>
        (placesInTurn meaning x rest (memory.store place x)).map (place :: ·) := by
  rw [placesInTurn]
  refine Option.bind_congr fun place _ => ?_
  cases placesInTurn meaning x rest (memory.store place x) <;> rfl

/-- **The script language stores at the places from before.** -/
theorem Expr.perform_eq (a : Expr) :
    a.perform meaning memory = (placesBefore meaning memory a.targets).bind fun places =>
      (a.assigned.value? meaning memory).map fun x => (x, memory.storeAll x places) := by
  cases a with
  | assign target value =>
    rw [perform, targets, assigned, placesBefore_cons, value.perform_eq]
    cases target.place? meaning memory with
    | none => rfl
    | some place =>
      cases placesBefore meaning memory value.targets with
      | none => rfl
      | some places =>
        cases value.assigned.value? meaning memory with
        | none => rfl
        | some x =>
          -- The place is stored to last here, and comes first in the list.
          exact congrArg (fun after => some (x, after)) (Memory.store_storeAll places place)
  | _ =>
    rw [perform]
    · exact Option.map_eq_bind.symm
    · intro target value h
      cases h

/-- **The output language stores at the places that it finds in turn.** -/
theorem storeInTurn_eq (targets : List Expr) :
    storeInTurn (fun target memory => target.place? meaning memory) x targets memory =
      (placesInTurn meaning x targets memory).map (memory.storeAll x) := by
  induction targets generalizing memory with
  | nil => rfl
  | cons target rest ih =>
    rw [storeInTurn, placesInTurn_cons, Option.map_bind]
    refine Option.bind_congr fun place _ => ?_
    rw [ih, Function.comp_apply, Option.map_map]
    rfl

theorem Memory.alike_iff {places others : Option (List Place)} :
    memory.Alike x places others ↔
      others.map (memory.storeAll x) = places.map (memory.storeAll x) := by
  constructor
  · rintro (_ | h)
    · rfl
    · exact congrArg some (storeAll_eq_storeAll_iff.mpr h).symm
  · intro h
    cases places with
    | none =>
      obtain rfl := Option.map_eq_none_iff.mp h
      exact .undefined
    | some places =>
      obtain ⟨others, rfl, hsame⟩ := Option.map_eq_some_iff.mp h
      exact .stored (storeAll_eq_storeAll_iff.mp hsame.symm)

theorem Expr.run_eq (a : Expr) :
    a.run meaning memory = (a.assigned.value? meaning memory).bind fun x =>
      (placesBefore meaning memory a.targets).map (memory.storeAll x) := by
  rw [run, a.perform_eq]
  cases placesBefore meaning memory a.targets with
  | none => cases a.assigned.value? meaning memory <;> rfl
  | some places => cases a.assigned.value? meaning memory <;> rfl

theorem Expr.runInTurn_eq (a : Expr) :
    a.runInTurn meaning memory = (a.assigned.value? meaning memory).bind fun x =>
      (placesInTurn meaning x a.targets memory).map (memory.storeAll x) :=
  Option.bind_congr fun _ _ => storeInTurn_eq a.targets

/-- **The two rules agree exactly if they store the value at the same places**, those apart that
hold it already. -/
theorem Expr.runInTurn_eq_run_iff {a : Expr} :
    a.runInTurn meaning memory = a.run meaning memory ↔
      ∀ x ∈ a.assigned.value? meaning memory,
        memory.Alike x (placesBefore meaning memory a.targets)
          (placesInTurn meaning x a.targets memory) := by
  rw [run_eq, runInTurn_eq]
  cases a.assigned.value? meaning memory with
  | none => exact iff_of_true rfl fun x hx => by cases hx
  | some x =>
    simp only [Option.bind_some, Option.mem_some_iff, forall_eq', Memory.alike_iff]

/-! ### Independent targets -/

/-- A store to a place of one target moves no target that does not look up its region. -/
theorem placesBefore_store {target : Expr} {place : Place} {rest : List Expr}
    (hplace : target.place? meaning memory = some place)
    (h : ∀ later ∈ rest, target.Spares later) :
    placesBefore meaning (memory.store place x) rest = placesBefore meaning memory rest := by
  have hregion := Expr.region?_of_place? hplace
  induction rest with
  | nil => rfl
  | cons later others ih =>
    obtain ⟨hlater, hothers⟩ := List.forall_mem_cons.mp h
    rw [placesBefore_cons, placesBefore_cons, Expr.place?_store (hlater _ hregion), ih hothers]

/-- **Independent targets are found at the places from before.** -/
theorem placesInTurn_of_independent {targets : List Expr} (h : targets.Pairwise Expr.Spares) :
    placesInTurn meaning x targets memory = placesBefore meaning memory targets := by
  induction targets generalizing memory with
  | nil => rfl
  | cons target rest ih =>
    obtain ⟨hfirst, hrest⟩ := List.pairwise_cons.mp h
    rw [placesInTurn_cons, placesBefore_cons]
    refine Option.bind_congr fun place hplace => ?_
    rw [ih hrest, placesBefore_store hplace hfirst]

/-- **The two rules agree on independent targets.** -/
theorem Expr.Independent.runInTurn_eq_run {a : Expr} (h : a.Independent) :
    a.runInTurn meaning memory = a.run meaning memory := by
  rw [Expr.run_eq, Expr.runInTurn_eq]
  exact Option.bind_congr fun x _ => congrArg _ (placesInTurn_of_independent h)

end Offside
