import Offside.Command.Run
import Offside.Proofs.Files.Writing

/-!
# What a command does to the files

A command writes at most one file, and only a finished conversion. `BuildRun` lists the ways in
which `build` can end, each with its exit code and the store that it leaves: without having read its
input, without output, with its output printed, and with a write that fails or succeeds. Every other
command leaves the store as it is.

`Command.run_effect` is the main statement. The exit code and the store always agree: a command that
exits with 1 has changed nothing, and a `build` that exits with 0 has either printed its output or
written all of it, with a newline behind it, to the file it was asked to write.
-/

namespace Offside

/-! ### Checking -/

theorem exitCode_showConversion (input : String) (json : Bool) (conversion : Conversion) :
    (showConversion input json conversion).exitCode = 0 := by
  cases json <;> rfl

/-- A conversion is a success if there is nothing but warnings. -/
theorem Conversion.success_iff (conversion : Conversion) :
    conversion.success ↔ ∀ d ∈ conversion.diagnostics, d.severity = .warning := by
  have hwarning (d : Diagnostic) : d.isError = false ↔ d.severity = .warning := by
    rw [Diagnostic.isError]
    cases d.severity <;> simp [Severity.isError]
  simp only [success, hasErrors, Bool.not_eq_true', List.any_eq_false, Bool.not_eq_true, hwarning]

theorem exitCode_respondCheck (input : String) (json : Bool) (source : String) :
    (respondCheck input json source).exitCode = 0 ↔ (check source).success := by
  have hshown := exitCode_showConversion input json (check source)
  simp only [respondCheck]
  by_cases hsuccess : (check source).success
  · rw [if_pos hsuccess]
    refine iff_of_true ?_ hsuccess
    split <;> exact hshown
  · rw [if_neg hsuccess]
    exact iff_of_false Nat.one_ne_zero hsuccess

namespace Command

/-! ### The ways in which `build` ends -/

/-- The path to which `build` writes: the one that is given, or that of the input with another
extension. -/
def outputPath (input : String) (output : Option String) : String :=
  output.getD (Path.withExtension outputExtension input)

/-- How `build` can end: with which exit code, and with which store. -/
inductive BuildRun (store : FileStore) (input : String) (output : Option String)
    (settings : Settings) : Nat → FileStore → Prop where
  | unreadable {e : FileError} (hread : store.readText input = .error e) :
      BuildRun store input output settings 1 store
  | withoutOutput {source : String} (hread : store.readText input = .ok source)
      (hcode : (convert settings source).output = none) :
      BuildRun store input output settings 1 store
  | printed {source code : String} (hread : store.readText input = .ok source)
      (hcode : (convert settings source).output = some code)
      (hprint : output.any Path.isStandardOutput) :
      BuildRun store input output settings 0 store
  | unwritable {source code : String} {e : FileError} (hread : store.readText input = .ok source)
      (hcode : (convert settings source).output = some code)
      (hprint : ¬ output.any Path.isStandardOutput)
      (hwrite : store.write (outputPath input output) (code ++ "\n").toUTF8 = .error e) :
      BuildRun store input output settings 1 store
  | written {source code : String} {after : FileStore} (hread : store.readText input = .ok source)
      (hcode : (convert settings source).output = some code)
      (hprint : ¬ output.any Path.isStandardOutput)
      (hwrite : store.write (outputPath input output) (code ++ "\n").toUTF8 = .ok after) :
      BuildRun store input output settings 0 after

/-- A run of `build` ends in one of these ways. -/
theorem buildRun_run (store : FileStore) (input : String) (output : Option String)
    (settings : Settings) (json : Bool) :
    BuildRun store input output settings (run store (build input output settings json)).1.exitCode
      (run store (build input output settings json)).2 := by
  have hshown (conversion : Conversion) := exitCode_showConversion input json conversion
  simp only [run, respond, Command.input]
  cases hread : store.readText input with
  | error e => exact .unreadable hread
  | ok source =>
    simp only [respondBuild]
    cases hcode : (convert settings source).output with
    | none => exact .withoutOutput hread hcode
    | some code =>
      by_cases hprint : output.any Path.isStandardOutput
      · simp only [if_pos hprint]
        have hexit : (if json then showConversion input json (convert settings source)
            else { showConversion input json (convert settings source) with
              stdout := asLine code }).exitCode = 0 := by
          split <;> exact hshown _
        rw [hexit]
        exact .printed hread hcode hprint
      · simp only [if_neg hprint]
        cases hwrite : store.write (outputPath input output) (code ++ "\n").toUTF8 with
        | error e =>
          have hwrite' := hwrite
          rw [outputPath] at hwrite'
          simp only [asLine, hwrite']
          exact .unwritable hread hcode hprint hwrite
        | ok after =>
          have hwrite' := hwrite
          rw [outputPath] at hwrite'
          simp only [asLine, hwrite', hshown]
          exact .written hread hcode hprint hwrite

/-! ### Effects -/

/-- What a run of `build` has done, read off its exit code and the store that it leaves. -/
structure BuildEffect (store : FileStore) (input : String) (output : Option String)
    (settings : Settings) (exitCode : Nat) (after : FileStore) : Prop where
  /-- An input that cannot be read as text leads to no change. -/
  unreadable : (∀ source, store.readText input ≠ .ok source) → after = store
  /-- Nor does a script without output. -/
  without_output : ∀ source, store.readText input = .ok source →
    (convert settings source).output = none → after = store
  /-- Nor does output that is printed. -/
  printed : output.any Path.isStandardOutput → after = store
  /-- Nor does any run that fails. -/
  failed : exitCode = 1 → after = store
  /-- Otherwise one file holds the output with a newline behind it, and all others are as before. -/
  written : ∀ source code, store.readText input = .ok source →
    (convert settings source).output = some code → ¬ output.any Path.isStandardOutput →
    exitCode ≠ 1 →
    exitCode = 0 ∧ store.Updates after (outputPath input output) (code ++ "\n").toUTF8
  /-- The run succeeds exactly if there is output and it does not fail to be written. -/
  succeeds_iff : exitCode = 0 ↔ ∃ source code, store.readText input = .ok source ∧
    (convert settings source).output = some code ∧
    (output.any Path.isStandardOutput ∨
      ∃ written, store.write (outputPath input output) (code ++ "\n").toUTF8 = .ok written)

theorem BuildRun.effect {store : FileStore} {input : String} {output : Option String}
    {settings : Settings} {exitCode : Nat} {after : FileStore}
    (h : BuildRun store input output settings exitCode after) :
    BuildEffect store input output settings exitCode after := by
  constructor
  case unreadable =>
    intro hnever
    cases h with
    | written hread => exact absurd hread (hnever _)
    | _ => rfl
  case without_output =>
    intro source hread hnone
    cases h with
    | written hread' hcode =>
      obtain rfl := Except.ok.inj (hread.symm.trans hread')
      cases hnone.symm.trans hcode
    | _ => rfl
  case printed =>
    intro hprint
    cases h with
    | written _ _ hfile => exact absurd hprint hfile
    | _ => rfl
  case failed =>
    intro hexit
    cases h with
    | written => cases hexit
    | _ => rfl
  case written =>
    intro source code hread hcode hfile hexit
    cases h with
    | printed _ _ hprint => exact absurd hprint hfile
    | written hread' hcode' _ hwrite =>
      obtain rfl := Except.ok.inj (hread.symm.trans hread')
      obtain rfl := Option.some.inj (hcode.symm.trans hcode')
      exact ⟨rfl, FileStore.updates_of_write hwrite⟩
    | _ => exact absurd rfl hexit
  case succeeds_iff =>
    constructor
    · intro hexit
      cases h with
      | printed hread hcode hprint => exact ⟨_, _, hread, hcode, .inl hprint⟩
      | written hread hcode _ hwrite => exact ⟨_, _, hread, hcode, .inr ⟨_, hwrite⟩⟩
      | _ => cases hexit
    · rintro ⟨source, code, hread, hcode, hdone⟩
      cases h with
      | unreadable hnot => cases hread.symm.trans hnot
      | withoutOutput hread' hnone =>
        obtain rfl := Except.ok.inj (hread.symm.trans hread')
        cases hcode.symm.trans hnone
      | unwritable hread' hcode' hfile hnot =>
        obtain rfl := Except.ok.inj (hread.symm.trans hread')
        obtain rfl := Option.some.inj (hcode.symm.trans hcode')
        obtain hprint | ⟨after, hwrite⟩ := hdone
        · exact absurd hprint hfile
        · cases hwrite.symm.trans hnot
      | _ => rfl

/-- What a command does: its exit code and the store that it leaves. -/
def Effect (store : FileStore) (exitCode : Nat) (after : FileStore) : Command → Prop
  | build input output settings _ => BuildEffect store input output settings exitCode after
  | check input _ =>
    after = store ∧
      (exitCode = 0 ↔ ∃ source, store.readText input = .ok source ∧
        ∀ d ∈ (Offside.check source).diagnostics, d.severity = .warning)
  | tokens _ => after = store
  | tree _ => after = store

/-- **A command changes at most one file, and only with a finished conversion.** -/
theorem run_effect (store : FileStore) (command : Command) :
    command.Effect store (command.run store).1.exitCode (command.run store).2 := by
  cases command with
  | build input output settings json => exact (buildRun_run store input output settings json).effect
  | check input json =>
    simp only [Effect, run, respond, Command.input]
    cases hread : store.readText input with
    | error e => simp [unreadable]
    | ok source => simp [exitCode_respondCheck, Conversion.success_iff]
  | tokens input =>
    simp only [Effect, run, respond, Command.input]
    cases store.readText input <;> rfl
  | tree input =>
    simp only [Effect, run, respond, Command.input]
    cases store.readText input <;> rfl

end Command

end Offside
