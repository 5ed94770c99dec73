import Offside.Proofs.Command.Effects
import Offside.Proofs.Files.Extension

/-!
# What building does to its input

A `build` that is told nothing else writes its output next to its input, under the same name with
another extension. A script whose name has that extension already is its own output, and what is
written takes the place of what was read, unless the file is locked.

`Command.read_input_after_build` is the main statement: it tells from the name of the input, its
contents, the settings and whether it can be written what the input holds afterwards.
`Command.input_replaced` is a script that is lost.
-/

namespace Offside

namespace Command

variable {store : FileStore} {input : String} {bytes : ByteArray}

/-- The last segment of the path ends with the extension of output files, and what stands before is
neither empty nor a single dot. -/
def HasOutputName (input : String) : Prop :=
  ∃ stem, (Path.segments input).getLast? = some (stem ++ "." ++ outputExtension) ∧
    stem ≠ "" ∧ stem ≠ "."

/-- The files that are their own output. -/
theorem outputPath_eq_self_iff (hread : store.read input = .ok bytes) :
    outputPath input none = input ↔ HasOutputName input := by
  have hextension : '.' ∉ outputExtension.toList := by decide
  rw [outputPath, Option.getD_none, Path.withExtension_eq_self_iff,
    Path.extendName_eq_self_iff hextension (FileStore.isName_of_read hread), HasOutputName,
    Path.getLast?_segments]
  have hspelled (stem : String) :
      Path.fileName input.toList = stem.toList ++ '.' :: outputExtension.toList ↔
        some (String.ofList (Path.fileName input.toList)) =
          some (stem ++ "." ++ outputExtension) := by
    rw [Option.some_inj, ← String.toList_inj, String.toList_ofList, String.toList_append,
      String.toList_append, List.append_assoc]
    rfl
  constructor
  · rintro ⟨before, heq, hempty, hdot⟩
    refine ⟨String.ofList before, (hspelled _).mp (by rwa [String.toList_ofList]), ?_, ?_⟩
    · exact fun h => hempty (String.ofList_injective h)
    · exact fun h => hdot (String.ofList_injective h)
  · rintro ⟨stem, heq, hempty, hdot⟩
    refine ⟨stem.toList, (hspelled stem).mpr heq, ?_, ?_⟩
    · exact fun h => hempty (String.toList_injective h)
    · exact fun h => hdot (String.toList_injective h)

/-- What `build` leaves in its input, if the output goes elsewhere. -/
theorem read_input_of_ne {settings : Settings} {exitCode : Nat} {after : FileStore}
    (hread : store.read input = .ok bytes) (hne : outputPath input none ≠ input)
    (h : BuildRun store input none settings exitCode after) : after.read input = .ok bytes := by
  cases h with
  | written _ _ _ hwrite =>
    have hupdates := FileStore.updates_of_write hwrite
    obtain ⟨place, htarget⟩ := FileStore.target_of_read hread
    have helsewhere : store.target input ≠ store.target (outputPath input none) := by
      intro hsame
      exact hne (FileStore.withExtension_eq_self_of_target (by decide) htarget
        (hsame.symm.trans htarget))
    have hother := hupdates.other_paths input helsewhere
    rw [hread] at hother
    exact FileStore.eq_ok_of_toOption hother
  | _ => exact hread

theorem readText_of_read (hread : store.read input = .ok bytes) :
    (store.readText input).toOption = String.fromUTF8? bytes := by
  simp only [FileStore.readText, hread]
  cases String.fromUTF8? bytes <;> rfl

/-- What `build` leaves in its input, if that is where the output goes. -/
theorem read_input_of_eq {settings : Settings} {exitCode : Nat} {after : FileStore}
    (hread : store.read input = .ok bytes) (heq : outputPath input none = input)
    (h : BuildRun store input none settings exitCode after) :
    after.read input =
      .ok (if store.isWritable input then
        ((String.fromUTF8? bytes).bind fun source => (convert settings source).output).elim bytes
          fun code => (code ++ "\n").toUTF8
      else bytes) := by
  have hsource := readText_of_read hread
  cases h with
  | unreadable htext =>
    rw [htext] at hsource
    rw [← hsource, hread]
    exact congrArg _ (ite_self bytes).symm
  | withoutOutput htext hcode =>
    rw [htext] at hsource
    rw [← hsource, Except.toOption, Option.bind_some, hcode, hread]
    exact congrArg _ (ite_self bytes).symm
  | printed _ _ hprint => cases hprint
  | unwritable _ _ _ hwrite =>
    rw [heq] at hwrite
    have hlocked : ¬ store.isWritable input := by
      intro hwritable
      obtain ⟨after, hafter⟩ := FileStore.isWritable_iff.mp hwritable
      cases hafter.symm.trans hwrite
    rw [if_neg hlocked]
    exact hread
  | written htext hcode _ hwrite =>
    rw [heq] at hwrite
    rw [htext] at hsource
    rw [if_pos (FileStore.isWritable_iff.mpr ⟨_, hwrite⟩), ← hsource, Except.toOption,
      Option.bind_some, hcode]
    exact (FileStore.updates_of_write hwrite).holds

/-- **Building keeps its input, unless that is named like its output.** Then the output takes the
place of the script, if there is output and the file can be written. -/
theorem read_input_after_build (hread : store.read input = .ok bytes) (settings : Settings)
    (json : Bool) :
    let after := (run store (build input none settings json)).2
    (¬ HasOutputName input → after.read input = .ok bytes) ∧
      (HasOutputName input →
        after.read input =
          .ok (if store.isWritable input then
            ((String.fromUTF8? bytes).bind fun source =>
              (convert settings source).output).elim bytes fun code => (code ++ "\n").toUTF8
          else bytes)) := by
  intro after
  have hrun := buildRun_run store input none settings json
  constructor
  · intro hname
    exact read_input_of_ne hread (fun heq => hname ((outputPath_eq_self_iff hread).mp heq)) hrun
  · intro hname
    exact read_input_of_eq hread ((outputPath_eq_self_iff hread).mpr hname) hrun

/-- The scripts of a directory, two of them with the extension of output files. One of these is
locked. -/
def threeScripts : FileStore :=
  { FileStore.ofFiles [("lib/a.py.js", "var x;".toUTF8), ("lib/a.py", "var x;".toUTF8),
      ("lib/b.py", "var x;".toUTF8)] with
    locked := [.ofName "lib/b.py"] }

/-- Building `lib/a.py.js` writes `lib/a.py.py`, building `lib/a.py` writes `lib/a.py`, and building
`lib/b.py` would do the same but must not. -/
theorem read_input_after_build_of_dots :
    threeScripts.read "lib/a.py.js" = .ok "var x;".toUTF8 ∧
      (run threeScripts (build "lib/a.py.js" none {} false)).2.read "lib/a.py.js" =
        .ok "var x;".toUTF8 ∧
      threeScripts.read "lib/a.py" = .ok "var x;".toUTF8 ∧
      (run threeScripts (build "lib/a.py" none {} false)).2.read "lib/a.py" =
        .ok "x = None\n".toUTF8 ∧
      threeScripts.read "lib/b.py" = .ok "var x;".toUTF8 ∧
      (run threeScripts (build "lib/b.py" none {} false)).2.read "lib/b.py" =
        .ok "var x;".toUTF8 := by
  have hread : threeScripts.read "lib/a.py.js" = .ok "var x;".toUTF8 := by
    with_unfolding_all rfl
  have hread' : threeScripts.read "lib/a.py" = .ok "var x;".toUTF8 := by
    with_unfolding_all rfl
  have hlocked : threeScripts.read "lib/b.py" = .ok "var x;".toUTF8 := by
    with_unfolding_all rfl
  refine ⟨hread, (read_input_after_build hread {} false).1 fun hname => ?_, hread', ?_, hlocked, ?_⟩
  · exact absurd ((outputPath_eq_self_iff hread).mpr hname) (by decide)
  · refine ((read_input_after_build hread' {} false).2 ?_).trans (by with_unfolding_all rfl)
    exact ⟨"a", by with_unfolding_all rfl, by decide, by decide⟩
  · refine ((read_input_after_build hlocked {} false).2 ?_).trans (by with_unfolding_all rfl)
    exact ⟨"b", by with_unfolding_all rfl, by decide, by decide⟩

/-- **A script named like its output is lost**: building `lib/a.py` writes over it. -/
theorem input_replaced :
    ∃ (store : FileStore) (input : String) (bytes : ByteArray) (settings : Settings) (json : Bool),
      store.read input = .ok bytes ∧
        (run store (build input none settings json)).2.read input ≠ .ok bytes := by
  have hread : threeScripts.read "lib/a.py" = .ok "var x;".toUTF8 := by
    with_unfolding_all rfl
  have hcode : (convert {} "var x;").output = some "x = None" := by
    with_unfolding_all rfl
  have hafter := read_input_of_eq hread (by with_unfolding_all rfl)
    (buildRun_run threeScripts "lib/a.py" none {} false)
  have hwritable : threeScripts.isWritable "lib/a.py" := by with_unfolding_all rfl
  have hsource : String.fromUTF8? "var x;".toUTF8 = some "var x;" := by
    with_unfolding_all rfl
  rw [if_pos hwritable, hsource, Option.bind_some, hcode, Option.elim_some] at hafter
  refine ⟨threeScripts, "lib/a.py", _, {}, false, hread, ?_⟩
  rw [hafter]
  intro heq
  exact absurd (congrArg ByteArray.size (Except.ok.inj heq)) (by decide)

end Command

end Offside
