import Mathlib.Data.List.TakeWhile
import Offside.Proofs.Files.Writing

/-!
# A path with another extension

A path is the folder that it goes through and one last segment. Another extension changes nothing
but that segment (`Path.segments_withExtension`), so both paths lead into the same directory, and to
the same file only if they are the same path (`FileStore.withExtension_eq_self_of_target`).

Which names another extension leaves as they are is not only a matter of their ending: what stands
before the last dot has to be something, and no single dot (`Path.extendName_eq_self_iff`).
-/

namespace Offside

namespace Path

/-! ### Cutting at the last dot or slash -/

section Cut

variable {c : Char} {text before after : List Char}

theorem exists_last (h : c ∈ text) : ∃ before after, text = before ++ c :: after ∧ c ∉ after := by
  obtain ⟨after, before, heq, hafter⟩ := List.eq_append_cons_of_mem (List.mem_reverse.mpr h)
  refine ⟨before.reverse, after.reverse, ?_, fun hmem => hafter (List.mem_reverse.mp hmem)⟩
  rw [← List.reverse_reverse text, heq, List.reverse_append, List.reverse_cons, List.append_assoc,
    List.singleton_append]

theorem ne_of_mem_reverse (h : c ∉ text) : ∀ d ∈ text.reverse, (d != c) = true := by
  rintro d hd
  refine bne_iff_ne.mpr ?_
  rintro rfl
  exact h (List.mem_reverse.mp hd)

theorem takeWhile_reverse (h : c ∉ after) :
    (before ++ c :: after).reverse.takeWhile (· != c) = after.reverse := by
  rw [List.reverse_append, List.reverse_cons, List.append_assoc, List.singleton_append,
    List.takeWhile_append_of_pos (ne_of_mem_reverse h), List.takeWhile_cons_of_neg (by simp),
    List.append_nil]

theorem dropWhile_reverse (h : c ∉ after) :
    (before ++ c :: after).reverse.dropWhile (· != c) = c :: before.reverse := by
  rw [List.reverse_append, List.reverse_cons, List.append_assoc, List.singleton_append,
    List.dropWhile_append_of_pos (ne_of_mem_reverse h), List.dropWhile_cons_of_neg (by simp)]

theorem takeWhile_reverse_of_notMem (h : c ∉ text) :
    text.reverse.takeWhile (· != c) = text.reverse :=
  List.takeWhile_eq_self_iff.mpr (ne_of_mem_reverse h)

theorem dropWhile_reverse_of_notMem (h : c ∉ text) : text.reverse.dropWhile (· != c) = [] :=
  List.dropWhile_eq_nil_iff.mpr (ne_of_mem_reverse h)

end Cut

/-! ### The last segment of a path -/

/-- What stands before the last segment of a path, with the slash at its end. -/
def folder (path : List Char) : List Char :=
  (path.reverse.dropWhile (· != '/')).reverse

/-- The last segment of a path. -/
def fileName (path : List Char) : List Char :=
  (path.reverse.takeWhile (· != '/')).reverse

/-- A path is only a name, or it is cut after its last slash. -/
theorem folder_fileName_cases (path : List Char) :
    ('/' ∉ path ∧ folder path = [] ∧ fileName path = path) ∨
      ∃ before name, '/' ∉ name ∧ path = before ++ '/' :: name ∧
        folder path = before ++ ['/'] ∧ fileName path = name := by
  by_cases hslash : '/' ∈ path
  · obtain ⟨before, name, rfl, hname⟩ := exists_last hslash
    refine .inr ⟨before, name, hname, rfl, ?_, ?_⟩
    · rw [folder, dropWhile_reverse hname, List.reverse_cons, List.reverse_reverse]
    · rw [fileName, takeWhile_reverse hname, List.reverse_reverse]
  · refine .inl ⟨hslash, ?_, ?_⟩
    · rw [folder, dropWhile_reverse_of_notMem hslash, List.reverse_nil]
    · rw [fileName, takeWhile_reverse_of_notMem hslash, List.reverse_reverse]

theorem slash_notMem_fileName (path : List Char) : '/' ∉ fileName path := by
  obtain ⟨hslash, -, hname⟩ | ⟨_, _, hslash, -, -, hname⟩ := folder_fileName_cases path
  · rwa [hname]
  · rwa [hname]

theorem folder_append_fileName (path : List Char) : folder path ++ fileName path = path := by
  rw [folder, fileName, ← List.reverse_append, List.takeWhile_append_dropWhile,
    List.reverse_reverse]

theorem splitSlashes_ne_nil (path : List Char) : splitSlashes path ≠ [] := by
  cases path with
  | nil => exact List.cons_ne_nil _ _
  | cons c rest =>
    rw [splitSlashes]
    split
    · exact List.cons_ne_nil _ _
    · split <;> exact List.cons_ne_nil _ _

theorem splitSlashes_append_slash (before after : List Char) :
    splitSlashes (before ++ '/' :: after) = splitSlashes before ++ splitSlashes after := by
  induction before with
  | nil => rfl
  | cons c rest ih =>
    rw [List.cons_append, splitSlashes, splitSlashes, ih]
    by_cases hc : c = '/'
    · rw [if_pos hc, if_pos hc, List.cons_append]
    · rw [if_neg hc, if_neg hc]
      obtain ⟨first, others, h⟩ := List.exists_cons_of_ne_nil (splitSlashes_ne_nil rest)
      rw [h]
      rfl

theorem splitSlashes_of_notMem {name : List Char} (h : '/' ∉ name) :
    splitSlashes name = [name] := by
  induction name with
  | nil => rfl
  | cons c rest ih =>
    rw [List.mem_cons, not_or] at h
    rw [splitSlashes, if_neg (Ne.symm h.1), ih h.2]

/-- Whatever name comes behind the folder of a path, the segments before it are the same. -/
theorem splitSlashes_folder_append (path : List Char) {last : List Char} (hlast : '/' ∉ last) :
    splitSlashes (folder path ++ last) = (splitSlashes path).dropLast ++ [last] := by
  obtain ⟨hslash, hfolder, -⟩ | ⟨before, name, hname, rfl, hfolder, -⟩ := folder_fileName_cases path
  · rw [hfolder, List.nil_append, splitSlashes_of_notMem hlast, splitSlashes_of_notMem hslash]
    rfl
  · rw [hfolder, List.append_assoc, List.singleton_append, splitSlashes_append_slash,
      splitSlashes_append_slash, splitSlashes_of_notMem hlast, splitSlashes_of_notMem hname,
      List.dropLast_concat]

theorem segments_eq (path : String) :
    segments path = (segments path).dropLast ++ [String.ofList (fileName path.toList)] := by
  have h := splitSlashes_folder_append path.toList (slash_notMem_fileName path.toList)
  rw [folder_append_fileName] at h
  rw [segments, ← List.map_dropLast, ← List.map_singleton, ← List.map_append, ← h]

theorem getLast?_segments (path : String) :
    (segments path).getLast? = some (String.ofList (fileName path.toList)) := by
  rw [segments_eq, List.getLast?_concat]

/-- A path starts at the root if its folder does. -/
theorem head?_folder_append (path : List Char) {last : List Char} (hlast : '/' ∉ last) :
    (folder path ++ last).head? = some '/' ↔ (folder path).head? = some '/' := by
  cases folder path with
  | cons c rest => rfl
  | nil => exact iff_of_false (fun h => hlast (List.mem_of_head? h)) (by simp)

/-! ### Extensions -/

/-- The last dot of a name counts if it is not the first character. -/
theorem stem?_append {before extension : List Char} (hbefore : before ≠ [])
    (hextension : '.' ∉ extension) : stem? (before ++ '.' :: extension) = some before := by
  rw [stem?, dropWhile_reverse hextension, List.tail_cons, List.reverse_reverse]
  cases before with
  | nil => exact absurd rfl hbefore
  | cons => rfl

theorem exists_of_stem? {name before : List Char} (h : stem? name = some before) :
    before ≠ [] ∧ ∃ extension, '.' ∉ extension ∧ name = before ++ '.' :: extension := by
  by_cases hdot : '.' ∈ name
  · obtain ⟨start, extension, rfl, hextension⟩ := exists_last hdot
    rw [stem?, dropWhile_reverse hextension, List.tail_cons, List.reverse_reverse] at h
    split at h
    · cases h
    · next hne =>
      cases h
      exact ⟨hne, extension, hextension, rfl⟩
  · rw [stem?, dropWhile_reverse_of_notMem hdot] at h
    cases h

theorem withoutExtension_of_stem? {name before : List Char} (h : stem? name = some before) :
    withoutExtension name = before ++ ['.'] := by
  rw [withoutExtension, h]

theorem slash_notMem_extendName {extension name : List Char} (hextension : '/' ∉ extension)
    (hname : '/' ∉ name) : '/' ∉ extendName extension name := by
  rw [extendName]
  cases hstem : stem? name with
  | none =>
    split
    · simp [hname, hextension]
    · rwa [withoutExtension, hstem]
  | some before =>
    obtain ⟨-, old, -, rfl⟩ := exists_of_stem? hstem
    rw [List.mem_append, not_or] at hname
    split
    · simp [hname.1, hextension]
    · simp [withoutExtension_of_stem? hstem, hname.1]

/-- The names that have the extension already, among those that a file can have. -/
theorem extendName_eq_self_iff {extension name : List Char} (hextension : '.' ∉ extension)
    (hname : isName (String.ofList name)) :
    extendName extension name = name ↔
      ∃ before, name = before ++ '.' :: extension ∧ before ≠ [] ∧ before ≠ ['.'] := by
  constructor
  · intro heq
    rw [extendName] at heq
    split at heq
    · next hkept =>
      cases hstem : stem? name with
      | none =>
        -- A name cannot be longer than it is.
        rw [hstem] at heq
        simpa using congrArg List.length heq
      | some before =>
        rw [hstem] at heq
        refine ⟨before, heq.symm, (exists_of_stem? hstem).1, ?_⟩
        rintro rfl
        rw [withoutExtension_of_stem? hstem] at hkept
        exact absurd hkept (by decide)
    · next hkept =>
      rw [heq] at hkept
      exact absurd hname hkept
  · rintro ⟨before, rfl, hbefore, hdots⟩
    have hstem := stem?_append hbefore hextension
    have hkept : isName (String.ofList (withoutExtension (before ++ '.' :: extension))) := by
      rw [withoutExtension_of_stem? hstem]
      have hne (other : List Char) (h : before ++ ['.'] ≠ other) :
          (String.ofList (before ++ ['.']) != String.ofList other) = true :=
        bne_iff_ne.mpr fun heq => h (String.ofList_injective heq)
      simp only [isName, Bool.and_eq_true]
      refine ⟨⟨hne [] (by simp), hne ['.'] (by simpa using hbefore)⟩, hne ['.', '.'] ?_⟩
      intro heq
      exact hdots (List.append_cancel_right (heq.trans (List.singleton_append (x := '.')).symm))
    rw [extendName, if_pos hkept, hstem]
    rfl

variable {extension : String} (hextension : '/' ∉ extension.toList) (path : String)

theorem toList_withExtension (extension path : String) :
    (withExtension extension path).toList =
      folder path.toList ++ extendName extension.toList (fileName path.toList) :=
  String.toList_ofList

/-- A path stays as it is if its last segment does. -/
theorem withExtension_eq_self_iff {extension path : String} :
    withExtension extension path = path ↔
      extendName extension.toList (fileName path.toList) = fileName path.toList := by
  rw [← String.toList_inj, toList_withExtension]
  constructor
  · intro h
    exact List.append_cancel_left (h.trans (folder_append_fileName path.toList).symm)
  · intro h
    rw [h, folder_append_fileName]

include hextension

/-- Another extension changes only the last segment. -/
theorem segments_withExtension :
    segments (withExtension extension path) =
      (segments path).dropLast ++
        [String.ofList (extendName extension.toList (fileName path.toList))] := by
  rw [segments, toList_withExtension, splitSlashes_folder_append, List.map_append,
    List.map_dropLast]
  · rfl
  · exact slash_notMem_extendName hextension (slash_notMem_fileName _)

theorem isAbsolute_withExtension :
    isAbsolute (withExtension extension path) = isAbsolute path := by
  have hname := slash_notMem_extendName hextension (slash_notMem_fileName path.toList)
  have hnew := head?_folder_append path.toList hname
  have hold := head?_folder_append path.toList (slash_notMem_fileName path.toList)
  rw [folder_append_fileName] at hold
  rw [isAbsolute, isAbsolute, toList_withExtension]
  exact decide_eq_decide.mpr (hnew.trans hold.symm)

end Path

namespace FileStore

variable {store : FileStore} {path : String} {place : Location} {bytes : ByteArray}

/-! ### Files in one directory -/

theorem enterAll_of_slot? {slot : Location × String} (h : store.slot? path = some slot) :
    (store.enterAll (.startOf path) (Path.segments path).dropLast).toOption = some slot.1 ∧
      (Path.segments path).getLast? = some slot.2 ∧ Path.isName slot.2 := by
  obtain ⟨directory, hfollow, hname⟩ := Option.bind_eq_some_iff.mp h
  obtain ⟨name, hfilter, rfl⟩ := Option.map_eq_some_iff.mp hname
  obtain ⟨hlast, hisName⟩ := Option.filter_eq_some_iff.mp hfilter
  rw [toOption_follow] at hfollow
  split at hfollow
  · exact ⟨hfollow, hlast, hisName⟩
  · cases hfollow

theorem slot?_of_target (h : store.target path = .ok place) :
    ∃ slot, store.slot? path = some slot ∧ place = slot.1.child slot.2 := by
  have htarget := toOption_target store path
  rw [h] at htarget
  obtain ⟨slot, hslot, hplace⟩ := Option.bind_eq_some_iff.mp htarget.symm
  obtain ⟨_, -, rfl⟩ := Option.map_eq_some_iff.mp hplace
  exact ⟨slot, hslot, rfl⟩

/-- What can be read has a place at which it could be written. -/
theorem target_of_read (h : store.read path = .ok bytes) :
    ∃ place, store.target path = .ok place := by
  have hread := toOption_read store path
  rw [h] at hread
  obtain ⟨slot, hslot, hfile⟩ := Option.bind_eq_some_iff.mp hread.symm
  obtain ⟨entry, hfind, hbytes⟩ := Option.bind_eq_some_iff.mp hfile
  refine ⟨slot.1.child slot.2, eq_ok_of_toOption ?_⟩
  rw [toOption_target, hslot, Option.bind_some, hfind]
  cases entry with
  | file => rfl
  | directory => cases hbytes
  | absent => cases hbytes

theorem isName_of_read (h : store.read path = .ok bytes) :
    Path.isName (String.ofList (Path.fileName path.toList)) := by
  obtain ⟨place, htarget⟩ := target_of_read h
  obtain ⟨slot, hslot, -⟩ := slot?_of_target htarget
  obtain ⟨-, hlast, hname⟩ := enterAll_of_slot? hslot
  rw [Path.getLast?_segments] at hlast
  rwa [Option.some.inj hlast]

/-- **Another extension leads to another file**, unless the path has that extension already. -/
theorem withExtension_eq_self_of_target {extension : String} (hextension : '/' ∉ extension.toList)
    (h : store.target path = .ok place)
    (hother : store.target (Path.withExtension extension path) = .ok place) :
    Path.withExtension extension path = path := by
  obtain ⟨slot, hslot, rfl⟩ := slot?_of_target h
  obtain ⟨slot', hslot', hplace⟩ := slot?_of_target hother
  obtain ⟨hdirectory, hname, -⟩ := enterAll_of_slot? hslot
  obtain ⟨hdirectory', hname', -⟩ := enterAll_of_slot? hslot'
  have hstart : Location.startOf (Path.withExtension extension path) = Location.startOf path := by
    rw [Location.startOf, Location.startOf, Path.isAbsolute_withExtension hextension]
  rw [Path.segments_withExtension hextension] at hdirectory' hname'
  rw [hstart, List.dropLast_concat, hdirectory] at hdirectory'
  rw [List.getLast?_concat] at hname'
  rw [Path.getLast?_segments] at hname
  -- Both files lie in one directory, so their names are the same.
  have hnames : slot.1.names ++ [slot.2] = slot.1.names ++ [slot'.2] := by
    rw [← Option.some.inj hdirectory'] at hplace
    exact congrArg Location.names hplace
  have hsame := List.singleton_inj.mp (List.append_cancel_left hnames)
  rw [← Option.some.inj hname, ← Option.some.inj hname'] at hsame
  exact Path.withExtension_eq_self_iff.mpr (String.ofList_injective hsame).symm

end FileStore

end Offside
