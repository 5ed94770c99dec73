import Offside.Files.Store

/-!
# Writing one file

A store is a map from places to contents, and a write that succeeds changes it at one place
(`get?_put`). What a path *reads* depends on more than the place it leads to, since the directories
on the way have to be found; so here is the same for paths:

* `slot?_put`: every path leads to the same name in the same directory as before. A new file turns
  no name into a directory, because the directory around it was there already, and takes none away,
  because no directory is written over.
* `toOption_read_put`: after a write, the paths that lead to the written place read the new
  contents, and every other path reads what it did before.
-/

namespace Offside

/-! ### Places one below the other -/

namespace Location

variable {a b c : Location}

theorem contains_iff :
    a.contains b ↔ a.anchor = b.anchor ∧ a.names <+: b.names ∧ a.names.length < b.names.length := by
  simp only [contains, Bool.and_eq_true, decide_eq_true_eq, List.isPrefixOf_iff_prefix, and_assoc]

theorem contains_trans (hab : a.contains b) (hbc : b.contains c) : a.contains c := by
  obtain ⟨hanchor, hnames, hlength⟩ := contains_iff.mp hab
  obtain ⟨hanchor', hnames', hlength'⟩ := contains_iff.mp hbc
  exact contains_iff.mpr
    ⟨hanchor.trans hanchor', hnames.trans hnames', Nat.lt_trans hlength hlength'⟩

/-- What contains a place contains the directory around it, or is that directory. -/
theorem eq_or_contains_of_contains_child {name : String} (h : a.contains (b.child name)) :
    a = b ∨ a.contains b := by
  obtain ⟨hanchor, hnames, hlength⟩ := contains_iff.mp h
  have hprefix : a.names <+: b.names := by
    rcases List.prefix_concat_iff.mp hnames with heq | hprefix
    · rw [heq] at hlength
      exact absurd hlength (Nat.lt_irrefl _)
    · exact hprefix
  rcases Nat.lt_or_ge a.names.length b.names.length with hlt | hge
  · exact .inr (contains_iff.mpr ⟨hanchor, hprefix, hlt⟩)
  · obtain ⟨anchor, names⟩ := a
    obtain ⟨anchor', names'⟩ := b
    obtain rfl : anchor = anchor' := hanchor
    obtain rfl : names = names' := hprefix.eq_of_length_le hge
    exact .inl rfl

/-- The directory around a place contains it, unless the place is where its way starts. -/
theorem parent_contains (h : a.names ≠ []) : a.parent.contains a := by
  obtain ⟨anchor, names⟩ := a
  obtain ⟨first, rest, rfl⟩ := List.exists_cons_of_ne_nil h
  have hparent : parent ⟨anchor, first :: rest⟩ = ⟨anchor, (first :: rest).dropLast⟩ := rfl
  rw [hparent]
  refine contains_iff.mpr ⟨rfl, List.dropLast_prefix _, ?_⟩
  rw [List.length_dropLast]
  exact Nat.sub_lt (Nat.succ_pos _) Nat.one_pos

theorem names_parent (h : a.names = []) : a.parent.names = [] := by
  obtain ⟨anchor, names⟩ := a
  obtain rfl : names = [] := h
  cases anchor <;> rfl

end Location

/-- Is it a directory? -/
def Entry.isDirectory : Entry → Bool
  | directory => true
  | _ => false

/-- The contents, if it is a file. -/
def Entry.bytes? : Entry → Option ByteArray
  | file bytes => some bytes
  | _ => none

namespace FileStore

variable {store : FileStore} {place p : Location} {bytes : ByteArray}

/-! ### Directories -/

/-- A directory is where ways start, around a file, or around or at what is listed. -/
theorem hasDirectory_iff : store.hasDirectory p ↔
    p.names = [] ∨ (∃ file ∈ store.files, p.contains file.1) ∨
      ∃ directory ∈ store.directories, p = directory ∨ p.contains directory := by
  simp only [hasDirectory, Bool.or_eq_true, List.isEmpty_iff, List.any_eq_true, decide_eq_true_eq,
    or_assoc]

theorem hasDirectory_of_names_eq_nil (h : p.names = []) : store.hasDirectory p :=
  hasDirectory_iff.mpr (.inl h)

/-- What lies around a directory is a directory. -/
theorem hasDirectory_of_contains {q : Location} (hcontains : p.contains q)
    (hq : store.hasDirectory q) : store.hasDirectory p := by
  rw [hasDirectory_iff] at hq ⊢
  rcases hq with hempty | ⟨file, hmem, hbelow⟩ | ⟨directory, hmem, hbelow⟩
  · obtain ⟨-, -, hlength⟩ := Location.contains_iff.mp hcontains
    rw [hempty] at hlength
    exact absurd hlength (Nat.not_lt_zero _)
  · exact .inr (.inl ⟨file, hmem, Location.contains_trans hcontains hbelow⟩)
  · refine .inr (.inr ⟨directory, hmem, .inr ?_⟩)
    rcases hbelow with rfl | hbelow
    · exact hcontains
    · exact Location.contains_trans hcontains hbelow

theorem hasDirectory_parent (h : store.hasDirectory p) : store.hasDirectory p.parent := by
  by_cases hnames : p.names = []
  · exact hasDirectory_of_names_eq_nil (Location.names_parent hnames)
  · exact hasDirectory_of_contains (Location.parent_contains hnames) h

theorem hasDirectory_of_entry (h : store.entry p = .directory) : store.hasDirectory p := by
  unfold entry at h
  split at h
  · cases h
  · split at h
    · assumption
    · cases h

/-- Entering leads from directories to directories. -/
theorem hasDirectory_of_enter {segment : String} {q : Location} (hp : store.hasDirectory p)
    (h : store.enter p segment = .ok q) : store.hasDirectory q := by
  unfold enter at h
  split at h
  · cases h
    exact hp
  · split at h
    · cases h
      exact hasDirectory_parent hp
    · split at h
      · next hfind =>
        cases h
        unfold find at hfind
        split at hfind
        · exact hasDirectory_of_entry (Except.ok.inj hfind)
        · cases hfind
      · cases h
      · cases h
      · cases h

theorem hasDirectory_of_enterAll {segments : List String} {q : Location}
    (hp : store.hasDirectory p) (h : store.enterAll p segments = .ok q) :
    store.hasDirectory q := by
  induction segments generalizing p with
  | nil =>
    cases h
    exact hp
  | cons segment rest ih =>
    rw [enterAll] at h
    split at h
    · next hstep => exact ih (hasDirectory_of_enter hp hstep) h
    · cases h

theorem hasDirectory_of_follow {path : String} {through : List String} {q : Location}
    (h : store.follow path through = .ok q) : store.hasDirectory q := by
  unfold follow at h
  split at h
  · refine hasDirectory_of_enterAll (hasDirectory_of_names_eq_nil ?_) h
    rw [Location.startOf]
    split <;> rfl
  · cases h

/-! ### What a path leads to -/

theorem toOption_find (store : FileStore) (directory : Location) (name : String) :
    (store.find directory name).toOption =
      if name.utf8ByteSize ≤ Path.maxNameBytes then some (store.entry (directory.child name))
      else none := by
  unfold find
  split <;> rfl

/-- Entering a name leads into the directory that has it. -/
theorem toOption_enter (store : FileStore) (p : Location) (segment : String) :
    (store.enter p segment).toOption =
      if segment = "" ∨ segment = "." then some p
      else if segment = ".." then some p.parent
      else ((store.find p segment).toOption.filter Entry.isDirectory).map fun _ =>
        p.child segment := by
  unfold enter
  split
  · rfl
  · split
    · rfl
    · cases hfind : store.find p segment with
      | error e => rfl
      | ok entry => cases entry <;> rfl

theorem toOption_enterAll_cons (store : FileStore) (p : Location) (segment : String)
    (rest : List String) :
    (store.enterAll p (segment :: rest)).toOption =
      (store.enter p segment).toOption.bind fun q => (store.enterAll q rest).toOption := by
  rw [enterAll]
  cases store.enter p segment <;> rfl

theorem toOption_follow (store : FileStore) (path : String) (through : List String) :
    (store.follow path through).toOption =
      if path.utf8ByteSize ≤ Path.maxBytes then
        (store.enterAll (.startOf path) through).toOption
      else none := by
  unfold follow
  split <;> rfl

/-- The directory to which a path leads and the name that it asks for there, if it gets so far. -/
def slot? (store : FileStore) (path : String) : Option (Location × String) :=
  (store.follow path (Path.segments path).dropLast).toOption.bind fun directory =>
    ((Path.segments path).getLast?.filter Path.isName).map fun name => (directory, name)

theorem toOption_read (store : FileStore) (path : String) :
    (store.read path).toOption =
      (store.slot? path).bind fun slot =>
        (store.find slot.1 slot.2).toOption.bind Entry.bytes? := by
  simp only [read, slot?]
  cases store.follow path (Path.segments path).dropLast with
  | error e => rfl
  | ok directory =>
    cases (Path.segments path).getLast? with
    | none => rfl
    | some name =>
      by_cases hname : Path.isName name
      · simp only [if_pos hname, Option.filter_some_pos hname]
        cases hfind : store.find directory name with
        | error e => simp [Except.toOption, hfind]
        | ok entry => cases entry <;> simp [Except.toOption, hfind, Entry.bytes?]
      · simp only [if_neg hname, Option.filter_some_neg (Bool.eq_false_iff.mpr hname)]
        rfl

/-- A name at the end of a path is not followed by a slash. -/
theorem reverse_dropWhile_eq {segments : List String} {name : String}
    (hlast : segments.getLast? = some name) (hname : Path.isName name) :
    (segments.reverse.dropWhile (· = "")).reverse = segments := by
  have hne : name ≠ "" := by
    rintro rfl
    exact absurd hname (by decide)
  rw [List.getLast?_eq_head?_reverse] at hlast
  obtain ⟨rest, hrest⟩ := List.head?_eq_some_iff.mp hlast
  rw [hrest, List.dropWhile_cons_of_neg (by simpa using hne), ← hrest, List.reverse_reverse]

theorem toOption_target (store : FileStore) (path : String) :
    (store.target path).toOption =
      (store.slot? path).bind fun slot =>
        ((store.find slot.1 slot.2).toOption.filter fun entry => !entry.isDirectory).map fun _ =>
          slot.1.child slot.2 := by
  simp only [target, slot?]
  have hwhole {name : String} (hlast : (Path.segments path).getLast? = some name)
      (hname : Path.isName name) := reverse_dropWhile_eq hlast hname
  have hprefix : ((Path.segments path).reverse.dropWhile (· = "")).reverse <+:
      Path.segments path := by
    rw [← List.reverse_suffix, List.reverse_reverse]
    exact List.dropWhile_suffix _
  generalize ((Path.segments path).reverse.dropWhile (· = "")).reverse = named at hwhole hprefix ⊢
  by_cases hlength : named.length = (Path.segments path).length
  · obtain rfl : named = Path.segments path := hprefix.eq_of_length hlength
    cases store.follow path (Path.segments path).dropLast with
    | error e => rfl
    | ok directory =>
      cases (Path.segments path).getLast? with
      | none => rfl
      | some name =>
        by_cases hname : Path.isName name
        · simp only [hname, and_self, if_true, Option.filter_some_pos hname]
          cases hfind : store.find directory name with
          | error e => simp [Except.toOption, hfind]
          | ok entry =>
            simp only [Except.toOption, Option.bind_some, Option.map_some, hfind]
            cases entry <;> rfl
        · simp only [hname, false_and, if_false, Bool.false_eq_true,
            Option.filter_some_neg (Bool.eq_false_iff.mpr hname)]
          rfl
  · -- Something follows the last name, so that the path asks for a directory.
    have hnone : (Path.segments path).getLast?.filter Path.isName = none := by
      refine Option.filter_eq_none_iff.mpr fun name hlast hname => hlength ?_
      rw [hwhole hlast hname]
    rw [hnone]
    cases store.follow path named.dropLast with
    | error e => cases store.follow path (Path.segments path).dropLast <;> rfl
    | ok directory =>
      cases store.follow path (Path.segments path).dropLast <;> cases named.getLast? <;>
        simp [hlength, Except.toOption]

/-! ### One new file -/

/-- **A store is a map**: new contents at one place, and the old ones everywhere else. -/
theorem get?_put (store : FileStore) (place : Location) (bytes : ByteArray) (other : Location) :
    (store.put place bytes).get? other =
      if other = place then some bytes else store.get? other := by
  rw [get?, put]
  split
  · next heq => rw [List.find?_cons_of_pos (by simp [heq]), Option.map_some]
  · next hne =>
    rw [List.find?_cons_of_neg (by simpa using fun h => hne h.symm), List.find?_filter, get?]
    -- A file at the other place is not among those that are left out.
    congr 2
    funext file
    by_cases hfile : file.1 = other
    · simp [hfile, hne]
    · simp [hfile]

theorem hasDirectory_put (store : FileStore) (place : Location) (bytes : ByteArray)
    (p : Location) :
    (store.put place bytes).hasDirectory p = (store.hasDirectory p || p.contains place) := by
  have hfiles : (∃ file ∈ (store.put place bytes).files, p.contains file.1) ↔
      (∃ file ∈ store.files, p.contains file.1) ∨ p.contains place := by
    constructor
    · rintro ⟨file, hmem, hbelow⟩
      rcases List.mem_cons.mp hmem with rfl | hmem
      · exact .inr hbelow
      · exact .inl ⟨file, (List.mem_filter.mp hmem).1, hbelow⟩
    · rintro (⟨file, hmem, hbelow⟩ | hplace)
      · by_cases hfile : file.1 = place
        · exact ⟨_, List.mem_cons_self, hfile ▸ hbelow⟩
        · -- It is still there behind the new one.
          exact ⟨file, List.mem_cons_of_mem _ (List.mem_filter.mpr ⟨hmem, decide_eq_true hfile⟩),
            hbelow⟩
      · exact ⟨_, List.mem_cons_self, hplace⟩
  have hdirectories : (store.put place bytes).directories = store.directories := rfl
  rw [Bool.eq_iff_iff, Bool.or_eq_true, hasDirectory_iff, hasDirectory_iff, hfiles, hdirectories]
  simp only [or_assoc, or_comm (a := p.contains place = true)]

/-- A place in which a file can be put: the directory around it is there, and the place itself is
no directory. -/
structure IsFree (store : FileStore) (place : Location) : Prop where
  within : ∀ p : Location, p.contains place → store.hasDirectory p
  not_directory : (store.entry place).isDirectory = false

namespace IsFree

variable (h : store.IsFree place) (bytes : ByteArray)
include h

/-- A new file makes no directory. -/
theorem hasDirectory_put (p : Location) :
    (store.put place bytes).hasDirectory p = store.hasDirectory p := by
  rw [FileStore.hasDirectory_put]
  cases hcontains : p.contains place with
  | false => rw [Bool.or_false]
  | true => rw [h.within p hcontains, Bool.or_true]

theorem entry_put (p : Location) :
    (store.put place bytes).entry p = if p = place then .file bytes else store.entry p := by
  rw [entry, get?_put, h.hasDirectory_put]
  by_cases hp : p = place
  · rw [if_pos hp, if_pos hp]
  · rw [if_neg hp, if_neg hp]
    rfl

theorem find_put (directory : Location) (name : String) :
    ((store.put place bytes).find directory name).toOption =
      (store.find directory name).toOption.map fun entry =>
        if directory.child name = place then .file bytes else entry := by
  rw [toOption_find, toOption_find, h.entry_put]
  split <;> rfl

/-- Where a new file lies, nothing could be entered before, and nothing can be entered now. -/
theorem filter_find_put (directory : Location) (name : String) :
    ((store.put place bytes).find directory name).toOption.filter Entry.isDirectory =
      (store.find directory name).toOption.filter Entry.isDirectory := by
  rw [h.find_put, toOption_find]
  by_cases hplace : directory.child name = place
  · by_cases hsize : name.utf8ByteSize ≤ Path.maxNameBytes
    · rw [if_pos hsize, hplace, Option.map_some, if_pos rfl, Option.filter_some_neg rfl,
        Option.filter_some_neg h.not_directory]
    · rw [if_neg hsize]
      rfl
  · simp only [if_neg hplace, Option.map_id']

theorem enterAll_put (p : Location) (segments : List String) :
    ((store.put place bytes).enterAll p segments).toOption =
      (store.enterAll p segments).toOption := by
  induction segments generalizing p with
  | nil => rfl
  | cons segment rest ih =>
    simp only [toOption_enterAll_cons, toOption_enter, h.filter_find_put, ih]

theorem slot?_put (path : String) :
    (store.put place bytes).slot? path = store.slot? path := by
  simp only [slot?, toOption_follow, h.enterAll_put]

end IsFree

/-! ### One write -/

theorem eq_ok_of_toOption {α : Type} {result : Except FileError α} {value : α}
    (h : result.toOption = some value) : result = .ok value := by
  cases result with
  | error e => cases h
  | ok _ => exact congrArg Except.ok (Option.some.inj h)

/-- What can be written is free. -/
theorem isFree_of_target {path : String} (h : store.target path = .ok place) :
    store.IsFree place := by
  have htarget := toOption_target store path
  rw [h] at htarget
  obtain ⟨⟨directory, name⟩, hslot, hplace⟩ := Option.bind_eq_some_iff.mp htarget.symm
  obtain ⟨entry, hentry, rfl⟩ := Option.map_eq_some_iff.mp hplace
  obtain ⟨hfind, hfile⟩ := Option.filter_eq_some_iff.mp hentry
  have hdirectory : store.hasDirectory directory := by
    obtain ⟨reached, hreached, hname⟩ := Option.bind_eq_some_iff.mp hslot
    obtain ⟨_, -, hpair⟩ := Option.map_eq_some_iff.mp hname
    cases hpair
    exact hasDirectory_of_follow (eq_ok_of_toOption hreached)
  constructor
  · intro p hp
    rcases Location.eq_or_contains_of_contains_child hp with rfl | hcontains
    · exact hdirectory
    · exact hasDirectory_of_contains hcontains hdirectory
  · rw [toOption_find] at hfind
    split at hfind
    · cases hfind
      simpa using hfile
    · cases hfind

/-- **A path reads what was written, if it leads to the written place, and otherwise what it read
before.** -/
theorem IsFree.toOption_read_put (h : store.IsFree place) (bytes : ByteArray) (path : String) :
    ((store.put place bytes).read path).toOption =
      if (store.target path).toOption = some place then some bytes
      else (store.read path).toOption := by
  rw [toOption_read, toOption_read, toOption_target, h.slot?_put]
  cases store.slot? path with
  | none => rfl
  | some slot =>
    simp only [Option.bind_some, h.find_put, toOption_find]
    by_cases hsize : slot.2.utf8ByteSize ≤ Path.maxNameBytes
    · by_cases hplace : slot.1.child slot.2 = place
      · have hfile := h.not_directory
        simp [hsize, hplace, hfile, Entry.bytes?]
      · have helsewhere : (Option.filter (fun entry => !entry.isDirectory)
            (some (store.entry (slot.1.child slot.2)))).map (fun _ => slot.1.child slot.2) ≠
              some place := by
          intro heq
          obtain ⟨_, -, hchild⟩ := Option.map_eq_some_iff.mp heq
          exact hplace hchild
        rw [if_pos hsize, if_neg helsewhere, Option.map_some, if_neg hplace]
    · simp [hsize]

/-- The second store is the first with `bytes` in the file that `path` names, and nothing else is
different: neither what lies at any other place, nor what is read by any path that leads elsewhere
or nowhere. -/
structure Updates (before after : FileStore) (path : String) (bytes : ByteArray) : Prop where
  holds : after.read path = .ok bytes
  one_place : ∃ place, before.target path = .ok place ∧
    ∀ other, after.get? other = if other = place then some bytes else before.get? other
  other_paths : ∀ other, before.target other ≠ before.target path →
    (after.read other).toOption = (before.read other).toOption

/-- Can the file that a path names be written? -/
def isWritable (store : FileStore) (path : String) : Bool :=
  (store.target path).toOption.any fun place => !store.isLocked place

theorem write_eq_ok {path : String} {after : FileStore} :
    store.write path bytes = .ok after ↔
      ∃ place, store.target path = .ok place ∧ store.isLocked place = false ∧
        after = store.put place bytes := by
  rw [write]
  cases store.target path with
  | error e =>
    refine iff_of_false (fun h => by cases h) ?_
    rintro ⟨_, hplace, -⟩
    cases hplace
  | ok place =>
    simp only
    constructor
    · intro h
      split at h
      · cases h
      · next hlocked =>
        exact ⟨place, rfl, Bool.eq_false_iff.mpr hlocked, (Except.ok.inj h).symm⟩
    · rintro ⟨_, hplace, hlocked, rfl⟩
      obtain rfl := Except.ok.inj hplace
      rw [if_neg (Bool.eq_false_iff.mp hlocked)]

/-- A write fails exactly where no file can be written. -/
theorem isWritable_iff {path : String} :
    store.isWritable path ↔ ∃ after, store.write path bytes = .ok after := by
  simp only [write_eq_ok, isWritable]
  cases store.target path with
  | error e => simp [Except.toOption]
  | ok place => simp [Except.toOption]

/-- **A write changes one file.** -/
theorem updates_of_write {path : String} {after : FileStore}
    (h : store.write path bytes = .ok after) : store.Updates after path bytes := by
  obtain ⟨place, htarget, -, rfl⟩ := write_eq_ok.mp h
  have hfree := isFree_of_target htarget
  refine ⟨?_, ⟨place, htarget, get?_put store place bytes⟩, fun other hother => ?_⟩
  · have hread := hfree.toOption_read_put bytes path
    rw [htarget] at hread
    exact eq_ok_of_toOption (hread.trans (if_pos rfl))
  · rw [hfree.toOption_read_put, if_neg]
    intro hsame
    exact hother ((eq_ok_of_toOption hsame).trans htarget.symm)

end FileStore

end Offside
