import Offside.Files.Path

/-!
# A store of files

A `FileStore` holds the contents of files by their place. A place is a directory if it is listed as
one or if something lies below it. Places are told apart by how far above the working directory they
branch off, or by being named from the root; the working directory and those above it always exist.

`FileStore.read` and `FileStore.write` follow a path segment by segment, through directories that
have to exist. Some places are `locked`: a locked file cannot be written, and no new file can be
made in a locked directory. Writing changes one place only, and a write that fails changes nothing.
-/

namespace Offside

/-- Why a file cannot be read or written. -/
inductive FileError where
  | notFound
  | notDirectory
  | isDirectory
  | nameTooLong
  /-- The place is locked. -/
  | denied
  | notText
  | other (text : String)
deriving DecidableEq

/-- How the failure is named in a message. -/
def FileError.message : FileError → String
  | notFound => "No such file or directory (os error 2)"
  | notDirectory => "Not a directory (os error 20)"
  | isDirectory => "Is a directory (os error 21)"
  | nameTooLong => "File name too long (os error 36)"
  | denied => "Permission denied (os error 13)"
  | notText => "stream did not contain valid UTF-8"
  | other text => text

/-- Where the way to a place starts. -/
inductive Anchor where
  /-- This many levels above the working directory. -/
  | above (levels : Nat)
  | root
deriving DecidableEq

/-- A place: where the way starts, and the names on the way. -/
structure Location where
  anchor : Anchor
  names : List String
deriving DecidableEq

namespace Location

/-- The working directory. -/
def here : Location := ⟨.above 0, []⟩

/-- The place of the given name inside a directory. -/
def child (place : Location) (name : String) : Location :=
  { place with names := place.names ++ [name] }

/-- The directory around a place. -/
def parent (place : Location) : Location :=
  match place.names, place.anchor with
  | [], .above levels => ⟨.above (levels + 1), []⟩
  | [], .root => ⟨.root, []⟩
  | names, anchor => ⟨anchor, names.dropLast⟩

/-- Does the second place lie below the first? -/
def contains (place inner : Location) : Bool :=
  place.anchor = inner.anchor && place.names.isPrefixOf inner.names
    && place.names.length < inner.names.length

/-- Where a path starts. -/
def startOf (path : String) : Location :=
  if Path.isAbsolute path then ⟨.root, []⟩ else here

/-- The place that a file name means in the working directory. -/
def ofName (name : String) : Location :=
  ⟨.above 0, (Path.segments name).filter fun segment => segment != "" && segment != "."⟩

end Location

/-- The contents of files, by their place, and what else there is to know about places. -/
structure FileStore where
  files : List (Location × ByteArray)
  /-- Directories, which may be empty. Those around a file need not be listed. -/
  directories : List Location := []
  /-- Files that cannot be written, and directories in which no file can be made. -/
  locked : List Location := []

/-- What is found at a place. -/
inductive Entry where
  | file (bytes : ByteArray)
  | directory
  | absent

namespace FileStore

/-- A store that holds the given files in its working directory. -/
def ofFiles (files : List (String × ByteArray)) : FileStore where
  files := files.map fun (name, bytes) => (Location.ofName name, bytes)

/-- The contents of the file at a place. -/
def get? (store : FileStore) (place : Location) : Option ByteArray :=
  (store.files.find? fun file => file.1 = place).map Prod.snd

/-- The store with new contents for the file at a place. -/
def put (store : FileStore) (place : Location) (bytes : ByteArray) : FileStore :=
  { store with files := (place, bytes) :: store.files.filter fun file => file.1 ≠ place }

/-- Is there a directory at a place? -/
def hasDirectory (store : FileStore) (place : Location) : Bool :=
  place.names.isEmpty || (store.files.any fun file => place.contains file.1) ||
    store.directories.any fun directory => place = directory || place.contains directory

/-- Does the store refuse to write a file at a place? What counts is the file, or the directory in
which it would be made. -/
def isLocked (store : FileStore) (place : Location) : Bool :=
  if (store.get? place).isSome then store.locked.contains place
  else store.locked.contains place.parent

/-- What is found at a place. -/
def entry (store : FileStore) (place : Location) : Entry :=
  match store.get? place with
  | some bytes => .file bytes
  | none => if store.hasDirectory place then .directory else .absent

/-! ### Following a path -/

/-- What has the given name in a directory. -/
def find (store : FileStore) (directory : Location) (name : String) : Except FileError Entry :=
  if name.utf8ByteSize ≤ Path.maxNameBytes then .ok (store.entry (directory.child name))
  else .error .nameTooLong

/-- Goes from a directory into another. -/
def enter (store : FileStore) (place : Location) (segment : String) :
    Except FileError Location :=
  if segment = "" ∨ segment = "." then .ok place
  else if segment = ".." then .ok place.parent
  else
    match store.find place segment with
    | .ok .directory => .ok (place.child segment)
    | .ok (.file _) => .error .notDirectory
    | .ok .absent => .error .notFound
    | .error e => .error e

/-- Goes from a directory through others. -/
def enterAll (store : FileStore) : Location → List String → Except FileError Location
  | place, [] => .ok place
  | place, segment :: rest =>
    match store.enter place segment with
    | .ok place => enterAll store place rest
    | .error e => .error e

/-- Goes through directories from where a path starts. -/
def follow (store : FileStore) (path : String) (through : List String) :
    Except FileError Location :=
  if path.utf8ByteSize ≤ Path.maxBytes then store.enterAll (.startOf path) through
  else .error .nameTooLong

/-- The contents of the file that a path names. -/
def read (store : FileStore) (path : String) : Except FileError ByteArray :=
  let segments := Path.segments path
  match store.follow path segments.dropLast, segments.getLast? with
  | .error e, _ => .error e
  | .ok _, none => .error .isDirectory
  | .ok directory, some name =>
    if Path.isName name then
      match store.find directory name with
      | .ok (.file bytes) => .ok bytes
      | .ok .directory => .error .isDirectory
      | .ok .absent => .error .notFound
      | .error e => .error e
    else
      .error .isDirectory

/-- The text of the file that a path names. -/
def readText (store : FileStore) (path : String) : Except FileError String :=
  match store.read path with
  | .ok bytes =>
    match String.fromUTF8? bytes with
    | some text => .ok text
    | none => .error .notText
  | .error e => .error e

/-- The place of the file that a path names for writing. The directory has to exist, the file does
not. A slash at the end asks for a directory. -/
def target (store : FileStore) (path : String) : Except FileError Location :=
  let segments := Path.segments path
  let named := (segments.reverse.dropWhile (· = "")).reverse
  match store.follow path named.dropLast, named.getLast? with
  | .error e, _ => .error e
  | .ok _, none => .error .isDirectory
  | .ok directory, some name =>
    if Path.isName name ∧ named.length = segments.length then
      match store.find directory name with
      | .ok .directory => .error .isDirectory
      | .ok _ => .ok (directory.child name)
      | .error e => .error e
    else
      .error .isDirectory

/-- The store after the file that a path names has been written. -/
def write (store : FileStore) (path : String) (bytes : ByteArray) : Except FileError FileStore :=
  match store.target path with
  | .ok place => if store.isLocked place then .error .denied else .ok (store.put place bytes)
  | .error e => .error e

/-- The files in the working directory, or below it, that are new or have new contents, by their
name. -/
def changes (before after : FileStore) : List (String × ByteArray) :=
  (after.files.filter fun (place, bytes) =>
      place.anchor = .above 0 && (before.get? place).map ByteArray.data ≠ some bytes.data).map
    fun (place, bytes) => (String.intercalate "/" place.names, bytes)

end FileStore

end Offside
