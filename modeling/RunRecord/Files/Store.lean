import RunRecord.Files.Access
import RunRecord.Keyed

/-!
# Files/Store — a file system as a value

A **place** is the list of names that leads from the root to a file or directory.  A **store** maps
places to entries and knows a current directory, from which relative paths start.  Paths are
followed name by name: every name but the last has to lead to a directory.

**Writing may fail half way.**  A store may limit what the file at a place can hold.  Opening such a
file for writing goes well and makes or empties it; the write behind the opening then fails as soon
as the room is used up, and what had room stays in the file.  Since a file is written once in a run,
the limits stand for every way in which that write can fail: after any number of bytes, and with any
failure.

What a store does not have: owners and permissions, so that no call is refused for want of rights;
the mask for new files, since the mode of a new file is one that no usual mask reduces; links, so
that a place is reached in one way only; devices and other special files, of which only the limited
room is left; and times.
-/

namespace RunRecord

/-- The names that lead from the root to a file or directory. -/
abbrev Place := List String

/-- What is found at a place. -/
inductive Entry where
  | directory
  | file (mode : Nat) (content : Bytes)
deriving DecidableEq, Repr

/-- What keeps a file from growing: a full disk, a quota, a device that takes nothing. -/
structure Limit where
  /-- How many bytes the file can hold. -/
  room : Nat
  /-- The failure of a write that needs more room. -/
  error : FileError
deriving DecidableEq, Repr

/-- A file system. -/
structure FileStore where
  /-- The entries below the root by place, each place once. -/
  entries : List (Place × Entry)
  /-- The current directory. -/
  current : Place
  /-- The limits of files by place; where there is none, a file can hold anything. -/
  limits : List (Place × Limit) := []

namespace FileStore

/-! ## Entries

A store is read through `get?` alone, which knows that the root is a directory.  The two lemmas
about `put` are all that is needed of the list behind it. -/

/-- The entry at a place; the root is a directory. -/
def get? (store : FileStore) (place : Place) : Option Entry :=
  if place = [] then some .directory else store.entries.lookup place

/-- Puts an entry at a place, in place of whatever is there. -/
def put (store : FileStore) (place : Place) (entry : Entry) : FileStore :=
  { store with entries := Keyed.put store.entries place entry }

theorem get?_put_self {store : FileStore} {place : Place} {entry : Entry} (h : place ≠ []) :
    (store.put place entry).get? place = some entry := by
  simp [get?, put, h]

theorem get?_put_of_ne {store : FileStore} {place other : Place} {entry : Entry}
    (h : other ≠ place) : (store.put place entry).get? other = store.get? other := by
  simp [get?, put, Keyed.lookup_put_of_ne h]

theorem put_put_self (store : FileStore) (place : Place) (entry entry' : Entry) :
    (store.put place entry).put place entry' = store.put place entry' := by
  simp only [put, Keyed.put_put_self]

/-! ## Following paths

A path is followed up to its last name only, since what that name leads to is the business of the
call: one call wants a file there, another wants nothing there.  Empty names do not count, `.` stays
and `..` goes up. -/

/-- The longest name a directory can hold, in bytes. -/
def longestName : Nat := 255

/-- The longest path a call accepts, in bytes. -/
def longestPath : Nat := 4095

/-- Whether a name is too long. -/
def isLongName (name : String) : Bool := longestName < name.utf8ByteSize

/-- The directory that one name leads to. -/
def enter (store : FileStore) (here : Place) (name : String) : Except FileError Place :=
  if name = "." then .ok here
  else if name = ".." then .ok here.dropLast
  else if isLongName name then .error .nameTooLong
  else
    match store.get? (here ++ [name]) with
    | some .directory => .ok (here ++ [name])
    | some (.file ..) => .error .notDirectory
    | none => .error .notFound

/-- The directory that several names lead to, one after another. -/
def enterAll (store : FileStore) (here : Place) : List String → Except FileError Place
  | [] => .ok here
  | name :: names =>
    match store.enter here name with
    | .ok there => store.enterAll there names
    | .error e => .error e

/-- Where a path leads. -/
inductive Target where
  /-- A directory that was passed through: the root, or one named by `.` or `..`. -/
  | passed (place : Place)
  /-- A name within a directory, there or not; `slash` if the path ends in a separator. -/
  | named (directory : Place) (name : String) (slash : Bool)
deriving DecidableEq, Repr

/-- The parts of a path that are not empty. -/
def parts (path : String) : List String :=
  ((path.toList.splitOn '/').filter (· ≠ [])).map String.ofList

/-- Follows a path up to its last name. -/
def follow (store : FileStore) (path : String) : Except FileError Target :=
  if path.toList.contains '\x00' then .error .nulInPath
  else if path = "" then .error .notFound
  else if longestPath < path.utf8ByteSize then .error .nameTooLong
  else
    let start := if Path.isAbsolute path then [] else store.current
    let names := parts path
    match names.getLast? with
    | none => .ok (.passed start)
    | some last =>
      match store.enterAll start names.dropLast with
      | .error e => .error e
      | .ok here =>
        if last = "." then .ok (.passed here)
        else if last = ".." then .ok (.passed here.dropLast)
        else .ok (.named here last (path.toList.getLast? = some '/'))

/-! ## Calls

Each call follows its path and then looks at what is there.  The order in which a call finds out
what is wrong is the system's: it decides which failure is reported where there are several. -/

/-- The content of the file at a path. -/
def read (store : FileStore) (path : String) : Except FileError Bytes :=
  match store.follow path with
  | .error e => .error e
  | .ok (.passed _) => .error .isDirectory
  | .ok (.named here name slash) =>
    if isLongName name then .error .nameTooLong
    else
      match store.get? (here ++ [name]) with
      | none => .error .notFound
      | some .directory => .error .isDirectory
      | some (.file _ content) => if slash then .error .notDirectory else .ok content

/-- The mode of a new file: for its owner's eyes only. -/
def privateMode : Nat := 0o600

/-- The mode of the file at a place once it is opened for writing: an old file keeps its mode. -/
def modeFor (store : FileStore) (place : Place) : Nat :=
  match store.get? place with
  | some (.file mode _) => mode
  | _ => privateMode

/-- Where the file is, or will be, that opening a path for writing gives. -/
def locate (store : FileStore) (path : String) : Except FileError Place :=
  match store.follow path with
  | .error e => .error e
  | .ok (.passed _) => .error .isDirectory
  | .ok (.named here name slash) =>
    if slash then .error .isDirectory
    else if isLongName name then .error .nameTooLong
    else if store.get? (here ++ [name]) = some .directory then .error .isDirectory
    else .ok (here ++ [name])

/-- Opens a file for writing: it is made or emptied. -/
def create (store : FileStore) (path : String) : Except FileError Place × FileStore :=
  match store.locate path with
  | .error e => (.error e, store)
  | .ok place => (.ok place, store.put place (.file (store.modeFor place) []))

/-- The limit that a file of some length at a place is beyond, if it is. -/
def exceeded? (store : FileStore) (place : Place) (length : Nat) : Option Limit :=
  (store.limits.lookup place).filter (·.room < length)

/-- Writes behind what the file at a place holds, as far as there is room.  What is written to a
file that is gone is lost. -/
def append (store : FileStore) (place : Place) (bytes : Bytes) :
    Except FileError Unit × FileStore :=
  match store.get? place with
  | some (.file mode held) =>
    match store.exceeded? place (held ++ bytes).length with
    | none => (.ok (), store.put place (.file mode (held ++ bytes)))
    | some limit =>
      let fitting := bytes.take (limit.room - held.length)
      (.error limit.error, store.put place (.file mode (held ++ fitting)))
  | _ => (.ok (), store)

/-- The store after a directory was made. -/
def makeDirectory (store : FileStore) (path : String) : Except FileError FileStore :=
  match store.follow path with
  | .error e => .error e
  | .ok (.passed _) => .error .alreadyExists
  | .ok (.named here name _) =>
    if isLongName name then .error .nameTooLong
    else
      match store.get? (here ++ [name]) with
      | none => .ok (store.put (here ++ [name]) .directory)
      | some _ => .error .alreadyExists

/-- Whether a path leads to a directory. -/
def isDirectory (store : FileStore) (path : String) : Bool :=
  match store.follow path with
  | .error _ => false
  | .ok (.passed _) => true
  | .ok (.named here name _) =>
    !isLongName name && store.get? (here ++ [name]) == some .directory

/-! ## The store as a file system

A store is passed from call to call.  A file that is open for writing is known by its place. -/

/-- Runs a call that changes the store only if it succeeds. -/
def changing (call : FileStore → Except FileError FileStore) :
    StateM FileStore (Except FileError Unit) := fun store =>
    match call store with
    | .ok store => (.ok (), store)
    | .error e => (.error e, store)

/-- The calls on a store that is passed along. -/
def access : FileAccess (StateM FileStore) where
  Handle := Place
  read path := fun store => (store.read path, store)
  create path := fun store => store.create path
  append place bytes := fun store => store.append place bytes
  makeDirectory path := changing (·.makeDirectory path)
  isDirectory path := fun store => (store.isDirectory path, store)

end FileStore

end RunRecord
