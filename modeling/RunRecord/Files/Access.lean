import RunRecord.Path
import RunRecord.Text.Utf8

/-!
# Files/Access — what the commands need of a file system

A **file access** is the handful of calls that the commands make: reading a file, opening a file to
be written, writing to what was opened, making one directory, and asking whether a path leads to a
directory.  Commands are written against this interface, so that they run on the real file system
and on the pure `FileStore` alike.

Writing is two calls, and that is the point of the interface.  `create` makes the file or empties
it, and `append` may fail behind it, when the disk is full: then the file is there and holds what
could be written.  `FileAccess.write` puts the two together and does not clean up between them.
-/

namespace RunRecord

/-! ## Failures -/

/-- Why a call of the file system fails.  The failures that the commands meet have a name of their
own; every other one is passed on in the system's words. -/
inductive FileError where
  | notFound
  | alreadyExists
  | notDirectory
  | isDirectory
  | nameTooLong
  /-- The path holds a NUL, which no file name can. -/
  | nulInPath
  /-- Any other failure, in the system's words. -/
  | other (message : String)
deriving DecidableEq, Repr

/-- The wording of a failure, as the system words it: the text of its number, and the number. -/
def FileError.message : FileError → String
  | notFound => "No such file or directory (os error 2)"
  | alreadyExists => "File exists (os error 17)"
  | notDirectory => "Not a directory (os error 20)"
  | isDirectory => "Is a directory (os error 21)"
  | nameTooLong => "File name too long (os error 36)"
  | nulInPath => "file name contained an unexpected NUL byte"
  | other message => message

/-! ## Calls

The interface says what a call is given and what it answers, not what it does: an instance is the
system itself or a value that stands for one. -/

/-- The calls of a file system whose effects live in `m`. -/
structure FileAccess (m : Type → Type) where
  /-- What stands for a file that is open for writing. -/
  Handle : Type
  /-- The content of a file. -/
  read : (path : String) → m (Except FileError Bytes)
  /-- Opens a file to be written from its beginning.  A file that is not there is made, for its
  owner's eyes only; a file that is there is emptied and keeps its mode. -/
  create : (path : String) → m (Except FileError Handle)
  /-- Writes bytes behind what an open file holds.  What was written before a failure stays. -/
  append : Handle → Bytes → m (Except FileError Unit)
  /-- Makes one directory. -/
  makeDirectory : (path : String) → m (Except FileError Unit)
  /-- Whether a path leads to a directory. -/
  isDirectory : (path : String) → m Bool

namespace FileAccess

variable {m : Type → Type} [Monad m]

/-- Makes a file hold exactly the given bytes.  Where the file cannot be opened nothing happens;
where writing to it fails, what was opened and written stays as it is. -/
def write (files : FileAccess m) (path : String) (content : Bytes) :
    m (Except FileError Unit) := do
  match ← files.create path with
  | .ok handle => files.append handle content
  | .error e => return .error e

/-! ## Directories

A directory is made together with those above it that are missing.  That a directory is there
already is found out by the failure to make it, so that nothing is asked for in advance. -/

/-- Makes a directory; that one is there already is not a failure. -/
def ensureDirectory (files : FileAccess m) (path : String) : m (Except FileError Unit) := do
  match ← files.makeDirectory path with
  | .ok () => return .ok ()
  | .error e => return if ← files.isDirectory path then .ok () else .error e

/-- Makes the first directory of a chain that goes upwards, and before it those above it that are
missing.  The chain is climbed only as far as directories are missing, and made from there on
downwards. -/
def ensureChain (files : FileAccess m) : (chain : List String) → m (Except FileError Unit)
  | [] => return .ok ()
  | path :: above => do
    match ← files.makeDirectory path with
    | .ok () => return .ok ()
    | .error .notFound =>
      match ← files.ensureChain above with
      | .ok () => files.ensureDirectory path
      | .error e => return .error e
    | .error e => return if ← files.isDirectory path then .ok () else .error e

/-- Makes a directory and those above it that are missing. -/
def ensureDirectories (files : FileAccess m) (path : String) : m (Except FileError Unit) :=
  files.ensureChain (Path.ancestors path)

end FileAccess

end RunRecord
