import RunRecord.Command.Program
import RunRecord.Instant.Printer
import Std.Time.DateTime.Timestamp

/-!
# Main — the program

Runs the command line on the real file system and logs to the standard error output.  The
environment decides about colours: `NO_COLOR`, `CLICOLOR` and `CLICOLOR_FORCE` switch them off and
on; only the first of them matters to the log.

Everything the program decides is decided by pure functions in the other modules.  Here the files,
the clock and the environment are put into their hands, and what they come to is put out.
-/

namespace RunRecord

/-! ## Files -/

/-- A failure of the system as a failure of a file system. -/
def FileError.ofSystem : IO.Error → FileError
  | .alreadyExists .. => .alreadyExists
  | .noFileOrDirectory .. => .notFound
  | .inappropriateType _ code details
  | .invalidArgument _ code details
  | .noSuchThing _ code details
  | .permissionDenied _ code details
  | .resourceExhausted _ code details
  | .otherError code details
  | .unsatisfiedConstraints code details =>
    if code = 20 then .notDirectory
    else if code = 21 then .isDirectory
    else if code = 36 then .nameTooLong
    else .other s!"{details} (os error {code})"
  | e => .other (toString e)

/-- Runs a call on a path; a path with a NUL is refused. -/
def onPath {α : Type} (path : String) (call : IO α) : IO (Except FileError α) := do
  if path.contains '\x00' then return .error .nulInPath
  match ← call.toBaseIO with
  | .ok a => return .ok a
  | .error e => return .error (.ofSystem e)

/-- Opens a file for writing: an old one is emptied, a new one is for its owner's eyes only. -/
def createFile (path : String) : IO IO.FS.Handle := do
  match ← (IO.FS.Handle.mk path .writeNew).toBaseIO with
  | .ok handle =>
    IO.setAccessRights path { user := { read := true, write := true } }
    return handle
  | .error (.alreadyExists ..) => IO.FS.Handle.mk path .write
  | .error e => throw e

/-- Writes to an open file.  The bytes are handed on to the system at once, so that a full disk
shows here and not when the file is closed. -/
def appendToFile (handle : IO.FS.Handle) (bytes : Bytes) : IO (Except FileError Unit) := do
  match ← (handle.write (ByteArray.mk bytes.toArray) *> handle.flush).toBaseIO with
  | .ok () => return .ok ()
  | .error e => return .error (.ofSystem e)

/-- Whether a path leads to a directory. -/
def leadsToDirectory (path : String) : IO Bool := do
  match ← (IO.FS.realPath path).toBaseIO with
  | .ok place => place.isDir
  | .error _ => return false

/-- The real file system. -/
def systemFiles : FileAccess IO where
  Handle := IO.FS.Handle
  read path := onPath path do
    let bytes ← IO.FS.readBinFile path
    return bytes.toList
  create path := onPath path (createFile path)
  append := appendToFile
  makeDirectory path := onPath path (IO.FS.createDir path)
  isDirectory path := leadsToDirectory path

/-! ## Environment -/

/-- Whether a name of the environment is set to anything but `0`; `none` if it is not set. -/
def switch? (name : String) : IO (Option Bool) := do
  return (← IO.getEnv name).map (· ≠ "0")

/-- Whether output is coloured. -/
def wantsColours : IO Bool := do
  if (← switch? "CLICOLOR_FORCE") = some true then return true
  if (← switch? "NO_COLOR").isSome then return false
  if (← switch? "CLICOLOR") = some false then return false
  (← IO.getStdout).isTty

/-- Whether the log is coloured: unless `NO_COLOR` is set to something. -/
def wantsColouredLog : IO Bool := do
  return ((← IO.getEnv "NO_COLOR").getD "") = ""

/-- The text of the present time. -/
def presentStamp : IO String := do
  let now ← Std.Time.Timestamp.now
  let nanos := now.toNanosecondsSinceUnixEpoch.toInt
  return ((Instant.ofEpoch? (nanos / 1000000000) (nanos % 1000000000).toNat).map
    Instant.stampText).getD ""

/-- Runs the program in its environment. -/
def runSystem (arguments : List String) : IO UInt32 := do
  let log : Log :=
    { enabled := true, colours := ← wantsColouredLog, stamp := ← presentStamp }
  let exit ← runProgram systemFiles (← wantsColours) log arguments
  IO.eprint exit.messages
  IO.print exit.output
  return exit.code.toUInt32

end RunRecord

/-- The program. -/
def main (arguments : List String) : IO UInt32 := RunRecord.runSystem arguments
