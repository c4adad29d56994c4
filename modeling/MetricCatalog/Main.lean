import MetricCatalog.Run.Program
/-!
# The command line program
-/

namespace MetricCatalog

def FileError.ofSystem : IO.Error → FileError
  | .noFileOrDirectory .. => .missing
  | .inappropriateType _ code message =>
    if code = 21 then .isDirectory else if code = 20 then .notDirectory else .other message
  | e => .other (toString e)

/-- An operation of the system, whose errors are an answer. -/
def attempt {α : Type} (operation : IO α) : IO (Except FileError α) := do
  match ← operation.toBaseIO with
  | .ok a => return .ok a
  | .error e => return .error (.ofSystem e)

/-- Copies a file; directories and the like are refused. -/
def copyRegular (source target : String) : IO (Except FileError Unit) := do
  match ← attempt (IO.FS.readBinFile source) with
  | .ok contents => attempt (IO.FS.writeBinFile target contents)
  | .error .isDirectory => return .error .notRegular
  | .error e => return .error e

partial def readRest (stream : IO.FS.Stream) (taken : ByteArray := .empty) : IO ByteArray := do
  let chunk ← stream.read 65536
  if chunk.isEmpty then return taken
  readRest stream (taken ++ chunk)

/-- The time at which a new file is made. -/
def clock : IO Timestamp := do
  let (_, path) ← IO.FS.createTempFile
  let made := (← path.metadata).modified
  IO.FS.removeFile path
  return { seconds := made.sec, nanos := made.nsec.toNat }

/-- The machine that the program runs on, without a network. -/
instance : Host IO where
  readFile path := attempt (IO.FS.readBinFile path)
  copyFile := copyRegular
  writeFile path contents := attempt (IO.FS.writeBinFile path contents)
  renameFile source target := attempt (IO.FS.rename source target)
  removeFile path := attempt (IO.FS.removeFile path)
  readInput := do attempt (readRest (← IO.getStdin))
  request _ _ := return .error (.failed "there is no network")
  now := clock

end MetricCatalog

def main (words : List String) : IO UInt32 := do
  let exit ← MetricCatalog.Run.program words (← IO.getEnv "IGNORE_LABELS")
  IO.print exit.output
  IO.eprint exit.errors
  return exit.code.toUInt32
