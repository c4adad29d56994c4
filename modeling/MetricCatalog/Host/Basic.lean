import MetricCatalog.Markdown.Timestamp
/-!
# What a run needs of its machine

Files, standard input, the network and the clock.  Every operation on files
either succeeds or says why not; paths are texts, and siblings of a file are
named by adding to its path.
-/

namespace MetricCatalog

inductive FileError
  | missing
  | isDirectory
  | notDirectory
  | nameTooLong
  /-- Only regular files can be copied. -/
  | notRegular
  | nulInPath
  | notText
  | other (message : String)
deriving DecidableEq

def FileError.message : FileError → String
  | missing => "No such file or directory (os error 2)"
  | isDirectory => "Is a directory (os error 21)"
  | notDirectory => "Not a directory (os error 20)"
  | nameTooLong => "File name too long (os error 36)"
  | notRegular => "the source path is neither a regular file nor a symlink to a regular file"
  | nulInPath => "file name contained an unexpected NUL byte"
  | notText => "stream did not contain valid UTF-8"
  | other message => message

inductive RequestError
  | failed (message : String)
  | status (code : Nat)
deriving DecidableEq

class Host (m : Type → Type) where
  readFile : (path : String) → m (Except FileError ByteArray)
  copyFile : (source target : String) → m (Except FileError Unit)
  /-- Makes or replaces the file at a path. -/
  writeFile : (path : String) → (contents : ByteArray) → m (Except FileError Unit)
  /-- Moves a file to a path, in place of a file that is there. -/
  renameFile : (source target : String) → m (Except FileError Unit)
  removeFile : (path : String) → m (Except FileError Unit)
  readInput : m (Except FileError ByteArray)
  request : (url : String) → (timeoutMillis : Nat) → m (Except RequestError String)
  now : m Timestamp

def decodeText (bytes : ByteArray) : Except FileError String :=
  match String.fromUTF8? bytes with
  | some text => .ok text
  | none => .error .notText

def readText {m : Type → Type} [Monad m] [Host m] (path : String) : m (Except FileError String) :=
  return (← Host.readFile path) >>= decodeText

end MetricCatalog
