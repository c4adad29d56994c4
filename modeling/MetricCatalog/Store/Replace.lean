import MetricCatalog.Host.Basic
/-!
# Replacing a file

A file is replaced in three steps: what it held is copied to a backup beside
it, the new contents are staged in another file beside it, and that file is
moved into place.  So the file holds the old contents or the new ones, never a
part of them.
-/

namespace MetricCatalog

def backupPath (path : String) : String := path ++ ".bak"

/-- The file in which new contents are staged. -/
def stagingPath (path : String) : String := path ++ ".tmp"

structure FileFault where
  path : String
  cause : FileError
deriving DecidableEq

/-- Replaces the contents of a file, or makes it if there is none to back up. -/
def replaceFile {m : Type → Type} [Monad m] [Host m] (path : String) (contents : ByteArray) :
    ExceptT FileFault m Unit := do
  match ← Host.copyFile (m := m) path (backupPath path) with
  | .ok () | .error .missing => pure ()
  | .error cause => throw { path := backupPath path, cause }
  let staging := stagingPath path
  if let .error cause ← Host.writeFile (m := m) staging contents then
    let _ ← Host.removeFile (m := m) staging
    throw { path := staging, cause }
  if let .error cause ← Host.renameFile (m := m) staging path then
    let _ ← Host.removeFile (m := m) staging
    throw { path, cause }

end MetricCatalog
