import MetricCatalog.Host.Basic
/-!
# Files and directories as a value

A disk says for each place what is there.  Paths are read from the working
directory, which is the root; a path is followed name by name, and each name but
the last must lead to a directory.
-/

namespace MetricCatalog

/-- A place: the names that lead to it from the root. -/
abbrev Location := List String

/-- The order of a listing: each place before those inside it, and places side by
side by name. -/
def Location.isBefore : Location → Location → Bool
  | [], _ => true
  | _ :: _, [] => false
  | a :: as, b :: bs => a < b || (a = b && isBefore as bs)

inductive Entry
  | file (contents : ByteArray)
  | directory

/-- The entries of all places but the root, each place once. -/
structure Disk where
  entries : List (Location × Entry) := []

namespace Disk

def at? (d : Disk) (l : Location) : Option Entry :=
  if l = [] then some .directory else d.entries.lookup l

def erase (d : Disk) (l : Location) : Disk :=
  { entries := d.entries.filter (·.1 ≠ l) }

def set (d : Disk) (l : Location) (e : Entry) : Disk :=
  { entries := (l, e) :: (d.erase l).entries }

/-! ## Paths -/

def follow (d : Disk) : Location → List String → Except FileError Location
  | here, [] => .ok here
  | here, name :: names =>
    match d.at? here with
    | none => .error .missing
    | some (.file _) => .error .notDirectory
    | some .directory =>
      if name = "" || name = "." then follow d here names
      else if name = ".." then follow d here.dropLast names
      else if 255 < name.utf8ByteSize then .error .nameTooLong
      else follow d (here ++ [name]) names

def names (path : String) : List String :=
  (path.toList.splitOnP (· = '/')).map String.ofList

/-- The place that a path leads to, where there may be nothing.  A path has fewer
than 4096 bytes, and a name on it at most 255. -/
def locate (d : Disk) (path : String) : Except FileError Location :=
  if path.toList.contains '\x00' then .error .nulInPath
  else if 4096 ≤ path.utf8ByteSize then .error .nameTooLong
  else if path = "" then .error .missing
  else d.follow [] (names path)

/-! ## Operations -/

def read (d : Disk) (path : String) : Except FileError ByteArray := do
  match d.at? (← d.locate path) with
  | some (.file contents) => return contents
  | some .directory => throw .isDirectory
  | none => throw .missing

def write (d : Disk) (path : String) (contents : ByteArray) : Except FileError Disk := do
  let l ← d.locate path
  match d.at? l with
  | some .directory => throw .isDirectory
  | _ => return d.set l (.file contents)

def copy (d : Disk) (source target : String) : Except FileError Disk := do
  match d.at? (← d.locate source) with
  | some (.file contents) => d.write target contents
  | some .directory => throw .notRegular
  | none => throw .missing

def rename (d : Disk) (source target : String) : Except FileError Disk := do
  let l ← d.locate source
  match d.at? l with
  | some (.file contents) => (d.erase l).write target contents
  | some .directory => throw .isDirectory
  | none => throw .missing

def remove (d : Disk) (path : String) : Except FileError Disk := do
  let l ← d.locate path
  match d.at? l with
  | some (.file _) => return d.erase l
  | some .directory => throw .isDirectory
  | none => throw .missing

/-- Makes a directory and those that lead to it. -/
def makeDirectory (d : Disk) (path : String) : Disk :=
  let enter : Disk × Location → String → Disk × Location := fun (d, here) name =>
    if name = "" || name = "." then (d, here)
    else if name = ".." then (d, here.dropLast)
    else
      let there := here ++ [name]
      (if (d.at? there).isNone then d.set there .directory else d, there)
  ((names path).foldl enter (d, [])).1

/-- Everything on the disk, each directory before its entries and the entries
of a directory by name. -/
def listing (d : Disk) : List (Location × Entry) :=
  d.entries.mergeSort fun a b => a.1.isBefore b.1

end Disk

/-- A machine whose disk is a value. -/
structure Machine where
  disk : Disk := {}
  input : ByteArray := .empty
  time : Timestamp := { seconds := 0 }
  request : String → Except RequestError String := fun _ => .error (.failed "no network")

namespace Machine

/-- An operation that fails leaves the disk as it is. -/
def onDisk (change : Disk → Except FileError Disk) : StateM Machine (Except FileError Unit) :=
  fun m =>
    match change m.disk with
    | .ok disk => (.ok (), { m with disk })
    | .error e => (.error e, m)

instance : Host (StateM Machine) where
  readFile path := return (← get).disk.read path
  copyFile source target := onDisk (·.copy source target)
  writeFile path contents := onDisk (·.write path contents)
  renameFile source target := onDisk (·.rename source target)
  removeFile path := onDisk (·.remove path)
  readInput := return .ok (← get).input
  request url _ := return (← get).request url
  now := return (← get).time

end Machine

end MetricCatalog
