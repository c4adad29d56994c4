import MetricCatalog.Exposition.Decode
import MetricCatalog.Host.Basic
/-!
# Where snapshots come from

A snapshot of metrics is read from a server, a file or standard input,
depending on how its location is written.
-/

namespace MetricCatalog

inductive Source
  | server (url : String) (timeoutMillis : Nat)
  | file (path : String)
  | input
deriving DecidableEq

namespace Source

/-- Requests time out after ten seconds unless they are told otherwise. -/
def defaultTimeoutMillis : Nat := 10000

/-- A dash is standard input, and an `http` or `https` scheme in lower case a
server; all else is a path, after a `file` scheme if there is one. -/
def parse (location : String) : Source :=
  let begins := fun (lead : String) => Text.dropLead? lead.toList location.toList
  if location = "-" then input
  else if (begins "http://").isSome || (begins "https://").isSome then
    server location defaultTimeoutMillis
  else
    match begins "file://" with
    | some path => file (String.ofList path)
    | none => file location

/-- Only servers have a timeout. -/
def withTimeout (millis : Nat) : Source → Source
  | server url _ => server url millis
  | source => source

def location : Source → String
  | server url _ => url
  | file path => path
  | input => "-"

end Source

inductive SourceFault
  | request (url : String) (error : RequestError)
  | file (path : String) (cause : FileError)
  | decode (location : String) (error : Exposition.DecodeError)
deriving DecidableEq

namespace Source

variable {m : Type → Type} [Monad m] [Host m]

def fetch : Source → ExceptT SourceFault m String
  | server url timeout => do
    match ← Host.request (m := m) url timeout with
    | .ok text => return text
    | .error e => throw (.request url e)
  | file path => do
    match ← readText (m := m) path with
    | .ok text => return text
    | .error cause => throw (.file path cause)
  | input => do
    match (← Host.readInput (m := m)) >>= decodeText with
    | .ok text => return text
    | .error cause => throw (.file "<stdin>" cause)

def families (source : Source) : ExceptT SourceFault m (List Family) := do
  match Exposition.decode (← source.fetch) with
  | .ok families => return families
  | .error e => throw (.decode source.location e)

end Source

end MetricCatalog
