import MetricCatalog.Config.Document
import MetricCatalog.Snapshot.Source
/-!
# Failed runs

A failure is told by its causes, the outermost first.
-/

namespace MetricCatalog

def FileFault.message (f : FileFault) : String :=
  "io error on " ++ f.path ++ ": " ++ f.cause.message

def FileFault.chain (f : FileFault) : List String := [f.message, f.cause.message]

def CatalogFault.chain (f : CatalogFault) : List String :=
  match f with
  | malformed reason => [f.message, reason.message]
  | duplicate _ => [f.message]

def StoreFault.chain : StoreFault → List String
  | file fault => fault.chain
  | catalog path fault => ("catalog " ++ path ++ ": " ++ fault.message) :: fault.chain

def RequestError.message (url : String) : RequestError → String
  | failed message => "request to " ++ url ++ " failed: " ++ message
  | status code => url ++ " returned HTTP " ++ toString code

def SourceFault.chain : SourceFault → List String
  | request url error =>
    error.message url ::
      match error with
      | .failed message => [message]
      | .status _ => []
  | file path cause => ["io error reading " ++ path ++ ": " ++ cause.message, cause.message]
  | decode location error =>
    ["cannot decode snapshot from " ++ location ++ ": " ++ error.message, error.message]

def ConfigFault.chain : ConfigFault → List String
  | file path cause => ["io error reading " ++ path ++ ": " ++ cause.message, cause.message]
  | invalid path reason => ["invalid config " ++ path ++ ": " ++ reason.message, reason.message]

inductive Failure
  | config (fault : ConfigFault)
  | snapshot (location : String) (fault : SourceFault)
  | load (path : String) (fault : StoreFault)
  | escapeWords (fault : FileFault)
  | store (fault : FileFault)
  | publish (fault : FileFault)
  | noMarkdown
deriving DecidableEq

namespace Failure

/-- What happened, then why, down to the first cause. -/
def chain : Failure → List String
  | config fault => fault.chain
  | snapshot location fault => ("failed to read metrics from " ++ location) :: fault.chain
  | load path fault => ("failed to load catalog " ++ path) :: fault.chain
  | escapeWords fault => fault.chain
  | store fault => "failed to store catalog" :: fault.chain
  | publish fault => "failed to write Markdown" :: fault.chain
  | noMarkdown => ["no Markdown output; pass --markdown or set \x60markdown\x60 in the config"]

end Failure

end MetricCatalog
