import MetricCatalog.Config.Basic
import MetricCatalog.Toml.Document
/-!
# Configuration files

A configuration is a TOML document.  Fields that are left out keep their
defaults, and fields that no run knows are errors.
-/

namespace MetricCatalog

open Toml (Value)

inductive ConfigMismatch
  | malformed (fault : Toml.Fault)
  | unknownField (name : String)
  | wrongType (field : String)
deriving DecidableEq

def ConfigMismatch.message : ConfigMismatch → String
  | malformed fault => fault.message
  | unknownField name => "unknown field " ++ name
  | wrongType field => "wrong type of field " ++ field

namespace Toml.Value

def asText : Value → Option String
  | text s => some s
  | _ => none

def asCount : Value → Option Nat
  | integer n => if n < 0 then none else some n.toNat
  | _ => none

def asTexts : Value → Option (List String)
  | array items => items.mapM asText
  | _ => none

def isEmptyCollection : Value → Bool
  | array items | tables items => items.isEmpty
  | table _ entries => entries.isEmpty
  | _ => false

/-- A tail policy by its name, or by its name over nothing. -/
def asTail : Value → Option TailPolicy
  | text name => TailPolicy.ofName? name
  | table _ [(name, content)] =>
    if content.isEmptyCollection then TailPolicy.ofName? name else none
  | _ => none

end Toml.Value

/-- A field's value, which must be of its type. -/
def Config.expect {α : Type} (field : String) (value : Option α) : Except ConfigMismatch α :=
  match value with
  | some a => .ok a
  | none => .error (.wrongType field)

namespace Settings

def setField (s : Settings) (field : String) (v : Value) : Except ConfigMismatch Settings := do
  match field with
  | "unfixed_labels" => return { s with unfixedLabels := ← Config.expect field v.asTexts }
  | "prefix_segments" => return { s with stemSegments := ← Config.expect field v.asCount }
  | "tail_policy" => return { s with tail := ← Config.expect field v.asTail }
  | "since" => return { s with since := some (← Config.expect field v.asText) }
  | _ => throw (.unknownField field)

/-- The fields in the order in which an array gives them. -/
def fieldOrder : List String := ["unfixed_labels", "prefix_segments", "tail_policy", "since"]

/-- Settings as a table, or as an array of the first few fields. -/
def ofToml : Value → Except ConfigMismatch Settings
  | .table _ entries => entries.foldlM (fun s (field, v) => s.setField field v) {}
  | .array items | .tables items =>
    (fieldOrder.zip items).foldlM (fun s (field, v) => s.setField field v) {}
  | _ => .error (.wrongType "sync")

end Settings

namespace Config

def setField (c : Config) (field : String) (v : Value) : Except ConfigMismatch Config := do
  match field with
  | "catalog" => return { c with catalog := ← expect field v.asText }
  | "markdown" => return { c with markdown := some (← expect field v.asText) }
  | "catalog_version" => return { c with version := some (← expect field v.asText) }
  | "escape_words" => return { c with escapeWords := ← expect field v.asTexts }
  | "escape_words_file" => return { c with escapeWordsFile := some (← expect field v.asText) }
  | "timeout_secs" => return { c with timeoutSeconds := ← expect field v.asCount }
  | "sync" => return { c with sync := ← Settings.ofToml v }
  | _ => throw (.unknownField field)

def parse (document : String) : Except ConfigMismatch Config :=
  match Toml.parse document with
  | .ok entries => entries.foldlM (fun c (field, v) => c.setField field v) {}
  | .error fault => .error (.malformed fault)

end Config

inductive ConfigFault
  | file (path : String) (cause : FileError)
  | invalid (path : String) (reason : ConfigMismatch)
deriving DecidableEq

/-- The configuration in a file; the defaults without a file. -/
def Config.load {m : Type → Type} [Monad m] [Host m] : Option String → ExceptT ConfigFault m Config
  | none => return {}
  | some path => do
    match ← readText (m := m) path with
    | .ok document =>
      match Config.parse document with
      | .ok config => return config
      | .error reason => throw (.invalid path reason)
    | .error cause => throw (.file path cause)

end MetricCatalog
