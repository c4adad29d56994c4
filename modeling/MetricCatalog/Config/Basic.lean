import MetricCatalog.Observe.Normalizer
import MetricCatalog.Store.Catalog
/-!
# Configuration of a run

Which files a run works on, and how it observes and reconciles.
-/

namespace MetricCatalog

structure Config where
  catalog : String := "metrics.yaml"
  markdown : Option String := none
  version : Option String := none
  /-- Words that help texts show as code. -/
  escapeWords : List String := []
  escapeWordsFile : Option String := none
  timeoutSeconds : Nat := 10
  sync : Settings := {}
deriving DecidableEq

namespace Config

def timeoutMillis (c : Config) : Nat := 1000 * c.timeoutSeconds

def allEscapeWords {m : Type → Type} [Monad m] [Host m] (c : Config) :
    ExceptT FileFault m KeySet := do
  let words := Markdown.addEscapeWords .empty c.escapeWords
  match c.escapeWordsFile with
  | some path => return Markdown.addEscapeWords words (← loadEscapeWords (m := m) path).toList
  | none => return words

end Config

end MetricCatalog
