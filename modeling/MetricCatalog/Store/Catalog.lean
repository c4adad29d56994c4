import MetricCatalog.Catalog.Document
import MetricCatalog.Markdown.Reference
import MetricCatalog.Store.Replace
/-!
# Catalogs and references in files

A catalog is kept in a file of its own, with the one before it as backup.
-/

namespace MetricCatalog

inductive StoreFault
  | file (fault : FileFault)
  | catalog (path : String) (fault : CatalogFault)
deriving DecidableEq

instance : Coe FileFault StoreFault := ⟨.file⟩

variable {m : Type → Type} [Monad m] [Host m]

/-- The catalog in a file; without the file, the empty catalog. -/
def Catalog.load (path : String) : ExceptT StoreFault m Catalog := do
  match ← readText (m := m) path with
  | .ok document =>
    match Catalog.parse document with
    | .ok catalog => return catalog
    | .error fault => throw (.catalog path fault)
  | .error .missing => return .empty
  | .error cause => throw (.file { path, cause })

def Catalog.store (c : Catalog) (path : String) : ExceptT FileFault m Unit :=
  replaceFile path c.render.toUTF8

def Catalog.publish (c : Catalog) (path : String) (escapeWords : KeySet) (updated : Timestamp) :
    ExceptT FileFault m Unit :=
  replaceFile path (c.toMarkdown escapeWords updated).toUTF8

def loadEscapeWords (path : String) : ExceptT FileFault m KeySet := do
  match ← readText (m := m) path with
  | .ok text => return Markdown.escapeWords text
  | .error cause => throw { path, cause }

end MetricCatalog
