import MetricCatalog.CommandLine.Invocation
import MetricCatalog.Reconcile.Basic
import MetricCatalog.Run.Failure
import MetricCatalog.Run.Summary
/-!
# The three commands

`sync` takes a snapshot into the catalog, `inspect` shows what a snapshot says
by itself and `render` writes the reference.  Everything is read before the
first file is written.
-/

namespace MetricCatalog.Run

open CommandLine (SyncOptions RenderOptions InspectOptions)

variable {m : Type → Type} [Monad m] [Host m]

def observe (location : String) (c : Config) : ExceptT Failure m Catalog := do
  let source := (Source.parse location).withTimeout c.timeoutMillis
  let families ← source.families.adapt (.snapshot location)
  return c.sync.normalizer.observe families

/-- Stores a catalog and, where it is configured, writes the reference. -/
def writeFiles (c : Config) (catalog : Catalog) : ExceptT Failure m Unit := do
  match c.markdown with
  | none => (catalog.store c.catalog).adapt .store
  | some path =>
    let words ← c.allEscapeWords.adapt .escapeWords
    (catalog.store c.catalog).adapt .store
    (catalog.publish path words (← Host.now (m := m))).adapt .publish

/-- The catalog after a synchronisation, which gets the configured version. -/
def reconcile (c : Config) (current observed : Catalog) : Catalog × Report :=
  let (catalog, report) := Catalog.reconcile c.sync.tail current observed
  ({ catalog with version := c.version.getD catalog.version }, report)

def sync (o : SyncOptions) (c : Config) : ExceptT Failure m Summary := do
  let c := o.apply c
  let observed ← observe o.source c
  let current ← (Catalog.load c.catalog).adapt (.load c.catalog)
  let (catalog, report) := reconcile c current observed
  if !o.dryRun then writeFiles c catalog
  return {
    source := o.source
    catalog := c.catalog
    markdown := c.markdown
    dryRun := o.dryRun
    changed := catalog ≠ current
    version := catalog.version
    components := catalog.components.length
    metrics := catalog.metricCount
    report }

def render (o : RenderOptions) (c : Config) : ExceptT Failure m String := do
  let c := o.apply c
  match c.markdown with
  | none => throw .noMarkdown
  | some path =>
    let catalog ← (Catalog.load c.catalog).adapt (.load c.catalog)
    let words ← c.allEscapeWords.adapt .escapeWords
    (catalog.publish path words (← Host.now (m := m))).adapt .publish
    return path

def inspect (o : InspectOptions) (c : Config) : ExceptT Failure m Catalog :=
  observe o.source (o.observe.apply c)

end MetricCatalog.Run
