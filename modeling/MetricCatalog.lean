import MetricCatalog.Text.Blank
import MetricCatalog.Key.Set
import MetricCatalog.Key.Map
import MetricCatalog.Reconcile.Basic
import MetricCatalog.Decimal.Double
import MetricCatalog.Exposition.Decode
import MetricCatalog.Observe.Normalizer
import MetricCatalog.Catalog.Document
import MetricCatalog.Markdown.Reference
import MetricCatalog.Host.Disk
import MetricCatalog.Store.Replace
import MetricCatalog.Store.Catalog
import MetricCatalog.Snapshot.Source
import MetricCatalog.Toml.Document
import MetricCatalog.Config.Document
import MetricCatalog.CommandLine.Invocation
import MetricCatalog.Run.Program
import MetricCatalog.Main
import MetricCatalog.Proofs.IndexedMerge
import MetricCatalog.Proofs.ReconcileKeys
import MetricCatalog.Proofs.Overlay
import MetricCatalog.Proofs.CurationHistory
import MetricCatalog.Proofs.Evolution
import MetricCatalog.Proofs.Settling
import MetricCatalog.Proofs.Balance
import MetricCatalog.Proofs.Authority
import MetricCatalog.Proofs.MergeReport
import MetricCatalog.Proofs.KeyMatch
import MetricCatalog.Proofs.Membership
import MetricCatalog.Proofs.FirstFault
import MetricCatalog.Proofs.DeclaredReading
import MetricCatalog.Proofs.Rescrape
import MetricCatalog.Proofs.RoundTrip
import MetricCatalog.Proofs.ObservedCatalog
import MetricCatalog.Proofs.Placement
import MetricCatalog.Proofs.DiskChanges
import MetricCatalog.Proofs.SiblingPaths
import MetricCatalog.Proofs.HostFiles
import MetricCatalog.Proofs.Replacement
import MetricCatalog.Proofs.RunEffects
import MetricCatalog.Proofs.RunOutputs
import MetricCatalog.Proofs.DependableMachine
import MetricCatalog.Proofs.StoreHistory
import MetricCatalog.Proofs.SyncSummary
import MetricCatalog.Proofs.SyncTwice
import MetricCatalog.Proofs.MergeByIndex
import MetricCatalog.Proofs.LabelGrammar
import MetricCatalog.Proofs.SampleHomes
import MetricCatalog.Proofs.TableRows
import MetricCatalog.Proofs.OpenLabels
import MetricCatalog.Proofs.FirstDuplicate
import MetricCatalog.Proofs.CanonicalForm
import MetricCatalog.Proofs.ListedLabels
import MetricCatalog.Proofs.UnitWords
import MetricCatalog.Proofs.NameStems
import MetricCatalog.Proofs.HelpWords
import MetricCatalog.Proofs.ListedNames
