import MetricCatalog.Catalog.Duplicate
import MetricCatalog.Text.Blank
import MetricCatalog.Yaml.Reading
import MetricCatalog.Yaml.Tree
/-!
# Catalogs as documents

A catalog is kept as a YAML document.  All fields are written; a reader needs
only the keys, takes fields in any order and passes over those it does not know.
-/

namespace MetricCatalog

/-! ## Writing -/

open Yaml (Tree)

def LabelValue.toTree (v : LabelValue) : Tree :=
  .record [("value", .text v.value), ("desc", .text v.desc)]

def Label.toTree (l : Label) : Tree :=
  .record [
    ("name", .text l.name),
    ("desc", .text l.desc),
    ("manually_edit", .flag l.locked),
    ("fixed", .flag l.fixed),
    ("values", .list (l.values.map LabelValue.toTree))]

def Metric.toTree (m : Metric) : Tree :=
  .record [
    ("name", .text m.name),
    ("type", .word m.kind.tag),
    ("unit", .text m.unit),
    ("help", .text m.help),
    ("labels", .list (m.labels.map Label.toTree)),
    ("since", .text m.since)]

def Component.toTree (c : Component) : Tree :=
  .record [
    ("prefix", .text c.stem),
    ("title", .text c.title),
    ("desc", .text c.desc),
    ("metrics", .list (c.metrics.map Metric.toTree))]

def Catalog.toTree (c : Catalog) : Tree :=
  .record [
    ("version", .text c.version),
    ("components", .list (c.components.map Component.toTree))]

def Catalog.render (c : Catalog) : String := c.toTree.render

/-! ## Reading -/

open Yaml (Node Reading)
open Yaml.Reading (text flag list word fields field fieldOr)

def Kind.ofNode (node : Node) : Reading Kind := do
  match ofTag? (← word node) with
  | some kind => return kind
  | none => throw (.expected "a metric type")

def LabelValue.ofNode (node : Node) : Reading LabelValue := do
  let fields ← fields node
  return {
    value := ← field "value" text fields
    desc := ← fieldOr "desc" text "" fields }

def Label.ofNode (node : Node) : Reading Label := do
  let fields ← fields node
  return {
    name := ← field "name" text fields
    desc := ← fieldOr "desc" text "" fields
    locked := ← fieldOr "manually_edit" flag false fields
    fixed := ← fieldOr "fixed" flag false fields
    values := ← fieldOr "values" (list LabelValue.ofNode) [] fields }

def Metric.ofNode (node : Node) : Reading Metric := do
  let fields ← fields node
  return {
    name := ← field "name" text fields
    kind := ← fieldOr "type" Kind.ofNode .untyped fields
    unit := ← fieldOr "unit" text "" fields
    help := ← fieldOr "help" text "" fields
    labels := ← fieldOr "labels" (list Label.ofNode) [] fields
    since := ← fieldOr "since" text "" fields }

def Component.ofNode (node : Node) : Reading Component := do
  let fields ← fields node
  return {
    stem := ← field "prefix" text fields
    title := ← fieldOr "title" text "" fields
    desc := ← fieldOr "desc" text "" fields
    metrics := ← fieldOr "metrics" (list Metric.ofNode) [] fields }

def Catalog.ofNode (node : Node) : Reading Catalog := do
  let fields ← fields node
  return {
    version := ← fieldOr "version" text "" fields
    components := ← fieldOr "components" (list Component.ofNode) [] fields }

inductive CatalogFault
  | malformed (reason : Yaml.Mismatch)
  | duplicate (key : DuplicateKey)
deriving DecidableEq

def CatalogFault.message : CatalogFault → String
  | malformed reason => "invalid catalog document: " ++ reason.message
  | duplicate key => key.message

/-- Blank text is the empty catalog; keys must be unique among siblings. -/
def Catalog.parse (document : String) : Except CatalogFault Catalog := do
  if Text.isBlankText document then return .empty
  match Yaml.read Catalog.ofNode document with
  | .error reason => throw (.malformed reason)
  | .ok catalog =>
    match catalog.validate with
    | .error key => throw (.duplicate key)
    | .ok _ => return catalog

end MetricCatalog
