import MetricCatalog.Proofs.KeyLevels
/-!
# Overlaying the curation of a catalog on a snapshot

The overlay says, path by path and without any merge, what becomes of a
snapshot when a catalog lends it its curation.  A path is a list of keys, from
the component down.  Where the catalog has the path, the fields curated by hand
are the catalog's and the observed ones are the snapshot's; below a path that
the catalog lacks the snapshot stays as it is, sorted.
-/

namespace MetricCatalog

open Keyed

/-! ## Lookup by path -/

namespace Catalog

def metricAt? (c : Catalog) (stem name : String) : Option Metric :=
  (c.component? stem).bind (·.metric? name)

def labelAt? (c : Catalog) (stem metric name : String) : Option Label :=
  (c.metricAt? stem metric).bind (·.label? name)

def valueAt? (c : Catalog) (stem metric label value : String) : Option LabelValue :=
  (c.labelAt? stem metric label).bind (·.value? value)

end Catalog

/-! ## The overlay -/

/-- The snapshot decides that the value is there, and the catalog describes it
if it knows it. -/
def LabelValue.overlay (old? : Option LabelValue) (new : LabelValue) : LabelValue :=
  match old? with
  | none => new
  | some old => { value := new.value, desc := old.desc }

def Label.overlay (old? : Option Label) (new : Label) : Label :=
  match old? with
  | none => new.canonical
  | some old =>
    { name := new.name
      desc := old.desc
      locked := old.locked
      fixed := new.fixed
      values :=
        if old.locked then sort old.values
        else (sort new.values).map fun v => v.overlay (old.value? v.value) }

def Metric.overlay (old? : Option Metric) (new : Metric) : Metric :=
  match old? with
  | none => new.canonical
  | some old =>
    { name := new.name
      kind := new.kind
      unit := new.unit
      help := new.help
      labels := (sort new.labels).map fun l => l.overlay (old.label? l.name)
      since := old.since }

def Component.overlay (old? : Option Component) (new : Component) : Component :=
  match old? with
  | none => new.canonical
  | some old =>
    { stem := new.stem
      title := old.title
      desc := old.desc
      metrics := (sort new.metrics).map fun m => m.overlay (old.metric? m.name) }

/-- The snapshot `new` under the curation and the version of `old`. -/
def Catalog.overlay (old new : Catalog) : Catalog where
  version := old.version
  components := (sort new.components).map fun c => c.overlay (old.component? c.stem)

@[simp] theorem LabelValue.key_overlay (old? : Option LabelValue) (new : LabelValue) :
    key (new.overlay old?) = key new := by
  cases old? <;> rfl

@[simp] theorem Label.key_overlay (old? : Option Label) (new : Label) :
    key (new.overlay old?) = key new := by
  cases old? <;> rfl

@[simp] theorem Metric.key_overlay (old? : Option Metric) (new : Metric) :
    key (new.overlay old?) = key new := by
  cases old? <;> rfl

@[simp] theorem Component.key_overlay (old? : Option Component) (new : Component) :
    key (new.overlay old?) = key new := by
  cases old? <;> rfl

/-! ## What each level of an overlay holds -/

/-- Below an unlocked label the overlay goes on value by value. -/
theorem Label.values_overlay {old? : Option Label} (new : Label)
    (h : ∀ old ∈ old?, old.locked = false) :
    (new.overlay old?).values =
      (sort new.values).map fun v => v.overlay (old?.bind (·.value? v.value)) := by
  cases old? with
  | none => exact (List.map_id _).symm
  | some old => simp [overlay, h old rfl]

/-- A locked label keeps its whole list. -/
theorem Label.values_overlay_of_locked {old : Label} (new : Label) (h : old.locked = true) :
    (new.overlay (some old)).values = sort old.values := by
  simp [overlay, h]

theorem Metric.labels_overlay (old? : Option Metric) (new : Metric) :
    (new.overlay old?).labels =
      (sort new.labels).map fun l => l.overlay (old?.bind (·.label? l.name)) := by
  cases old? <;> rfl

theorem Component.metrics_overlay (old? : Option Component) (new : Component) :
    (new.overlay old?).metrics =
      (sort new.metrics).map fun m => m.overlay (old?.bind (·.metric? m.name)) := by
  cases old? <;> rfl

/-- Lookup in a sorted sequence whose elements changed each by its key. -/
theorem find?_map_sort {α : Type} [Keyed α] {f : String → α → α}
    (hf : ∀ k x, key (f k x) = key x) (k : String) (xs : List α) :
    find? k ((sort xs).map fun x => f (key x) x) = (find? k xs).map (f k) := by
  rw [find?_map fun x => hf (key x) x, find?_sort]
  cases hx : find? k xs with
  | none => rfl
  | some x => rw [Option.map_some, Option.map_some, key_of_find? hx]

theorem Label.value?_overlay {old? : Option Label} (new : Label)
    (h : ∀ old ∈ old?, old.locked = false) (value : String) :
    (new.overlay old?).value? value =
      (new.value? value).map (LabelValue.overlay (old?.bind (·.value? value))) := by
  rw [value?, values_overlay new h]
  exact find?_map_sort (f := fun k v => v.overlay (old?.bind (·.value? k)))
    (fun _ _ => LabelValue.key_overlay ..) value new.values

theorem Metric.label?_overlay (old? : Option Metric) (new : Metric) (name : String) :
    (new.overlay old?).label? name =
      (new.label? name).map (Label.overlay (old?.bind (·.label? name))) := by
  rw [label?, labels_overlay]
  exact find?_map_sort (f := fun k l => l.overlay (old?.bind (·.label? k)))
    (fun _ _ => Label.key_overlay ..) name new.labels

theorem Component.metric?_overlay (old? : Option Component) (new : Component) (name : String) :
    (new.overlay old?).metric? name =
      (new.metric? name).map (Metric.overlay (old?.bind (·.metric? name))) := by
  rw [metric?, metrics_overlay]
  exact find?_map_sort (f := fun k m => m.overlay (old?.bind (·.metric? k)))
    (fun _ _ => Metric.key_overlay ..) name new.metrics

namespace Catalog

variable (old new : Catalog)

theorem component?_overlay (stem : String) :
    (old.overlay new).component? stem =
      (new.component? stem).map (Component.overlay (old.component? stem)) :=
  find?_map_sort (f := fun k (c : Component) => c.overlay (old.component? k))
    (fun _ _ => Component.key_overlay ..) stem new.components

theorem metricAt?_overlay (stem name : String) :
    (old.overlay new).metricAt? stem name =
      (new.metricAt? stem name).map (Metric.overlay (old.metricAt? stem name)) := by
  simp only [metricAt?, component?_overlay]
  cases new.component? stem with
  | none => rfl
  | some c => exact c.metric?_overlay _ name

theorem labelAt?_overlay (stem metric name : String) :
    (old.overlay new).labelAt? stem metric name =
      (new.labelAt? stem metric name).map (Label.overlay (old.labelAt? stem metric name)) := by
  rw [labelAt?, metricAt?_overlay, labelAt?, labelAt?]
  cases new.metricAt? stem metric with
  | none => rfl
  | some m => exact m.label?_overlay _ name

/-- Values follow the same law where the catalog does not lock their label. -/
theorem valueAt?_overlay {stem metric label : String}
    (h : ∀ l ∈ old.labelAt? stem metric label, l.locked = false) (value : String) :
    (old.overlay new).valueAt? stem metric label value =
      (new.valueAt? stem metric label value).map
        (LabelValue.overlay (old.valueAt? stem metric label value)) := by
  rw [valueAt?, labelAt?_overlay, valueAt?, valueAt?]
  cases new.labelAt? stem metric label with
  | none => rfl
  | some l => exact l.value?_overlay h value

end Catalog

end MetricCatalog
