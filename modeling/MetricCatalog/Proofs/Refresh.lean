import MetricCatalog.Proofs.Overlay
import MetricCatalog.Proofs.ReconcileKeys
/-!
# Reconciling is overlaying

When new keys are appended, reconciling a catalog with a snapshot gives the
overlay of the catalog's curation on the snapshot.  Level by level, innermost
first, a merge by a rule whose combination overlays one element overlays a
whole sequence.
-/

namespace MetricCatalog

open Keyed

/-- A merge takes each new element in its canonical form; combining two
elements of one key has to overlay them. -/
theorem MergeRule.merge_eq_overlay {α : Type} [Keyed α] (rule : MergeRule α) (canon : α → α)
    (blend : Option α → α → α) (old : List α) {new : List α} (hn : Distinct new)
    (hkey : ∀ n, key (canon n) = key n) (hnone : ∀ n, blend none n = canon n)
    (hsome : ∀ o, ∀ n ∈ new, key o = key n → (rule.combine o (canon n)).1 = blend (some o) n) :
    (rule.merge .appendNew old ((sort new).map canon)).1 =
      (sort new).map fun n => blend (find? (key n) old) n := by
  have hd : Distinct ((sort new).map canon) := (distinct_map_sort hkey).2 hn
  rw [rule.merge_appendNew_fst old hd, sort_map hkey, sort_sort, List.map_map]
  refine List.map_congr_left fun n hmem => ?_
  rw [Function.comp_apply, image, hkey]
  split
  · next o hfind =>
    rw [hfind, hsome o n (mem_sort.1 hmem) (key_of_find? hfind)]
  · next hfind => rw [hfind, hnone]

theorem LabelValue.combine_fst {old new : LabelValue} (hkey : key old = key new) :
    (LabelValue.rule.combine old new).1 = new.overlay (some old) := by
  have hvalue : old.value = new.value := hkey
  rw [overlay, ← hvalue]
  rfl

theorem LabelValue.merge_eq_overlay (old : List LabelValue) {new : List LabelValue}
    (hn : Distinct new) :
    (LabelValue.rule.merge .appendNew old (sort new)).1 =
      (sort new).map fun v => v.overlay (find? v.value old) := by
  have h := LabelValue.rule.merge_eq_overlay id overlay old hn
    (fun _ => rfl) (fun _ => rfl) fun o n _ hkey => combine_fst hkey
  rwa [List.map_id] at h

theorem Label.combine_canonical {old new : Label} (hkey : key old = key new)
    (hn : new.AllKeys List.Nodup) :
    (Label.combine .appendNew old new.canonical).1 = new.overlay (some old) := by
  have hname : old.name = new.name := hkey
  have hvalues : (LabelValue.rule.merge .appendNew old.values new.canonical.values).1 =
      (sort new.values).map fun v => v.overlay (old.value? v.value) :=
    LabelValue.merge_eq_overlay old.values hn
  rw [combine_fst, hvalues, overlay, ← hname]
  rfl

theorem Metric.combine_canonical {old new : Metric} (hkey : key old = key new)
    (hn : new.AllKeys List.Nodup) :
    (Metric.combine .appendNew old new.canonical).1 = new.overlay (some old) := by
  have hname : old.name = new.name := hkey
  have hlabels : ((Label.rule .appendNew).merge .appendNew old.labels new.canonical.labels).1 =
      (sort new.labels).map fun l => l.overlay (old.label? l.name) :=
    (Label.rule .appendNew).merge_eq_overlay Label.canonical Label.overlay old.labels hn.1
      Label.key_canonical (fun _ => rfl) fun o l hl hkey => Label.combine_canonical hkey (hn.2 l hl)
  rw [overlay, ← hlabels, ← hname]
  rfl

theorem Component.combine_canonical {old new : Component} (hkey : key old = key new)
    (hn : new.AllKeys List.Nodup) :
    (Component.combine .appendNew old new.canonical).1 = new.overlay (some old) := by
  have hstem : old.stem = new.stem := hkey
  have hmetrics : ((Metric.rule .appendNew).merge .appendNew old.metrics new.canonical.metrics).1 =
      (sort new.metrics).map fun m => m.overlay (old.metric? m.name) :=
    (Metric.rule .appendNew).merge_eq_overlay Metric.canonical Metric.overlay old.metrics hn.1
      Metric.key_canonical (fun _ => rfl) fun o m hm hkey =>
        Metric.combine_canonical hkey (hn.2 m hm)
  rw [overlay, ← hmetrics, ← hstem]
  rfl

namespace Catalog

/-- The catalog that reconciling leaves, without the report. -/
def updated (tail : TailPolicy) (current observed : Catalog) : Catalog :=
  (reconcile tail current observed).1

theorem updated_appendNew (old : Catalog) {new : Catalog} (hn : new.Distinct) :
    updated .appendNew old new = old.overlay new := by
  have hcomponents :
      ((Component.rule .appendNew).merge .appendNew old.components new.canonical.components).1 =
        (sort new.components).map fun c => c.overlay (old.component? c.stem) :=
    (Component.rule .appendNew).merge_eq_overlay Component.canonical Component.overlay
      old.components hn.1 Component.key_canonical (fun _ => rfl) fun o c hc hkey =>
        Component.combine_canonical hkey (hn.2 c hc)
  rw [overlay, ← hcomponents]
  rfl

theorem overlay_of_isEmpty {old : Catalog} (new : Catalog) (h : old.isEmpty = true) :
    (old.overlay new).components = new.canonical.components := by
  have hnone (stem : String) : old.component? stem = none := by
    rw [component?, List.isEmpty_iff.1 h]
    rfl
  refine List.map_congr_left fun c _ => ?_
  rw [hnone]
  rfl

/-- Reconciling gives the overlay.  So it keeps the version, ascends at every
level, has the component, metric and label paths of the snapshot, and for an
empty catalog has the snapshot's components in canonical form. -/
theorem updated_eq_overlay {old new : Catalog} (ho : old.Distinct) (hn : new.Distinct) :
    updated .appendNew old new = old.overlay new ∧
    (updated .appendNew old new).version = old.version ∧
    (updated .appendNew old new).Ascending ∧
    (∀ stem, ((updated .appendNew old new).component? stem).isSome =
      (new.component? stem).isSome) ∧
    (∀ stem name, ((updated .appendNew old new).metricAt? stem name).isSome =
      (new.metricAt? stem name).isSome) ∧
    (∀ stem metric name, ((updated .appendNew old new).labelAt? stem metric name).isSome =
      (new.labelAt? stem metric name).isSome) ∧
    (old.isEmpty = true →
      (updated .appendNew old new).components = new.canonical.components) := by
  have heq := updated_appendNew old hn
  refine ⟨heq, rfl, ascending_reconcile .appendNew ho hn, ?_, ?_, ?_, ?_⟩
  · intro stem
    rw [heq, component?_overlay, Option.isSome_map]
  · intro stem name
    rw [heq, metricAt?_overlay, Option.isSome_map]
  · intro stem metric name
    rw [heq, labelAt?_overlay, Option.isSome_map]
  · intro hempty
    rw [heq, overlay_of_isEmpty new hempty]

/-- A catalog in no order, with curation at each level and one lock. -/
def curatedSample : Catalog where
  version := "7"
  components := [
    { stem := "kata_shim", title := "Shim" },
    { stem := "go_mem", title := "Go memory", desc := "From the runtime.", metrics := [
      { name := "go_mem_bytes", help := "Old help.", since := "1.0", labels := [
        { name := "state", desc := "Kind of memory.",
          values := [⟨"heap", "Go heap"⟩, ⟨"gone", ""⟩] },
        { name := "pod", locked := true, values := [⟨"z", "By hand"⟩, ⟨"a", ""⟩] }] }] }]

/-- A snapshot that adds, keeps and drops elements of it. -/
def observedSample : Catalog where
  components := [
    { stem := "go_mem", title := "go_mem", metrics := [
      { name := "go_mem_max", kind := .gauge },
      { name := "go_mem_bytes", kind := .gauge, unit := "bytes", help := "New help.", labels := [
        { name := "state", fixed := true, values := [⟨"stack", ""⟩, ⟨"heap", ""⟩] },
        { name := "pod", fixed := true, values := [⟨"b", ""⟩] }] }] }]

theorem updated_sample :
    curatedSample.Distinct ∧ observedSample.Distinct ∧
    updated .appendNew curatedSample observedSample =
      { version := "7"
        components := [
          { stem := "go_mem", title := "Go memory", desc := "From the runtime.", metrics := [
            { name := "go_mem_bytes", kind := .gauge, unit := "bytes", help := "New help.",
              since := "1.0", labels := [
                { name := "pod", locked := true, fixed := true,
                  values := [⟨"a", ""⟩, ⟨"z", "By hand"⟩] },
                { name := "state", desc := "Kind of memory.", fixed := true,
                  values := [⟨"heap", "Go heap"⟩, ⟨"stack", ""⟩] }] },
            { name := "go_mem_max", kind := .gauge }] }] } := by
  have ho : curatedSample.Distinct := by decide
  have hn : observedSample.Distinct := by decide
  exact ⟨ho, hn, (updated_eq_overlay ho hn).1.trans (by decide)⟩

end Catalog

end MetricCatalog
