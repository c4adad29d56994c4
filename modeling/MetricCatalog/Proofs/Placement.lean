import MetricCatalog.Proofs.ObservedCatalog
import MetricCatalog.Proofs.Refresh
/-!
# Where metrics stand

Merges work on one component at a time, so what holds across components has to
come from the snapshot: there each metric stands in the component of its group.
Every metric of a reconciled catalog is at the place that the snapshot has for
its name, whatever the grouping was when the catalog was made.  So no name
occurs twice, and a search of the whole catalog finds what its group holds.
-/

namespace MetricCatalog

open Keyed

/-- Every metric belongs to the group that the component stands for. -/
def Component.Placed (group : String → String) (x : Component) : Prop :=
  ∀ m ∈ x.metrics, group m.name = x.stem

def Catalog.Placed (group : String → String) (c : Catalog) : Prop :=
  ∀ x ∈ c.components, x.Placed group

variable {group : String → String}

theorem Normalizer.placed_observe (n : Normalizer) (families : List Family) :
    (n.observe families).Placed n.stemOf := by
  intro x hx m hm
  have hobserved := (observedIn_observe n families).components x hx
  exact ((hobserved.mem_metrics m.name).1 (key_mem_keys hm)).1

/-! ## Merging -/

theorem Component.placed_canonical {x : Component} (h : x.Placed group) :
    x.canonical.Placed group := by
  intro m hm
  obtain ⟨m, hmem, rfl⟩ := List.mem_map.1 hm
  exact h m (mem_sort.1 hmem)

theorem Catalog.placed_canonical {c : Catalog} (h : c.Placed group) :
    c.canonical.Placed group := by
  intro x hx
  obtain ⟨x, hmem, rfl⟩ := List.mem_map.1 hx
  exact Component.placed_canonical (h x (mem_sort.1 hmem))

/-- The metrics of a combination have names of the snapshot's. -/
theorem Component.placed_combine (tail : TailPolicy) {old new : Component}
    (hkey : key old = key new) (hn : Distinct new.metrics) (h : new.Placed group) :
    (Component.combine tail old new).1.Placed group := by
  have hstem : old.stem = new.stem := hkey
  refine (Metric.rule tail).forall_mem_merge tail hn (p := fun m => group m.name = old.stem) ?_ ?_
  · intro m hm
    rw [hstem]
    exact h m hm
  · intro o _ m hm hname
    have hcombined : (Metric.combine tail o m).1.name = m.name :=
      (Metric.key_combine tail o m).trans hname
    show group (Metric.combine tail o m).1.name = old.stem
    rw [hcombined, hstem]
    exact h m hm

section

variable (tail : TailPolicy) (current : Catalog) {observed : Catalog}

theorem Catalog.placed_updated (ho : observed.Distinct) (h : observed.Placed group) :
    (updated tail current observed).Placed group := by
  have hcanon := ascending_canonical ho
  have hplaced := placed_canonical h
  refine (Component.rule tail).forall_mem_merge tail (nodup_of_pairwise_lt hcanon.1) hplaced ?_
  intro o _ x hx hkey
  exact Component.placed_combine tail hkey (nodup_of_pairwise_lt (hcanon.2 x hx).1) (hplaced x hx)

/-- Components and their metrics have unique names whatever the catalog was. -/
theorem Catalog.distinct_components_updated (ho : observed.Distinct) :
    Keyed.Distinct (updated tail current observed).components :=
  ((Component.rule tail).ascending_merge tail current.components
    (nodup_of_pairwise_lt (ascending_canonical ho).1)
    fun o n hkey => (Component.key_combine tail o n).trans hkey).distinct

theorem Component.distinct_metrics_combine {new : Component} (old : Component)
    (hn : Distinct new.metrics) : Distinct (Component.combine tail old new).1.metrics :=
  ((Metric.rule tail).ascending_merge tail old.metrics hn
    fun o n hkey => (Metric.key_combine tail o n).trans hkey).distinct

theorem Catalog.distinct_metrics_updated (ho : observed.Distinct) :
    ∀ x ∈ (updated tail current observed).components, Keyed.Distinct x.metrics := by
  have hcanon := (ascending_canonical ho).distinct
  refine (Component.rule tail).forall_mem_merge tail hcanon.1 (fun x hx => (hcanon.2 x hx).1) ?_
  intro o _ x hx _
  exact Component.distinct_metrics_combine tail o (hcanon.2 x hx).1

end

/-! ## What placement gives -/

/-- Only the group of a name can hold it. -/
theorem Component.Placed.stem_eq {x : Component} (h : x.Placed group) {name : String}
    (hname : name ∈ keys x.metrics) : x.stem = group name := by
  obtain ⟨m, hm, rfl⟩ := mem_keys.1 hname
  exact (h m hm).symm

/-- A search through all components ends in the group of the name. -/
theorem findSome?_metric? {xs : List Component} (h : ∀ x ∈ xs, x.Placed group) (hd : Distinct xs)
    (name : String) :
    xs.findSome? (·.metric? name) = (find? (group name) xs).bind (·.metric? name) := by
  induction xs with
  | nil => rfl
  | cons x xs ih =>
      obtain ⟨hx, hxs⟩ := List.nodup_cons.1 hd
      have ih := ih (fun y hy => h y (List.mem_cons_of_mem _ hy)) hxs
      rw [List.findSome?_cons, find?_cons, ih]
      by_cases hstem : key x = group name
      · -- no other component stands for the group
        have hnone : find? (group name) xs = none := find?_eq_none.2 (hstem ▸ hx)
        rw [if_pos hstem, hnone]
        cases hm : x.metric? name <;> simp [hm]
      · have hm : x.metric? name = none := by
          refine find?_eq_none.2 fun hname => hstem ?_
          exact (h x (List.mem_cons_self ..)).stem_eq hname
        rw [if_neg hstem, hm]

namespace Catalog

variable {c : Catalog}

theorem Placed.findMetric?_eq (h : c.Placed group) (hd : Keyed.Distinct c.components)
    (name : String) : c.findMetric? name = (c.component? (group name)).bind (·.metric? name) :=
  findSome?_metric? h hd name

theorem Placed.distinct_metrics (h : c.Placed group) (hd : Keyed.Distinct c.components)
    (hm : ∀ x ∈ c.components, Keyed.Distinct x.metrics) : Keyed.Distinct c.metrics := by
  have hkeys : keys c.metrics = c.components.flatMap fun x => keys x.metrics := List.map_flatMap
  have hstems : c.components.Pairwise fun x y => key x ≠ key y := List.pairwise_map.1 hd
  rw [Keyed.Distinct, hkeys, List.nodup_flatMap]
  refine ⟨hm, hstems.imp_of_mem fun {x y} hx hy hne name hnx hny => hne ?_⟩
  exact ((h x hx).stem_eq hnx).trans ((h y hy).stem_eq hny).symm

/-- However the catalog was grouped before, after a snapshot has been reconciled
with it each metric stands in the component of its group, no metric name occurs
twice in the whole catalog, and a metric is found by its name where its group is. -/
theorem updated_observe_placed (tail : TailPolicy) (current : Catalog) (n : Normalizer)
    (families : List Family) :
    (∀ x ∈ (updated tail current (n.observe families)).components,
      ∀ m ∈ x.metrics, n.stemOf m.name = x.stem) ∧
    ((updated tail current (n.observe families)).metrics.map Metric.name).Nodup ∧
    ∀ name, (updated tail current (n.observe families)).findMetric? name =
      ((updated tail current (n.observe families)).component? (n.stemOf name)).bind
        (·.metric? name) := by
  have ho := (n.ascending_observe families).distinct
  have hplaced := placed_updated tail current ho (n.placed_observe families)
  have hcomponents := distinct_components_updated tail current ho
  have hmetrics := distinct_metrics_updated tail current ho
  exact ⟨hplaced, hplaced.distinct_metrics hcomponents hmetrics, hplaced.findMetric?_eq hcomponents⟩

end Catalog

end MetricCatalog
