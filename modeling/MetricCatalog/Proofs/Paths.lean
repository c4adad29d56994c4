import MetricCatalog.Proofs.MergeReport
import MetricCatalog.Proofs.Overlay
/-!
# Paths of a catalog

What stands at a path is looked up level by level, and sorting a catalog does not
change it.  The paths themselves are listed in document order; of these lists the
paths that a second catalog has too are counted and summed over.
-/

namespace MetricCatalog

open Keyed

namespace Catalog

variable {c : Catalog}

/-! ## One level further down -/

theorem metricAt?_of_component? {stem : String} {x : Component} (h : x ∈ c.component? stem)
    (name : String) : c.metricAt? stem name = x.metric? name := by
  rw [metricAt?, Option.mem_def.1 h, Option.bind_some]

theorem labelAt?_of_metricAt? {stem metric : String} {m : Metric}
    (h : m ∈ c.metricAt? stem metric) (name : String) :
    c.labelAt? stem metric name = m.label? name := by
  rw [labelAt?, Option.mem_def.1 h, Option.bind_some]

theorem valueAt?_of_labelAt? {stem metric label : String} {l : Label}
    (h : l ∈ c.labelAt? stem metric label) (value : String) :
    c.valueAt? stem metric label value = l.value? value := by
  rw [valueAt?, Option.mem_def.1 h, Option.bind_some]

end Catalog

/-! ## Lookup in canonical form -/

theorem Metric.label?_canonical (m : Metric) (name : String) :
    m.canonical.label? name = (m.label? name).map Label.canonical := by
  rw [label?, canonical, find?_map Label.key_canonical, find?_sort]
  rfl

theorem Component.metric?_canonical (x : Component) (name : String) :
    x.canonical.metric? name = (x.metric? name).map Metric.canonical := by
  rw [metric?, canonical, find?_map Metric.key_canonical, find?_sort]
  rfl

namespace Catalog

variable (c : Catalog)

theorem component?_canonical (stem : String) :
    c.canonical.component? stem = (c.component? stem).map Component.canonical := by
  rw [component?, canonical, find?_map Component.key_canonical, find?_sort]
  rfl

theorem metricAt?_canonical (stem name : String) :
    c.canonical.metricAt? stem name = (c.metricAt? stem name).map Metric.canonical := by
  rw [metricAt?, component?_canonical, metricAt?]
  cases c.component? stem with
  | none => rfl
  | some x => exact x.metric?_canonical name

theorem labelAt?_canonical (stem metric name : String) :
    c.canonical.labelAt? stem metric name = (c.labelAt? stem metric name).map Label.canonical := by
  rw [labelAt?, metricAt?_canonical, labelAt?]
  cases c.metricAt? stem metric with
  | none => rfl
  | some m => exact m.label?_canonical name

end Catalog

/-! ## Lists of paths -/

namespace Keyed

variable {α β : Type} [Keyed α]

/-- The paths below the elements of a sequence, each behind the key of its element. -/
def pathsBelow (below : α → List β) (xs : List α) : List (String × β) :=
  xs.flatMap fun x => (below x).map (key x, ·)

theorem mem_pathsBelow {below : α → List β} {xs : List α} {k : String} {x : α} {q : β}
    (hx : find? k xs = some x) (hq : q ∈ below x) : (k, q) ∈ pathsBelow below xs := by
  obtain rfl := key_of_find? hx
  exact List.mem_flatMap.2 ⟨x, mem_of_find? hx, List.mem_map_of_mem hq⟩

/-- Sums over the paths that a second sequence has too go pair by pair. -/
theorem sum_filter_pathsBelow (below : α → List β) (has : α → β → Bool) (g : String × β → Nat)
    (old new : List α) :
    (((pathsBelow below old).filter fun p => (find? p.1 new).any (has · p.2)).map g).sum =
      ((shared old new).map fun p =>
        (((below p.1).filter (has p.2)).map fun q => g (key p.1, q)).sum).sum := by
  induction old with
  | nil => rfl
  | cons o old ih =>
      have hcons : pathsBelow below (o :: old) =
          (below o).map (key o, ·) ++ pathsBelow below old := List.flatMap_cons
      rw [hcons, List.filter_append, List.map_append, List.sum_append, ih, List.filter_map,
        List.map_map]
      cases hfind : find? (key o) new with
      | none =>
          have hempty : (below o).filter
              ((fun p => (find? p.1 new).any (has · p.2)) ∘ (key o, ·)) = [] :=
            List.filter_eq_nil_iff.2 fun q _ => by simp [hfind]
          rw [hempty, shared, shared, List.filterMap_cons_none (by simp [hfind])]
          exact Nat.zero_add _
      | some n =>
          have hhas : (below o).filter
              ((fun p => (find? p.1 new).any (has · p.2)) ∘ (key o, ·)) =
                (below o).filter (has n) :=
            List.filter_congr fun q _ => by simp [hfind]
          rw [hhas, shared, shared, List.filterMap_cons_some (by rw [hfind]; rfl), List.map_cons,
            List.sum_cons]
          rfl

/-- The innermost level of such a sum. -/
theorem sum_filter_keys (g : String → Nat) (old new : List α) :
    (((keys old).filter fun k => (find? k new).isSome).map g).sum =
      ((shared old new).map fun p => g (key p.1)).sum := by
  induction old with
  | nil => rfl
  | cons o old ih =>
      rw [keys_cons, List.filter_cons]
      cases hfind : find? (key o) new with
      | none =>
          rw [if_neg (by simp), ih, shared, shared, List.filterMap_cons_none (by simp [hfind])]
      | some n =>
          rw [Option.isSome_some, if_pos rfl, List.map_cons, List.sum_cons, ih, shared, shared,
            List.filterMap_cons_some (by rw [hfind]; rfl), List.map_cons, List.sum_cons]

end Keyed

namespace Catalog

def metricPaths (c : Catalog) : List (String × String) :=
  pathsBelow (fun x => keys x.metrics) c.components

def labelPaths (c : Catalog) : List (String × String × String) :=
  pathsBelow (fun x => pathsBelow (fun m => keys m.labels) x.metrics) c.components

def valuePaths (c : Catalog) : List (String × String × String × String) :=
  pathsBelow (fun x => pathsBelow (fun m => pathsBelow (fun l => keys l.values) m.labels) x.metrics)
    c.components

section

variable {c : Catalog}

theorem component?_eq_none {stem : String} (h : stem ∉ keys c.components) :
    c.component? stem = none :=
  find?_eq_none.2 h

theorem metricAt?_eq_none {stem name : String} (h : (stem, name) ∉ c.metricPaths) :
    c.metricAt? stem name = none := by
  cases hm : c.metricAt? stem name with
  | none => rfl
  | some m =>
      obtain ⟨x, hx, hm⟩ := Option.bind_eq_some_iff.1 hm
      exact absurd (mem_pathsBelow hx (isSome_find?.1 (Option.isSome_of_eq_some hm))) h

theorem labelAt?_eq_none {stem metric name : String} (h : (stem, metric, name) ∉ c.labelPaths) :
    c.labelAt? stem metric name = none := by
  cases hl : c.labelAt? stem metric name with
  | none => rfl
  | some l =>
      obtain ⟨m, hm, hl⟩ := Option.bind_eq_some_iff.1 hl
      obtain ⟨x, hx, hm⟩ := Option.bind_eq_some_iff.1 hm
      have hname := isSome_find?.1 (Option.isSome_of_eq_some hl)
      exact absurd (mem_pathsBelow hx (mem_pathsBelow hm hname)) h

theorem valueAt?_eq_none {stem metric label value : String}
    (h : (stem, metric, label, value) ∉ c.valuePaths) :
    c.valueAt? stem metric label value = none := by
  cases hv : c.valueAt? stem metric label value with
  | none => rfl
  | some v =>
      obtain ⟨l, hl, hv⟩ := Option.bind_eq_some_iff.1 hv
      obtain ⟨m, hm, hl⟩ := Option.bind_eq_some_iff.1 hl
      obtain ⟨x, hx, hm⟩ := Option.bind_eq_some_iff.1 hm
      have hvalue := isSome_find?.1 (Option.isSome_of_eq_some hv)
      exact absurd (mem_pathsBelow hx (mem_pathsBelow hm (mem_pathsBelow hl hvalue))) h

end

/-- The component keys that both catalogs have. -/
def sharedStems (old new : Catalog) : List String :=
  (keys old.components).filter fun stem => (new.component? stem).isSome

def sharedMetrics (old new : Catalog) : List (String × String) :=
  old.metricPaths.filter fun p => (new.metricAt? p.1 p.2).isSome

def sharedLabels (old new : Catalog) : List (String × String × String) :=
  old.labelPaths.filter fun p => (new.labelAt? p.1 p.2.1 p.2.2).isSome

variable (old new : Catalog)

theorem sum_sharedStems (g : String → Nat) :
    ((sharedStems old new).map g).sum =
      ((shared old.components new.components).map fun x => g x.1.stem).sum :=
  sum_filter_keys g old.components new.components

theorem sum_sharedMetrics (g : String × String → Nat) :
    ((sharedMetrics old new).map g).sum =
      ((shared old.components new.components).map fun x =>
        ((shared x.1.metrics x.2.metrics).map fun m => g (x.1.stem, m.1.name)).sum).sum := by
  have hlookup : sharedMetrics old new = old.metricPaths.filter fun p =>
      (find? p.1 new.components).any fun x => (find? p.2 x.metrics).isSome :=
    List.filter_congr fun p _ => Option.isSome_bind ..
  rw [hlookup, metricPaths, sum_filter_pathsBelow _ fun (x : Component) name =>
    (find? name x.metrics).isSome]
  exact congrArg List.sum (List.map_congr_left fun x _ =>
    sum_filter_keys (fun name => g (x.1.stem, name)) x.1.metrics x.2.metrics)

theorem sum_sharedLabels (g : String × String × String → Nat) :
    ((sharedLabels old new).map g).sum =
      ((shared old.components new.components).map fun x =>
        ((shared x.1.metrics x.2.metrics).map fun m =>
          ((shared m.1.labels m.2.labels).map fun l =>
            g (x.1.stem, m.1.name, l.1.name)).sum).sum).sum := by
  have hlookup : sharedLabels old new = old.labelPaths.filter fun p =>
      (find? p.1 new.components).any fun x =>
        (find? p.2.1 x.metrics).any fun m => (find? p.2.2 m.labels).isSome :=
    List.filter_congr fun p _ => by
      rw [labelAt?, metricAt?, Option.isSome_bind, Option.any_bind]
      rfl
  rw [hlookup, labelPaths, sum_filter_pathsBelow _ fun (x : Component) (q : String × String) =>
    (find? q.1 x.metrics).any fun m => (find? q.2 m.labels).isSome]
  refine congrArg List.sum (List.map_congr_left fun x _ => ?_)
  rw [sum_filter_pathsBelow _ fun (m : Metric) name => (find? name m.labels).isSome]
  exact congrArg List.sum (List.map_congr_left fun m _ =>
    sum_filter_keys (fun name => g (x.1.stem, m.1.name, name)) m.1.labels m.2.labels)

end Catalog

end MetricCatalog
