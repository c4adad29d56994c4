import MetricCatalog.Proofs.Paths
import MetricCatalog.Proofs.Validation
import Mathlib.Data.List.Forall2
/-!
# The canonical form

The canonical form of a catalog is the one arrangement of it in which each sequence
ascends by key, elements of one key stand as they stood, and nothing else has changed.
So it has a canonical form of its own, finds under each path what the catalog found
there, and ascends strictly at every level if and only if the catalog is valid.
-/

namespace MetricCatalog

namespace Keyed

variable {α : Type} [Keyed α] {xs ys : List α}

/-! ## Stable sorting -/

/-- The elements of `xs` in ascending order of keys, those of one key in the order
that they have in `xs`. -/
structure StablySorted (xs ys : List α) : Prop where
  perm : ys.Perm xs
  sorted : Sorted ys
  stable : ∀ k, ys.filter (key · = k) = xs.filter (key · = k)

theorem filter_insertSorted (k : String) (x : α) (ys : List α) :
    (insertSorted x ys).filter (key · = k) = (x :: ys).filter (key · = k) := by
  induction ys with
  | nil => rfl
  | cons y ys ih =>
      unfold insertSorted
      split
      · next hlt =>
        rw [List.filter_cons, ih]
        by_cases hy : key y = k
        · -- `x` moves past `y`, and the two keys differ
          have hx : key x ≠ k := fun hx => String.lt_irrefl k (by rwa [hx, hy] at hlt)
          simp [hx, hy]
        · simp [List.filter_cons, hy]
      · rfl

theorem filter_sort (k : String) (xs : List α) :
    (sort xs).filter (key · = k) = xs.filter (key · = k) := by
  induction xs with
  | nil => rfl
  | cons x xs ih => rw [sort_cons, filter_insertSorted, List.filter_cons, List.filter_cons, ih]

theorem stablySorted_sort (xs : List α) : StablySorted xs (sort xs) :=
  ⟨sort_perm xs, sorted_sort xs, fun k => filter_sort k xs⟩

/-- Ascending sequences are told apart by the elements of each key in their order. -/
theorem Sorted.eq_of_filter_eq (hx : Sorted xs) (hy : Sorted ys)
    (h : ∀ k, xs.filter (key · = k) = ys.filter (key · = k)) : xs = ys := by
  have hmem {a : α} {as bs : List α}
      (hfilter : ∀ k, as.filter (key · = k) = bs.filter (key · = k)) (ha : a ∈ as) : a ∈ bs := by
    have hself : a ∈ as.filter (key · = key a) := by simp [ha]
    rw [hfilter] at hself
    exact List.mem_of_mem_filter hself
  induction xs generalizing ys with
  | nil =>
      cases ys with
      | nil => rfl
      | cons y ys => cases hmem (fun k => (h k).symm) (List.mem_cons_self ..)
  | cons x xs ih =>
      cases ys with
      | nil => cases hmem h (List.mem_cons_self ..)
      | cons y ys =>
          have hkey : key x = key y := String.le_antisymm
            (hx.key_le_of_mem (hmem (fun k => (h k).symm) (List.mem_cons_self ..)))
            (hy.key_le_of_mem (hmem h (List.mem_cons_self ..)))
          have hhead := h (key x)
          rw [List.filter_cons_of_pos (by simp), List.filter_cons_of_pos (by simp [hkey])] at hhead
          obtain ⟨rfl, hrest⟩ := List.cons.inj hhead
          refine congrArg (x :: ·) (ih hx.of_cons hy.of_cons fun k => ?_)
          by_cases hk : key x = k
          · rw [← hk]
            exact hrest
          · have hk := h k
            rwa [List.filter_cons_of_neg (by simpa), List.filter_cons_of_neg (by simpa)] at hk

theorem stablySorted_iff : StablySorted xs ys ↔ ys = sort xs := by
  constructor
  · intro h
    refine h.sorted.eq_of_filter_eq (sorted_sort xs) fun k => ?_
    rw [h.stable, filter_sort]
  · rintro rfl
    exact stablySorted_sort xs

/-- Elements put in order and changed one by one. -/
def Arranged (R : α → α → Prop) (xs ys : List α) : Prop :=
  ∃ zs, StablySorted xs zs ∧ List.Forall₂ R zs ys

theorem arranged_iff {R : α → α → Prop} {canon : α → α} (hR : ∀ x y, R x y ↔ y = canon x)
    (xs ys : List α) : Arranged R xs ys ↔ ys = (sort xs).map canon := by
  have hmap (zs : List α) : List.Forall₂ R zs ys ↔ ys = zs.map canon := by
    have hR : R = fun x y => canon x = y := by
      funext x y
      exact propext ((hR x y).trans eq_comm)
    rw [hR, ← List.forall₂_map_left_iff, List.forall₂_eq_eq_eq, eq_comm]
  simp only [Arranged, stablySorted_iff, hmap, exists_eq_left]

theorem sort_map_sort {canon : α → α} (hkey : ∀ x, key (canon x) = key x)
    (hcanon : ∀ x, canon (canon x) = canon x) (xs : List α) :
    (sort ((sort xs).map canon)).map canon = (sort xs).map canon := by
  rw [sort_map hkey, sort_sort, List.map_map]
  exact List.map_congr_left fun x _ => hcanon x

end Keyed

open Keyed

/-! ## The canonical form of each level -/

/-- `l'` has the values of `l` in order, and the other fields of `l`. -/
structure Label.Arranged (l l' : Label) : Prop where
  name : l'.name = l.name
  desc : l'.desc = l.desc
  locked : l'.locked = l.locked
  fixed : l'.fixed = l.fixed
  values : StablySorted l.values l'.values

structure Metric.Arranged (m m' : Metric) : Prop where
  name : m'.name = m.name
  kind : m'.kind = m.kind
  unit : m'.unit = m.unit
  help : m'.help = m.help
  since : m'.since = m.since
  labels : Keyed.Arranged Label.Arranged m.labels m'.labels

structure Component.Arranged (c c' : Component) : Prop where
  stem : c'.stem = c.stem
  title : c'.title = c.title
  desc : c'.desc = c.desc
  metrics : Keyed.Arranged Metric.Arranged c.metrics c'.metrics

/-- `d` has the elements of each sequence of `c` in order, and is `c` otherwise. -/
structure Catalog.Arranged (c d : Catalog) : Prop where
  version : d.version = c.version
  components : Keyed.Arranged Component.Arranged c.components d.components

theorem Label.arranged_iff (l l' : Label) : l.Arranged l' ↔ l' = l.canonical := by
  constructor
  · rintro ⟨hname, hdesc, hlocked, hfixed, hvalues⟩
    rw [canonical, ← stablySorted_iff.1 hvalues, ← hname, ← hdesc, ← hlocked, ← hfixed]
  · rintro rfl
    exact ⟨rfl, rfl, rfl, rfl, stablySorted_sort l.values⟩

theorem Metric.arranged_iff (m m' : Metric) : m.Arranged m' ↔ m' = m.canonical := by
  have hlabels := Keyed.arranged_iff Label.arranged_iff m.labels m'.labels
  constructor
  · rintro ⟨hname, hkind, hunit, hhelp, hsince, harranged⟩
    rw [canonical, ← hlabels.1 harranged, ← hname, ← hkind, ← hunit, ← hhelp, ← hsince]
  · rintro rfl
    exact ⟨rfl, rfl, rfl, rfl, rfl, hlabels.2 rfl⟩

theorem Component.arranged_iff (c c' : Component) : c.Arranged c' ↔ c' = c.canonical := by
  have hmetrics := Keyed.arranged_iff Metric.arranged_iff c.metrics c'.metrics
  constructor
  · rintro ⟨hstem, htitle, hdesc, harranged⟩
    rw [canonical, ← hmetrics.1 harranged, ← hstem, ← htitle, ← hdesc]
  · rintro rfl
    exact ⟨rfl, rfl, rfl, hmetrics.2 rfl⟩

theorem Catalog.arranged_iff (c d : Catalog) : c.Arranged d ↔ d = c.canonical := by
  have hcomponents := Keyed.arranged_iff Component.arranged_iff c.components d.components
  constructor
  · rintro ⟨hversion, harranged⟩
    rw [canonical, ← hcomponents.1 harranged, ← hversion]
  · rintro rfl
    exact ⟨rfl, hcomponents.2 rfl⟩

/-! ## Twice -/

theorem Label.canonical_canonical (l : Label) : l.canonical.canonical = l.canonical := by
  rw [canonical, canonical, sort_sort]

theorem Metric.canonical_canonical (m : Metric) : m.canonical.canonical = m.canonical := by
  rw [canonical, canonical, sort_map_sort Label.key_canonical Label.canonical_canonical]

theorem Component.canonical_canonical (c : Component) : c.canonical.canonical = c.canonical := by
  rw [canonical, canonical, sort_map_sort Metric.key_canonical Metric.canonical_canonical]

theorem Catalog.canonical_canonical (c : Catalog) : c.canonical.canonical = c.canonical := by
  rw [canonical, canonical, sort_map_sort Component.key_canonical Component.canonical_canonical]

/-! ## Lookup -/

theorem Label.value?_canonical (l : Label) (value : String) :
    l.canonical.value? value = l.value? value :=
  find?_sort value l.values

theorem Catalog.valueAt?_canonical (c : Catalog) (stem metric label value : String) :
    c.canonical.valueAt? stem metric label value = c.valueAt? stem metric label value := by
  rw [valueAt?, labelAt?_canonical, valueAt?]
  cases c.labelAt? stem metric label with
  | none => rfl
  | some l => exact l.value?_canonical value

/-! ## Validity -/

/-- A property of each element's canonical form, asked of all elements in order. -/
theorem forall_mem_map_sort {α : Type} [Keyed α] {canon : α → α} {P : α → Prop} (xs : List α) :
    (∀ y ∈ (sort xs).map canon, P y) ↔ ∀ x ∈ xs, P (canon x) := by
  simp only [List.forall_mem_map, mem_sort]

theorem Label.distinct_canonical (l : Label) :
    l.canonical.AllKeys List.Nodup ↔ l.AllKeys List.Nodup :=
  distinct_sort

theorem Metric.distinct_canonical (m : Metric) :
    m.canonical.AllKeys List.Nodup ↔ m.AllKeys List.Nodup := by
  refine and_congr (distinct_map_sort Label.key_canonical) ?_
  rw [canonical, forall_mem_map_sort]
  simp only [Label.distinct_canonical]

theorem Component.distinct_canonical (c : Component) :
    c.canonical.AllKeys List.Nodup ↔ c.AllKeys List.Nodup := by
  refine and_congr (distinct_map_sort Metric.key_canonical) ?_
  rw [canonical, forall_mem_map_sort]
  simp only [Metric.distinct_canonical]

theorem Catalog.distinct_canonical (c : Catalog) : c.canonical.Distinct ↔ c.Distinct := by
  refine and_congr (distinct_map_sort Component.key_canonical) ?_
  rw [canonical, forall_mem_map_sort]
  simp only [Component.distinct_canonical]

/-- The neighbour check at each level is about all sequences of the level. -/
theorem Catalog.ascending_iff_isAscendingAt (c : Catalog) :
    c.Ascending ↔ ∀ level, c.isAscendingAt level = true := by
  refine ⟨isAscendingAt_of_ascending, fun h => ?_⟩
  have hkeys {α : Type} [Keyed α] {xs : List α} (hxs : isAscending xs = true) :
      (keys xs).Pairwise (· < ·) := ascending_iff_keys.1 (isAscending_iff.1 hxs)
  refine ⟨hkeys (h .component), fun x hx => ⟨?_, fun m hm => ⟨?_, fun l hl => ?_⟩⟩⟩
  · exact hkeys (List.all_eq_true.1 (h .metric) x hx)
  · exact hkeys (List.all_eq_true.1 (h .label) m (mem_metrics.2 ⟨x, hx, hm⟩))
  · have hlabel : l ∈ c.labels := mem_labels.2 ⟨m, mem_metrics.2 ⟨x, hx, hm⟩, hl⟩
    exact hkeys (List.all_eq_true.1 (h .value) l hlabel)

theorem Catalog.validate_iff_canonical (c : Catalog) :
    c.validate = .ok () ↔ ∀ level, c.canonical.isAscendingAt level = true := by
  rw [validate_eq_ok, ← ascending_iff_isAscendingAt]
  exact ⟨ascending_canonical, fun h => c.distinct_canonical.1 h.distinct⟩

/-- The canonical form is the one stable arrangement of a catalog, has itself for its
canonical form, and finds under each path the canonical form of what the catalog finds
there first.  The catalog is valid if and only if each sequence of its canonical form
ascends strictly. -/
theorem Catalog.canonical_characterized (c : Catalog) :
    (∀ d, c.Arranged d ↔ d = c.canonical) ∧
    c.canonical.canonical = c.canonical ∧
    (∀ stem, c.canonical.component? stem = (c.component? stem).map Component.canonical) ∧
    (∀ stem name,
      c.canonical.metricAt? stem name = (c.metricAt? stem name).map Metric.canonical) ∧
    (∀ stem metric name, c.canonical.labelAt? stem metric name =
      (c.labelAt? stem metric name).map Label.canonical) ∧
    (∀ stem metric label value, c.canonical.valueAt? stem metric label value =
      c.valueAt? stem metric label value) ∧
    (c.validate = .ok () ↔ ∀ level, c.canonical.isAscendingAt level = true) :=
  ⟨c.arranged_iff, c.canonical_canonical, c.component?_canonical, c.metricAt?_canonical,
    c.labelAt?_canonical, c.valueAt?_canonical, c.validate_iff_canonical⟩

end MetricCatalog
