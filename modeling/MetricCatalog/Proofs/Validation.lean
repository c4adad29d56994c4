import MetricCatalog.Catalog.Document
import MetricCatalog.Observe.Normalizer
import MetricCatalog.Proofs.KeyLevels
/-!
# Catalogs with unique keys

Validation accepts exactly the catalogs in which no sequence of siblings
repeats a key.  Documents that load pass it, and catalogs observed in a
snapshot are even in ascending order, since they are read off ordered maps.
-/

namespace MetricCatalog

open Keyed

/-! ## Validation -/

/-- A key below its right neighbour is below all keys on its right. -/
theorem not_mem_of_ne_neighbour {a b : String} {ks : List String} (h : Sorted (a :: b :: ks))
    (hab : a ≠ b) : a ∉ b :: ks := by
  have hlt : a < b :=
    Std.lt_of_le_of_ne (List.rel_of_pairwise_cons h (List.mem_cons_self ..)) hab
  intro hmem
  rcases List.mem_cons.1 hmem with heq | hmem
  · exact hab heq
  · exact String.not_le.2 hlt (List.rel_of_pairwise_cons h.of_cons hmem)

theorem equalNeighbour?_eq_none {ks : List String} (h : Sorted ks) :
    equalNeighbour? ks = none ↔ ks.Nodup := by
  induction ks with
  | nil => simp [equalNeighbour?]
  | cons a rest ih =>
      cases rest with
      | nil => simp [equalNeighbour?]
      | cons b rest =>
          unfold equalNeighbour?
          split
          · next hab => simp [hab]
          · next hab =>
            rw [ih h.of_cons, List.nodup_cons (a := a),
              and_iff_right (not_mem_of_ne_neighbour h hab)]

theorem repeatedKey?_eq_none {α : Type} [Keyed α] {xs : List α} :
    repeatedKey? xs = none ↔ Distinct xs := by
  rw [repeatedKey?, equalNeighbour?_eq_none (sorted_sort _), Distinct]
  exact (sort_perm (keys xs)).nodup_iff

theorem duplicateIn?_eq_none {α : Type} [Keyed α] {level : Level} {parent : String}
    {xs : List α} : duplicateIn? level parent xs = none ↔ Distinct xs := by
  rw [duplicateIn?, Option.map_eq_none_iff, repeatedKey?_eq_none]

theorem Label.duplicate?_eq_none {path : String} {l : Label} :
    l.duplicate? path = none ↔ l.AllKeys List.Nodup :=
  duplicateIn?_eq_none

theorem Metric.duplicate?_eq_none {path : String} {m : Metric} :
    m.duplicate? path = none ↔ m.AllKeys List.Nodup := by
  simp only [duplicate?, Option.or_eq_none_iff, duplicateIn?_eq_none, List.findSome?_eq_none_iff,
    Label.duplicate?_eq_none]
  rfl

theorem Component.duplicate?_eq_none {c : Component} :
    c.duplicate? = none ↔ c.AllKeys List.Nodup := by
  simp only [duplicate?, Option.or_eq_none_iff, duplicateIn?_eq_none, List.findSome?_eq_none_iff,
    Metric.duplicate?_eq_none]
  rfl

theorem Catalog.duplicate?_eq_none {c : Catalog} : c.duplicate? = none ↔ c.Distinct := by
  simp only [duplicate?, Option.or_eq_none_iff, duplicateIn?_eq_none, List.findSome?_eq_none_iff,
    Component.duplicate?_eq_none]
  rfl

theorem Catalog.validate_eq_ok {c : Catalog} : c.validate = .ok () ↔ c.Distinct := by
  rw [← duplicate?_eq_none, validate]
  cases c.duplicate? <;> simp

theorem Catalog.distinct_empty : Catalog.empty.Distinct :=
  ⟨List.nodup_nil, fun _ h => nomatch h⟩

/-- A document that loads repeats no key. -/
theorem Catalog.distinct_of_parse {document : String} {c : Catalog}
    (h : Catalog.parse document = .ok c) : c.Distinct := by
  unfold parse at h
  split at h
  · obtain rfl := Except.ok.inj h
    exact distinct_empty
  · split at h
    · cases h
    · split at h
      · cases h
      · next hvalid =>
        obtain rfl := Except.ok.inj h
        exact validate_eq_ok.1 hvalid

/-! ## Ascending order, level by level -/

theorem Catalog.mem_metrics {c : Catalog} {m : Metric} :
    m ∈ c.metrics ↔ ∃ x ∈ c.components, m ∈ x.metrics :=
  List.mem_flatMap

theorem Catalog.mem_labels {c : Catalog} {l : Label} :
    l ∈ c.labels ↔ ∃ m ∈ c.metrics, l ∈ m.labels :=
  List.mem_flatMap

theorem Catalog.isAscendingAt_of_ascending {c : Catalog} (h : c.Ascending) (level : Level) :
    c.isAscendingAt level = true := by
  have hmetric : ∀ m ∈ c.metrics, m.AllKeys (List.Pairwise (· < ·)) := by
    intro m hm
    obtain ⟨x, hx, hm⟩ := mem_metrics.1 hm
    exact (h.2 x hx).2 m hm
  cases level with
  | component => exact isAscending_iff.2 (ascending_iff_keys.2 h.1)
  | metric =>
      refine List.all_eq_true.2 fun x hx => ?_
      exact isAscending_iff.2 (ascending_iff_keys.2 (h.2 x hx).1)
  | label =>
      refine List.all_eq_true.2 fun m hm => ?_
      exact isAscending_iff.2 (ascending_iff_keys.2 (hmetric m hm).1)
  | value =>
      refine List.all_eq_true.2 fun l hl => ?_
      obtain ⟨m, hm, hl⟩ := mem_labels.1 hl
      exact isAscending_iff.2 (ascending_iff_keys.2 ((hmetric m hm).2 l hl))

/-! ## Observed catalogs -/

theorem Label.keys_enumerated (name : String) (values : List String) :
    keys (Label.enumerated name values).values = values := by
  rw [keys, enumerated, List.map_map]
  exact List.map_id _

namespace Normalizer

variable (n : Normalizer)

theorem key_label (name : String) (values : KeySet) : key (n.label name values) = name := by
  show (n.label name values).name = name
  unfold label
  split <;> rfl

theorem keys_labels (name : String) (o : Observation) :
    keys (n.metric name o).labels = o.labels.keys := by
  rw [keys, metric, List.map_map]
  exact List.map_congr_left fun e _ => n.key_label e.1 e.2

theorem keys_metrics (metrics : KeyMap Observation) :
    keys (metrics.entries.map fun e => n.metric e.1 e.2) = metrics.keys := by
  rw [keys, List.map_map]
  rfl

theorem keys_components (families : List Family) :
    keys (n.observe families).components = (n.collect families).keys := by
  rw [keys, observe, List.map_map]
  rfl

theorem ascending_label (name : String) (values : KeySet) :
    (n.label name values).AllKeys (List.Pairwise (· < ·)) := by
  unfold label
  split
  · exact List.Pairwise.nil
  · rw [Label.AllKeys, Label.keys_enumerated]
    exact values.ascending

theorem ascending_metric (name : String) (o : Observation) :
    (n.metric name o).AllKeys (List.Pairwise (· < ·)) := by
  refine ⟨n.keys_labels name o ▸ o.labels.ascending, fun l hl => ?_⟩
  obtain ⟨e, -, rfl⟩ := List.mem_map.1 hl
  exact n.ascending_label e.1 e.2

/-- Whatever the grouping, the unfixed labels and the families are. -/
theorem ascending_observe (families : List Family) : (n.observe families).Ascending := by
  refine ⟨n.keys_components families ▸ (n.collect families).ascending, fun x hx => ?_⟩
  obtain ⟨⟨stem, metrics⟩, -, rfl⟩ := List.mem_map.1 hx
  refine ⟨n.keys_metrics metrics ▸ metrics.ascending, fun m hm => ?_⟩
  obtain ⟨e, -, rfl⟩ := List.mem_map.1 hm
  exact n.ascending_metric e.1 e.2

end Normalizer

end MetricCatalog
