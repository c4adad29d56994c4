import MetricCatalog.Proofs.IndexedMerge
import MetricCatalog.Proofs.KeyLevels
import MetricCatalog.Reconcile.Basic
/-!
# Keys of a reconciled catalog

Under either tail policy reconciling turns unique keys into ascending ones, at
each of the four levels: merged sequences ascend because merges do, sequences
taken from the snapshot are sorted beforehand, and the list of a locked label
is sorted where it stands.
-/

namespace MetricCatalog

open Keyed

variable (tail : TailPolicy)

theorem Label.combine_fst (old new : Label) :
    (Label.combine tail old new).1 =
      { old with
        fixed := new.fixed
        values :=
          if old.locked then sort old.values
          else (LabelValue.rule.merge tail old.values new.values).1 } := by
  unfold combine
  cases old.locked <;> rfl

theorem Label.key_combine (old new : Label) : key (Label.combine tail old new).1 = key old := rfl

theorem Metric.key_combine (old new : Metric) : key (Metric.combine tail old new).1 = key old := rfl

theorem Component.key_combine (old new : Component) :
    key (Component.combine tail old new).1 = key old := rfl

theorem Label.ascending_combine {old new : Label} (ho : old.AllKeys List.Nodup)
    (hn : new.AllKeys List.Nodup) :
    (Label.combine tail old new).1.AllKeys (List.Pairwise (· < ·)) := by
  rw [combine_fst]
  unfold AllKeys
  split
  · exact ascending_iff_keys.1 (Distinct.ascending_sort ho)
  · exact ascending_iff_keys.1 (LabelValue.rule.ascending_merge tail old.values hn fun _ _ h => h)

theorem Metric.ascending_combine {old new : Metric} (ho : old.AllKeys List.Nodup)
    (hn : new.AllKeys (List.Pairwise (· < ·))) :
    (Metric.combine tail old new).1.AllKeys (List.Pairwise (· < ·)) := by
  have hd : Distinct new.labels := nodup_of_pairwise_lt hn.1
  refine ⟨ascending_iff_keys.1 ((Label.rule tail).ascending_merge tail old.labels hd
    fun o n h => (Label.key_combine tail o n).trans h), ?_⟩
  refine (Label.rule tail).forall_mem_merge tail hd hn.2 fun o hmem n hnmem _ => ?_
  exact Label.ascending_combine tail (ho.2 o hmem) (nodup_of_pairwise_lt (hn.2 n hnmem))

theorem Component.ascending_combine {old new : Component} (ho : old.AllKeys List.Nodup)
    (hn : new.AllKeys (List.Pairwise (· < ·))) :
    (Component.combine tail old new).1.AllKeys (List.Pairwise (· < ·)) := by
  have hd : Distinct new.metrics := nodup_of_pairwise_lt hn.1
  refine ⟨ascending_iff_keys.1 ((Metric.rule tail).ascending_merge tail old.metrics hd
    fun o n h => (Metric.key_combine tail o n).trans h), ?_⟩
  refine (Metric.rule tail).forall_mem_merge tail hd hn.2 fun o hmem n hnmem _ => ?_
  exact Metric.ascending_combine tail (ho.2 o hmem) (hn.2 n hnmem)

/-- Unique keys on both sides give a catalog that ascends at every level. -/
theorem Catalog.ascending_reconcile {current observed : Catalog} (hc : current.Distinct)
    (ho : observed.Distinct) : (Catalog.reconcile tail current observed).1.Ascending := by
  have hcanon := ascending_canonical ho
  have hd : Keyed.Distinct observed.canonical.components := nodup_of_pairwise_lt hcanon.1
  refine ⟨ascending_iff_keys.1 ((Component.rule tail).ascending_merge tail current.components hd
    fun o n h => (Component.key_combine tail o n).trans h), ?_⟩
  refine (Component.rule tail).forall_mem_merge tail hd hcanon.2 fun o hmem n hnmem _ => ?_
  exact Component.ascending_combine tail (hc.2 o hmem) (hcanon.2 n hnmem)

end MetricCatalog
