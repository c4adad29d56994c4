import MetricCatalog.Proofs.Membership
import Mathlib.Logic.Function.Iterate
/-!
# Runs that settle

A truncating run may leave a sequence empty, and then the next run fills it from
the snapshot.  That happens once.  A sequence that is not left empty keeps its
keys from then on, and one filled from the snapshot has all of them already.  So
the second run gives a catalog that no further run with the snapshot changes.
-/

namespace MetricCatalog

open Keyed

namespace MergeRule

variable {α : Type} [Keyed α] {rule : MergeRule α} {tail : TailPolicy} {old new : List α} {n : α}

theorem admits_truncate_iff :
    admits .truncate old n = true ↔ old = [] ∨ ∃ o ∈ old, key n ≤ key o := by
  simp [admits, reaches]

theorem image_mem_merge (hn : Distinct new) (hmem : n ∈ new) (h : admits tail old n = true) :
    rule.image old n ∈ (rule.merge tail old new).1 := by
  rw [rule.merge_fst tail old hn]
  exact List.mem_map_of_mem (List.mem_filter.2 ⟨mem_sort.2 hmem, h⟩)

section

variable (hn : Distinct new) (hkey : ∀ o n, key o = key n → key (rule.combine o n).1 = key n)
include hn hkey

/-- A merge that does not end up empty lets in again what it let in.  So does a
merge into nothing, which lets in everything. -/
theorem admits_merge (h : (rule.merge tail old new).1 ≠ [] ∨ old = []) (hmem : n ∈ new) :
    admits tail (rule.merge tail old new).1 n = admits tail old n := by
  cases tail with
  | appendNew => rw [admits_appendNew, admits_appendNew]
  | truncate =>
      rw [Bool.eq_iff_iff, admits_truncate_iff]
      constructor
      · rintro (hempty | ⟨x, hx, hle⟩)
        · exact admits_truncate_iff.2 (.inl (h.resolve_left (not_not_intro hempty)))
        · rw [rule.merge_fst .truncate old hn] at hx
          obtain ⟨m, hm, rfl⟩ := List.mem_map.1 hx
          rw [key_image hkey] at hle
          have hin := admits_truncate_iff.1 (List.mem_filter.1 hm).2
          refine admits_truncate_iff.2 (hin.imp_right ?_)
          rintro ⟨o, ho, hmo⟩
          exact ⟨o, ho, Std.le_trans hle hmo⟩
      · intro hin
        refine .inr ⟨_, image_mem_merge hn hmem hin, ?_⟩
        exact Std.le_of_eq (key_image hkey _ _).symm

theorem find?_merge_of_admits (hmem : n ∈ new) (h : admits tail old n = true) :
    find? (key n) (rule.merge tail old new).1 = some (rule.image old n) := by
  rw [rule.find?_merge tail old hn hkey, hn.find?_key hmem, Option.filter_some_pos h,
    Option.map_some]

theorem eq_image_of_find?_merge {x : α} (hmem : n ∈ new)
    (h : find? (key n) (rule.merge tail old new).1 = some x) : x = rule.image old n := by
  rw [rule.find?_merge tail old hn hkey, hn.find?_key hmem] at h
  obtain ⟨m, hm, rfl⟩ := Option.map_eq_some_iff.1 h
  rw [Option.some.inj (Option.eq_some_of_filter_eq_some hm)]

/-- What is not empty after one merge is not after two. -/
theorem merge_merge_ne_nil (h : (rule.merge tail old new).1 ≠ []) :
    (rule.merge tail (rule.merge tail old new).1 new).1 ≠ [] := by
  obtain ⟨x, hx⟩ := List.exists_mem_of_ne_nil _ h
  rw [rule.merge_fst tail old hn] at hx
  obtain ⟨n, hmem, -⟩ := List.mem_map.1 hx
  obtain ⟨hnew, hin⟩ := List.mem_filter.1 hmem
  have hnew := mem_sort.1 hnew
  have hagain : admits tail (rule.merge tail old new).1 n = true := by
    rw [admits_merge hn hkey (.inl h) hnew, hin]
  exact List.ne_nil_of_mem (image_mem_merge hn hnew hagain)

/-- A second merge changes nothing if it draws the line where the first did, and
if combining changes none of the elements that the first let in. -/
theorem merge_merge (h : (rule.merge tail old new).1 ≠ [] ∨ old = [])
    (hcombine : ∀ n ∈ new, (rule.combine (rule.image old n) n).1 = rule.image old n) :
    (rule.merge tail (rule.merge tail old new).1 new).1 = (rule.merge tail old new).1 := by
  have hadmits : ∀ n ∈ sort new,
      admits tail (rule.merge tail old new).1 n = admits tail old n :=
    fun n hmem => admits_merge hn hkey h (mem_sort.1 hmem)
  rw [rule.merge_fst tail (rule.merge tail old new).1 hn, List.filter_congr hadmits]
  conv => rhs; rw [rule.merge_fst tail old hn]
  refine List.map_congr_left fun n hmem => ?_
  obtain ⟨hnew, hin⟩ := List.mem_filter.1 hmem
  have hnew := mem_sort.1 hnew
  rw [image, find?_merge_of_admits hn hkey hnew hin]
  exact hcombine n hnew

variable (rule tail old) in
/-- From the second merge on nothing changes, if combining one element settles
likewise. -/
theorem merge_settles (hself : ∀ n ∈ new, (rule.combine n n).1 = n)
    (hcombine : ∀ o ∈ old, ∀ n ∈ new, key o = key n →
      (rule.combine (rule.combine (rule.combine o n).1 n).1 n).1 =
        (rule.combine (rule.combine o n).1 n).1) :
    (rule.merge tail (rule.merge tail (rule.merge tail old new).1 new).1 new).1 =
      (rule.merge tail (rule.merge tail old new).1 new).1 := by
  by_cases hempty : (rule.merge tail old new).1 = []
  · -- the second merge is into nothing
    rw [hempty]
    exact merge_merge hn hkey (.inr rfl) hself
  · refine merge_merge hn hkey (.inl (merge_merge_ne_nil hn hkey hempty)) fun n hmem => ?_
    unfold image
    cases hfind : find? (key n) (rule.merge tail old new).1 with
    | none => exact hself n hmem
    | some x =>
        obtain rfl := eq_image_of_find?_merge hn hkey hmem hfind
        unfold image
        cases hold : find? (key n) old with
        | none =>
            dsimp only
            rw [hself n hmem, hself n hmem]
        | some o => exact hcombine o (mem_of_find? hold) n hmem (key_of_find? hold)

end

variable (rule tail) in
theorem merge_self (hasc : Ascending new)
    (hkey : ∀ o n, key o = key n → key (rule.combine o n).1 = key n)
    (hself : ∀ n ∈ new, (rule.combine n n).1 = n) : (rule.merge tail new new).1 = new := by
  have hfill : (rule.merge tail [] new).1 = new := hasc.sorted.sort_eq
  have h : (rule.merge tail (rule.merge tail [] new).1 new).1 = (rule.merge tail [] new).1 :=
    merge_merge hasc.distinct hkey (.inr rfl) hself
  rwa [hfill] at h

end MergeRule

/-! ## Level by level -/

variable (tail : TailPolicy)

/-- Elements in ascending order stay as they are when combined with themselves. -/
theorem Label.combine_self {l : Label} (h : l.AllKeys (List.Pairwise (· < ·))) :
    (Label.combine tail l l).1 = l := by
  have hasc : Ascending l.values := ascending_iff_keys.2 h
  have hmerge : (LabelValue.rule.merge tail l.values l.values).1 = l.values :=
    LabelValue.rule.merge_self tail hasc (fun _ _ h => h) fun _ _ => rfl
  rw [combine_fst, hasc.sorted.sort_eq, hmerge, ite_self]

theorem Metric.combine_self {m : Metric} (h : m.AllKeys (List.Pairwise (· < ·))) :
    (Metric.combine tail m m).1 = m := by
  have hmerge : ((Label.rule tail).merge tail m.labels m.labels).1 = m.labels :=
    (Label.rule tail).merge_self tail (ascending_iff_keys.2 h.1) (fun _ _ h => h) fun l hl =>
      Label.combine_self tail (h.2 l hl)
  exact congrArg (fun labels => { m with labels }) hmerge

theorem Component.combine_self {c : Component} (h : c.AllKeys (List.Pairwise (· < ·))) :
    (Component.combine tail c c).1 = c := by
  have hmerge : ((Metric.rule tail).merge tail c.metrics c.metrics).1 = c.metrics :=
    (Metric.rule tail).merge_self tail (ascending_iff_keys.2 h.1) (fun _ _ h => h) fun m hm =>
      Metric.combine_self tail (h.2 m hm)
  exact congrArg (fun metrics => { c with metrics }) hmerge

theorem Label.combine_settles (old : Label) {new : Label}
    (hn : new.AllKeys (List.Pairwise (· < ·))) :
    (Label.combine tail (Label.combine tail (Label.combine tail old new).1 new).1 new).1 =
      (Label.combine tail (Label.combine tail old new).1 new).1 := by
  have hd : Distinct new.values := nodup_of_pairwise_lt hn
  have hmerge := LabelValue.rule.merge_settles tail old.values hd (fun _ _ h => h)
    (fun _ _ => rfl) fun _ _ _ _ _ => rfl
  simp only [combine_fst]
  cases hlock : old.locked with
  | true => simp
  | false => simpa using hmerge

theorem Metric.combine_settles (old : Metric) {new : Metric}
    (hn : new.AllKeys (List.Pairwise (· < ·))) :
    (Metric.combine tail (Metric.combine tail (Metric.combine tail old new).1 new).1 new).1 =
      (Metric.combine tail (Metric.combine tail old new).1 new).1 := by
  have hmerge := (Label.rule tail).merge_settles tail old.labels
    (nodup_of_pairwise_lt hn.1) (fun _ _ h => h) (fun l hl => Label.combine_self tail (hn.2 l hl))
    fun o _ l hl _ => Label.combine_settles tail o (hn.2 l hl)
  exact congrArg (fun labels =>
    { old with kind := new.kind, help := new.help, unit := new.unit, labels }) hmerge

theorem Component.combine_settles (old : Component) {new : Component}
    (hn : new.AllKeys (List.Pairwise (· < ·))) :
    (Component.combine tail (Component.combine tail (Component.combine tail old new).1 new).1
        new).1 =
      (Component.combine tail (Component.combine tail old new).1 new).1 := by
  have hmerge := (Metric.rule tail).merge_settles tail old.metrics
    (nodup_of_pairwise_lt hn.1) (fun _ _ h => h) (fun m hm => Metric.combine_self tail (hn.2 m hm))
    fun o _ m hm _ => Metric.combine_settles tail o (hn.2 m hm)
  exact congrArg (fun metrics => { old with metrics }) hmerge

namespace Catalog

variable {old new : Catalog}

/-- Under either policy. -/
theorem updated_settles (old : Catalog) (hn : new.Distinct) :
    updated tail (updated tail (updated tail old new) new) new =
      updated tail (updated tail old new) new := by
  have hasc := ascending_canonical hn
  have hmerge := (Component.rule tail).merge_settles tail old.components
    (nodup_of_pairwise_lt hasc.1) (fun _ _ h => h)
    (fun x hx => Component.combine_self tail (hasc.2 x hx))
    fun o _ x hx _ => Component.combine_settles tail o (hasc.2 x hx)
  exact congrArg (fun components => { old with components }) hmerge

/-- Truncating runs with one snapshot settle after two: no later one changes the
catalog, takes in a key or drops one. -/
theorem updated_truncate_settles (ho : old.Distinct) (hn : new.Distinct) :
    updated .truncate (updated .truncate (updated .truncate old new) new) new =
      updated .truncate (updated .truncate old new) new ∧
    (∀ runs, (updated .truncate · new)^[runs + 2] old =
      updated .truncate (updated .truncate old new) new) ∧
    ∀ level,
      ((reconcile .truncate (updated .truncate (updated .truncate old new) new) new).2.tally
        level).admitted = 0 ∧
      ((reconcile .truncate (updated .truncate (updated .truncate old new) new) new).2.tally
        level).pruned = 0 := by
  have hthird := updated_settles .truncate old hn
  have hfirst : (updated .truncate old new).Distinct :=
    (ascending_reconcile .truncate ho hn).distinct
  have hsecond : (updated .truncate (updated .truncate old new) new).Distinct :=
    (ascending_reconcile .truncate hfirst hn).distinct
  refine ⟨hthird, fun runs => ?_, ?_⟩
  · rw [Function.iterate_add_apply]
    exact Function.iterate_fixed hthird runs
  · refine (keepsKeys_reconcile_iff .truncate hsecond hn).2 ?_
    rw [hthird]
    exact SamePaths.refl _

/-- A catalog that knows one value, which sorts before all that are observed. -/
def earlySample : Catalog where
  components := [
    { stem := "go_mem", title := "Go memory", metrics := [
      { name := "go_mem_bytes", labels := [{ name := "state", values := [⟨"cache", ""⟩] }] }] }]

/-- The first run empties the label and the second fills it, so one is not enough. -/
theorem updated_truncate_settles_sample :
    earlySample.Distinct ∧ observedSample.Distinct ∧
    updated .truncate (updated .truncate earlySample observedSample) observedSample ≠
      updated .truncate earlySample observedSample ∧
    updated .truncate (updated .truncate (updated .truncate earlySample observedSample)
        observedSample) observedSample =
      updated .truncate (updated .truncate earlySample observedSample) observedSample := by
  have ho : earlySample.Distinct := by decide
  have hn : observedSample.Distinct := by decide
  exact ⟨ho, hn, by decide +kernel, (updated_truncate_settles ho hn).1⟩

end Catalog

end MetricCatalog
