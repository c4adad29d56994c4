import MetricCatalog.Proofs.Idempotence
import MetricCatalog.Proofs.KeyMatch
import MetricCatalog.Proofs.MergeReport
/-!
# Membership and the report

The report of a run shows no key taken in and none dropped, at any level, just
when the catalog has the paths that it had before.  The report is made merge by
merge; so the two are compared level by level, innermost first, where a merge
knows the keys of its own level and the combinations know what is below.
-/

namespace MetricCatalog

open Keyed

namespace Report

/-- No key was taken in or dropped at any level. -/
def KeepsKeys (r : Report) : Prop :=
  ∀ level, r.number level .admitted = 0 ∧ r.number level .pruned = 0

theorem keepsKeys_zero : KeepsKeys 0 := fun level => by
  simp only [number_zero, and_self]

theorem keepsKeys_add {r s : Report} : (r + s).KeepsKeys ↔ r.KeepsKeys ∧ s.KeepsKeys := by
  simp only [KeepsKeys, number_add, Nat.add_eq_zero_iff, ← forall_and]
  exact forall_congr' fun _ => and_and_and_comm

theorem keepsKeys_sum {rs : List Report} : rs.sum.KeepsKeys ↔ ∀ r ∈ rs, r.KeepsKeys := by
  induction rs with
  | nil => simp [keepsKeys_zero]
  | cons r rs ih => rw [List.sum_cons, keepsKeys_add, ih, List.forall_mem_cons]

theorem keepsKeys_single {level : Level} {t : Tally} :
    (single level t).KeepsKeys ↔ t.admitted = 0 ∧ t.pruned = 0 := by
  constructor
  · intro h
    have hlevel := h level
    rwa [number_single, number_single, if_pos rfl, if_pos rfl] at hlevel
  · intro h l
    rw [number_single, number_single]
    split
    · exact h
    · exact ⟨rfl, rfl⟩

theorem keepsKeys_locked (level : Level) (n : Nat) : (count level .locked n).KeepsKeys :=
  fun l => by simp [number_count]

theorem changesMembership_eq_false {r : Report} :
    r.changesMembership = false ↔ r.KeepsKeys ∧ ∀ level, r.number level .skipped = 0 := by
  have htally (t : Tally) : t.changesMembership = false ↔
      (t.admitted = 0 ∧ t.pruned = 0) ∧ t.skipped = 0 := by
    simp [Tally.changesMembership]
  have hall : r.changesMembership = false ↔ ∀ level, (r.tally level).changesMembership = false := by
    simp only [changesMembership, List.any_eq_false, Bool.not_eq_true]
    exact ⟨fun h level => h level (by cases level <;> simp [Level.all]), fun h level _ => h level⟩
  rw [hall]
  simp only [htally]
  exact forall_and

end Report

namespace MergeRule

open Report

variable {α : Type} [Keyed α] {rule : MergeRule α} {tail : TailPolicy} {old new : List α}
variable {R : α → α → Prop}

/-- A merge takes in and drops no key if it does not at its own level, and none
of its combinations does. -/
theorem keepsKeys_merge (ho : Distinct old) (hn : Distinct new) :
    (rule.merge tail old new).2.KeepsKeys ↔
      (∀ n ∈ new, key n ∉ keys old → admits tail old n = false) ∧
      (∀ o ∈ old, key o ∈ keys new) ∧
      ∀ p ∈ shared old new, (rule.combine p.1 p.2).2.KeepsKeys := by
  have hadmitted : (keyTally tail (keys old) (keys new)).admitted = 0 ↔
      ∀ n ∈ new, key n ∉ keys old → admits tail old n = false := by
    show (keys new).countP (fun k => k ∉ keys old ∧ admits tail (keys old) k = true) = 0 ↔ _
    rw [countP_keys, List.countP_eq_zero]
    simp [admits_keys]
  have hpruned : (keyTally tail (keys old) (keys new)).pruned = 0 ↔
      ∀ o ∈ old, key o ∈ keys new := by
    show (keys old).countP (· ∉ keys new) = 0 ↔ _
    rw [countP_keys, List.countP_eq_zero]
    simp
  rw [rule.merge_report tail ho hn, keepsKeys_add, keepsKeys_single, keepsKeys_sum, hadmitted,
    hpruned, and_assoc, List.forall_mem_map]

/-- A merge has the keys that it got, down to the last level, when its report
shows none taken in or dropped.  Combinations are known to do so. -/
theorem keepsKeys_merge_iff (ho : Distinct old) (hn : Distinct new)
    (hkey : ∀ o n, key o = key n → key (rule.combine o n).1 = key n)
    (hcombine : ∀ o ∈ old, ∀ n ∈ new,
      ((rule.combine o n).2.KeepsKeys ↔ R (rule.combine o n).1 o)) :
    (rule.merge tail old new).2.KeepsKeys ↔ Matches R (rule.merge tail old new).1 old := by
  rw [keepsKeys_merge ho hn]
  constructor
  · rintro ⟨hadmitted, hpruned, hinner⟩ k
    cases hnew : find? k new with
    | none =>
        -- every old key is new too, so `k` is not an old key
        have hold : find? k old = none := by
          refine find?_eq_none.2 fun hk => ?_
          obtain ⟨o, hmem, rfl⟩ := mem_keys.1 hk
          exact find?_eq_none.1 hnew (hpruned o hmem)
        rw [find?_merge_of_not_new tail hn hkey old hnew, hold]
        exact .none
    | some n =>
        have hmem := mem_of_find? hnew
        cases hold : find? k old with
        | none =>
            have hk : key n ∉ keys old := by
              rw [key_of_find? hnew]
              exact find?_eq_none.1 hold
            rw [find?_merge_of_not_old tail hn hkey hnew hold, hadmitted n hmem hk]
            exact .none
        | some o =>
            have hcommon : (o, n) ∈ shared old new :=
              hn.mem_shared.2 ⟨mem_of_find? hold, hmem,
                (key_of_find? hold).trans (key_of_find? hnew).symm⟩
            rw [find?_merge_of_both tail hn hkey hnew hold]
            exact .some ((hcombine o (mem_of_find? hold) n hmem).1 (hinner _ hcommon))
  · intro h
    refine ⟨fun n hmem hk => ?_, fun o hmem => ?_, fun p hp => ?_⟩
    · have hrel := h (key n)
      have hold : find? (key n) old = none := find?_eq_none.2 hk
      rw [find?_merge_of_not_old tail hn hkey (hn.find?_key hmem) hold, hold] at hrel
      cases hadmits : admits tail old n with
      | true => rw [hadmits] at hrel; cases hrel
      | false => rfl
    · have hrel := h (key o)
      by_contra hk
      rw [find?_merge_of_not_new tail hn hkey old (find?_eq_none.2 hk), ho.find?_key hmem] at hrel
      cases hrel
    · obtain ⟨hold, hnew, hk⟩ := hn.mem_shared.1 hp
      have hrel := h (key p.2)
      rw [find?_merge_of_both tail hn hkey (hn.find?_key hnew) (hk ▸ ho.find?_key hold), ← hk,
        ho.find?_key hold] at hrel
      cases hrel with
      | some hR => exact (hcombine p.1 hold p.2 hnew).2 hR

/-- Nothing is left out where new keys are appended. -/
theorem number_skipped_appendNew (ho : Distinct old) (hn : Distinct new) {level : Level}
    (hcombine : ∀ o ∈ old, ∀ n ∈ new, (rule.combine o n).2.number level .skipped = 0) :
    (rule.merge .appendNew old new).2.number level .skipped = 0 := by
  have hown : (keyTally .appendNew (keys old) (keys new)).skipped = 0 := by
    show (keys new).countP (fun k => k ∉ keys old ∧ admits .appendNew (keys old) k = false) = 0
    simp [admits_appendNew]
  have hinner : ((shared old new).map fun p =>
      (rule.combine p.1 p.2).2.number level .skipped).sum = 0 := by
    refine List.sum_eq_zero fun i hi => ?_
    obtain ⟨p, hp, rfl⟩ := List.mem_map.1 hi
    obtain ⟨hold, hnew⟩ := mem_of_mem_shared hp
    exact hcombine p.1 hold p.2 hnew
  rw [rule.number_merge .appendNew ho hn, hinner, Tally.number, hown, ite_self]

end MergeRule

/-! ## Level by level -/

variable (tail : TailPolicy)

theorem Label.keepsKeys_combine_iff {old new : Label} (ho : old.AllKeys List.Nodup)
    (hn : new.AllKeys List.Nodup) :
    (Label.combine tail old new).2.KeepsKeys ↔ (Label.combine tail old new).1.KeysMatch old := by
  rw [combine_snd, KeysMatch, combine_fst]
  dsimp only
  split
  · have hvalues : Matches (fun _ _ => True) (sort old.values) old.values := fun k => by
      rw [find?_sort]
      exact Matches.refl (fun _ => trivial) old.values k
    exact iff_of_true (Report.keepsKeys_locked .label 1) hvalues
  · exact MergeRule.keepsKeys_merge_iff ho hn (fun _ _ h => h) fun _ _ _ _ =>
      iff_of_true Report.keepsKeys_zero trivial

theorem Metric.keepsKeys_combine_iff {old new : Metric} (ho : old.AllKeys List.Nodup)
    (hn : new.AllKeys List.Nodup) :
    (Metric.combine tail old new).2.KeepsKeys ↔ (Metric.combine tail old new).1.KeysMatch old :=
  MergeRule.keepsKeys_merge_iff ho.1 hn.1 (fun _ _ h => h) fun o hmem n hnmem =>
    Label.keepsKeys_combine_iff tail (ho.2 o hmem) (hn.2 n hnmem)

theorem Component.keepsKeys_combine_iff {old new : Component} (ho : old.AllKeys List.Nodup)
    (hn : new.AllKeys List.Nodup) :
    (Component.combine tail old new).2.KeepsKeys ↔
      (Component.combine tail old new).1.KeysMatch old :=
  MergeRule.keepsKeys_merge_iff ho.1 hn.1 (fun _ _ h => h) fun o hmem n hnmem =>
    Metric.keepsKeys_combine_iff tail (ho.2 o hmem) (hn.2 n hnmem)

namespace Catalog

variable {old new : Catalog}

theorem keepsKeys_reconcile_iff (ho : old.Distinct) (hn : new.Distinct) :
    (reconcile tail old new).2.KeepsKeys ↔ (updated tail old new).SamePaths old := by
  have hcanon : new.canonical.Distinct := (ascending_canonical hn).distinct
  rw [samePaths_iff]
  exact MergeRule.keepsKeys_merge_iff ho.1 hcanon.1 (fun _ _ h => h) fun o hmem n hnmem =>
    Component.keepsKeys_combine_iff tail (ho.2 o hmem) (hcanon.2 n hnmem)

theorem number_skipped_reconcile (ho : old.Distinct) (hn : new.Distinct) (level : Level) :
    (reconcile .appendNew old new).2.number level .skipped = 0 := by
  have hcanon : new.canonical.Distinct := (ascending_canonical hn).distinct
  have hlabel {o n : Label} (ho : o.AllKeys List.Nodup) (hn : n.AllKeys List.Nodup) :
      (Label.combine .appendNew o n).2.number level .skipped = 0 := by
    rw [Label.combine_snd]
    split
    · simp [Report.number_count]
    · exact MergeRule.number_skipped_appendNew ho hn fun _ _ _ _ => Report.number_zero level _
  have hmetric {o n : Metric} (ho : o.AllKeys List.Nodup) (hn : n.AllKeys List.Nodup) :
      (Metric.combine .appendNew o n).2.number level .skipped = 0 :=
    MergeRule.number_skipped_appendNew ho.1 hn.1 fun l hl l' hl' =>
      hlabel (ho.2 l hl) (hn.2 l' hl')
  have hcomponent {o n : Component} (ho : o.AllKeys List.Nodup) (hn : n.AllKeys List.Nodup) :
      (Component.combine .appendNew o n).2.number level .skipped = 0 :=
    MergeRule.number_skipped_appendNew ho.1 hn.1 fun m hm m' hm' =>
      hmetric (ho.2 m hm) (hn.2 m' hm')
  exact MergeRule.number_skipped_appendNew ho.1 hcanon.1 fun x hx x' hx' =>
    hcomponent (ho.2 x hx) (hcanon.2 x' hx')

/-- The paths are those of before just when the report shows nothing taken in
or dropped, and the report denies any change of membership when nothing was left
out either.  With new keys appended nothing ever is, so then the denial is exact. -/
theorem samePaths_updated_iff (ho : old.Distinct) (hn : new.Distinct) :
    ((updated tail old new).SamePaths old ↔
      ∀ level, ((reconcile tail old new).2.tally level).admitted = 0 ∧
        ((reconcile tail old new).2.tally level).pruned = 0) ∧
    ((reconcile tail old new).2.changesMembership = false ↔
      (updated tail old new).SamePaths old ∧
        ∀ level, ((reconcile tail old new).2.tally level).skipped = 0) ∧
    ((reconcile .appendNew old new).2.changesMembership = false ↔
      (updated .appendNew old new).SamePaths old) := by
  refine ⟨(keepsKeys_reconcile_iff tail ho hn).symm, ?_, ?_⟩
  · rw [Report.changesMembership_eq_false, keepsKeys_reconcile_iff tail ho hn]
    rfl
  · rw [Report.changesMembership_eq_false, keepsKeys_reconcile_iff .appendNew ho hn]
    exact and_iff_left (number_skipped_reconcile ho hn)

/-- A catalog with one label, locked by hand. -/
def lockedSample : Catalog where
  components := [
    { stem := "go_mem", metrics := [
      { name := "go_mem_bytes", labels := [
        { name := "pod", locked := true, values := [⟨"z", "By hand"⟩, ⟨"a", ""⟩] }] }] }]

/-- A snapshot with other values for the label, and a component that sorts last. -/
def grownSample : Catalog where
  components := [
    { stem := "process", title := "process" },
    { stem := "go_mem", title := "go_mem", metrics := [
      { name := "go_mem_bytes", labels := [
        { name := "pod", fixed := true, values := [⟨"b", ""⟩] }] }] }]

/-- Truncating leaves the paths as they are, and still the report tells of a
change, since it left a component out. -/
theorem samePaths_updated_sample :
    lockedSample.Distinct ∧ grownSample.Distinct ∧
    (updated .truncate lockedSample grownSample).SamePaths lockedSample ∧
    (reconcile .truncate lockedSample grownSample).2.changesMembership = true ∧
    ¬(updated .appendNew lockedSample grownSample).SamePaths lockedSample := by
  have ho : lockedSample.Distinct := by decide
  have hn : grownSample.Distinct := by decide
  obtain ⟨htruncate, -, happend⟩ := samePaths_updated_iff .truncate ho hn
  refine ⟨ho, hn, htruncate.2 fun level => ?_, by decide +kernel, fun h => ?_⟩
  · cases level <;> decide +kernel
  · have hchanges :
        (reconcile .appendNew lockedSample grownSample).2.changesMembership = true := by
      decide +kernel
    rw [happend.2 h] at hchanges
    cases hchanges

end Catalog

end MetricCatalog
