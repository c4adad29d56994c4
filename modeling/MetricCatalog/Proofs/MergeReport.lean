import MetricCatalog.Proofs.IndexedMerge
import Mathlib.Data.List.Nodup
/-!
# What a merge reports

The report of a merge has two parts.  The first is a tally of its own level, and
depends on nothing but the keys of the two sides.  The second is the sum of the
reports of its combinations, one for each key that both sides have.
-/

namespace MetricCatalog

namespace Report

/-- The report that counts at one level only. -/
def single (level : Level) (t : Tally) : Report :=
  match level with
  | .component => { components := t }
  | .metric => { metrics := t }
  | .label => { labels := t }
  | .value => { values := t }

theorem number_single (level l : Level) (t : Tally) (outcome : Outcome) :
    (single level t).number l outcome = if l = level then t.number outcome else 0 := by
  cases level <;> cases l <;> cases outcome <;> rfl

theorem number_sum (rs : List Report) (level : Level) (outcome : Outcome) :
    rs.sum.number level outcome = (rs.map (·.number level outcome)).sum := by
  induction rs with
  | nil => exact number_zero level outcome
  | cons r rs ih => rw [List.sum_cons, number_add, ih, List.map_cons, List.sum_cons]

end Report

namespace Keyed

variable {α : Type} [Keyed α] {old new : List α}

/-- The old and the new element of each key that both sequences have. -/
def shared (old new : List α) : List (α × α) :=
  old.filterMap fun o => (find? (key o) new).map (o, ·)

theorem Distinct.mem_shared (hn : Distinct new) {p : α × α} :
    p ∈ shared old new ↔ p.1 ∈ old ∧ p.2 ∈ new ∧ key p.1 = key p.2 := by
  obtain ⟨o, n⟩ := p
  simp only [shared, List.mem_filterMap, Option.map_eq_some_iff, Prod.mk.injEq]
  constructor
  · rintro ⟨o, ho, n, hfind, rfl, rfl⟩
    exact ⟨ho, mem_of_find? hfind, (key_of_find? hfind).symm⟩
  · rintro ⟨ho, hmem, hkey⟩
    exact ⟨o, ho, n, hkey ▸ hn.find?_key hmem, rfl, rfl⟩

theorem find?_of_mem_shared {p : α × α} (h : p ∈ shared old new) :
    find? (key p.1) new = some p.2 := by
  obtain ⟨o, -, ho⟩ := List.mem_filterMap.1 h
  obtain ⟨n, hfind, rfl⟩ := Option.map_eq_some_iff.1 ho
  exact hfind

theorem mem_of_mem_shared {p : α × α} (h : p ∈ shared old new) : p.1 ∈ old ∧ p.2 ∈ new := by
  refine ⟨?_, mem_of_find? (find?_of_mem_shared h)⟩
  obtain ⟨o, hmem, ho⟩ := List.mem_filterMap.1 h
  obtain ⟨n, -, rfl⟩ := Option.map_eq_some_iff.1 ho
  exact hmem

theorem Distinct.nodup {xs : List α} (h : Distinct xs) : xs.Nodup := List.Nodup.of_map key h

theorem Distinct.nodup_shared (ho : Distinct old) (new : List α) : (shared old new).Nodup := by
  refine ho.nodup.filterMap fun o o' p hp hp' => ?_
  obtain ⟨n, -, rfl⟩ := Option.map_eq_some_iff.1 hp
  obtain ⟨n', -, hpair⟩ := Option.map_eq_some_iff.1 hp'
  exact (congrArg Prod.fst hpair).symm

/-- It does not matter which side is searched for the keys of the other. -/
theorem Distinct.shared_perm (ho : Distinct old) (hn : Distinct new) :
    ((shared new old).map Prod.swap).Perm (shared old new) := by
  have hswap : ((shared new old).map Prod.swap).Nodup :=
    (hn.nodup_shared old).map Prod.swap_injective
  refine (List.perm_ext_iff_of_nodup hswap (ho.nodup_shared new)).2 fun p => ?_
  rw [hn.mem_shared, List.mem_map]
  constructor
  · rintro ⟨q, hq, rfl⟩
    obtain ⟨hnew, hold, hkey⟩ := ho.mem_shared.1 hq
    exact ⟨hold, hnew, hkey.symm⟩
  · rintro ⟨hold, hnew, hkey⟩
    exact ⟨p.swap, ho.mem_shared.2 ⟨hnew, hold, hkey.symm⟩, p.swap_swap⟩

theorem length_shared (old new : List α) :
    (shared old new).length = (keys old).countP (· ∈ keys new) := by
  rw [shared, List.length_filterMap_eq_countP, countP_keys]
  refine List.countP_congr fun o _ => ?_
  simp [isSome_find?]

end Keyed

namespace MergeRule

open Keyed Report

variable {α : Type} [Keyed α] {rule : MergeRule α} {tail : TailPolicy} {old new : List α}

/-- What a merge holds under a key of both sides. -/
theorem find?_merge_shared (rule : MergeRule α) (tail : TailPolicy) (ho : Distinct old)
    (hn : Distinct new) (hkey : ∀ o n, key o = key n → key (rule.combine o n).1 = key n)
    {p : α × α} (hp : p ∈ shared old new) :
    find? (key p.1) (rule.merge tail old new).1 = some (rule.combine p.1 p.2).1 :=
  find?_merge_of_both tail hn hkey (find?_of_mem_shared hp) (ho.find?_key (mem_of_mem_shared hp).1)

/-- What a merge counts at its own level, from the keys of its two sides. -/
def keyTally (tail : TailPolicy) (old new : List String) : Tally where
  admitted := new.countP fun k => k ∉ old ∧ admits tail old k = true
  combined := new.countP (· ∈ old)
  pruned := old.countP (· ∉ new)
  skipped := new.countP fun k => k ∉ old ∧ admits tail old k = false

/-- What becomes of a new key. -/
def outcomeOf (tail : TailPolicy) (old : List String) (k : String) : Outcome :=
  if k ∈ old then .combined else if admits tail old k then .admitted else .skipped

theorem admits_keys (old : List α) (n : α) :
    admits tail (keys old) (key n) = admits tail old n := by
  cases tail with
  | appendNew => rw [admits_appendNew, admits_appendNew]
  | truncate => simp [admits, reaches, keys, List.any_map]; rfl

theorem sum_outcomes (level : Level) (tail : TailPolicy) (old new : List String) :
    (new.map fun k => count level (outcomeOf tail old k) 1).sum =
      single level { keyTally tail old new with pruned := 0 } := by
  induction new with
  | nil =>
      refine ext_number fun l o => ?_
      rw [number_single]
      cases o <;> simp [keyTally, Tally.number]
  | cons k new ih =>
      rw [List.map_cons, List.sum_cons, ih]
      refine ext_number fun l o => ?_
      rw [number_add, number_count, number_single, number_single]
      by_cases hl : l = level
      · unfold outcomeOf
        split
        · next hk => cases o <;> simp [keyTally, Tally.number, hl, hk, Nat.add_comm]
        · next hk =>
          split
          · next ha => cases o <;> simp [keyTally, Tally.number, hl, hk, ha, Nat.add_comm]
          · next ha => cases o <;> simp [keyTally, Tally.number, hl, hk, ha, Nat.add_comm]
      · simp [hl]

theorem sum_pruned (level : Level) (old new : List String) :
    (old.map fun k => if k ∈ new then 0 else count level .pruned 1).sum =
      single level { pruned := old.countP (· ∉ new) } := by
  induction old with
  | nil =>
      refine ext_number fun l o => ?_
      rw [number_single]
      cases o <;> simp [Tally.number]
  | cons k old ih =>
      rw [List.map_cons, List.sum_cons, ih]
      refine ext_number fun l o => ?_
      by_cases hk : k ∈ new <;> by_cases hl : l = level <;> cases o <;>
        simp [number_single, number_count, Tally.number, hk, hl, Nat.add_comm]

/-- The part of the report that the combination of one new element accounts for. -/
theorem newReport_eq (rule : MergeRule α) (tail : TailPolicy) (old : List α) (n : α) :
    rule.newReport old (admits tail old n) n =
      count rule.level (outcomeOf tail (keys old) (key n)) 1 +
        (find? (key n) old).elim 0 fun o => (rule.combine o n).2 := by
  unfold newReport outcomeOf
  cases hfind : find? (key n) old with
  | none => rw [if_neg (find?_eq_none.1 hfind), admits_keys, Option.elim_none, add_zero]
  | some o =>
      have hmem : key n ∈ keys old := by
        rw [← key_of_find? hfind]
        exact key_mem_keys (mem_of_find? hfind)
      rw [if_pos hmem, Option.elim_some, add_comm]

theorem sum_combinations (rule : MergeRule α) (ho : Distinct old) (hn : Distinct new) :
    (new.map fun n => (find? (key n) old).elim 0 fun o => (rule.combine o n).2).sum =
      ((shared old new).map fun p => (rule.combine p.1 p.2).2).sum := by
  have hnew : (new.map fun n => (find? (key n) old).elim 0 fun o => (rule.combine o n).2).sum =
      ((shared new old).map fun p => (rule.combine p.2 p.1).2).sum := by
    unfold shared
    induction new with
    | nil => rfl
    | cons n new ih =>
        rw [List.map_cons, List.sum_cons, ih hn.of_cons]
        cases hfind : find? (key n) old <;> simp [hfind]
  rw [hnew, ← ((ho.shared_perm hn).map _).sum_eq, List.map_map]
  rfl

/-- The report of a merge. -/
theorem merge_report (rule : MergeRule α) (tail : TailPolicy) (ho : Distinct old)
    (hn : Distinct new) :
    (rule.merge tail old new).2 =
      single rule.level (keyTally tail (keys old) (keys new)) +
        ((shared old new).map fun p => (rule.combine p.1 p.2).2).sum := by
  have hown : single rule.level (keyTally tail (keys old) (keys new)) =
      (new.map fun n => count rule.level (outcomeOf tail (keys old) (key n)) 1).sum +
        (old.map (rule.oldReport new)).sum := by
    have hold : (old.map (rule.oldReport new)).sum =
        single rule.level { pruned := (keys old).countP (· ∉ keys new) } := by
      rw [← sum_pruned, map_keys]
      rfl
    have hnew : (new.map fun n => count rule.level (outcomeOf tail (keys old) (key n)) 1).sum =
        single rule.level { keyTally tail (keys old) (keys new) with pruned := 0 } := by
      rw [← sum_outcomes, map_keys]
    rw [hold, hnew]
    refine ext_number fun l o => ?_
    rw [number_add, number_single, number_single, number_single]
    cases o <;> by_cases hl : l = rule.level <;> simp [hl, Tally.number, keyTally]
  have hsplit : (fun n => rule.newReport old (admits tail old n) n) = fun n =>
      count rule.level (outcomeOf tail (keys old) (key n)) 1 +
        (find? (key n) old).elim 0 fun o => (rule.combine o n).2 :=
    funext (newReport_eq rule tail old)
  rw [merge_snd rule tail ho hn, hsplit, List.sum_map_add, sum_combinations rule ho hn, hown]
  exact add_right_comm ..

/-- One counter of a merge: the merge's own, if it is of its level, and those
of its combinations. -/
theorem number_merge (rule : MergeRule α) (tail : TailPolicy) (ho : Distinct old)
    (hn : Distinct new) (level : Level) (outcome : Outcome) :
    (rule.merge tail old new).2.number level outcome =
      (if level = rule.level then (keyTally tail (keys old) (keys new)).number outcome else 0) +
        ((shared old new).map fun p => (rule.combine p.1 p.2).2.number level outcome).sum := by
  rw [rule.merge_report tail ho hn, number_add, number_single, number_sum, List.map_map]
  rfl

end MergeRule

end MetricCatalog
