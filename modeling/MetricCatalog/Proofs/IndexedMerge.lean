import MetricCatalog.Proofs.KeyOrder
import MetricCatalog.Proofs.ReportSum
import MetricCatalog.Reconcile.Merge
import Mathlib.Tactic.Abel
/-!
# Merging by lookup

The walk over two sorted sequences computes what a lookup by key would: each
new element is combined with the old element of its key, if there is one, and
the report is a sum with one term for each element of either side.  Under the
truncating policy new elements past the last old key are left out.
-/

namespace MetricCatalog

namespace MergeRule

open Keyed

variable {α : Type} [Keyed α] {rule : MergeRule α} {tail : TailPolicy}
variable {o n : α} {old new : List α}

/-! ## One step of the walk -/

theorem walk_nil_appendNew (new : List α) :
    rule.walk .appendNew [] new = (new, .count rule.level .admitted new.length) := by
  rw [walk]

theorem walk_nil_truncate (new : List α) :
    rule.walk .truncate [] new = ([], .count rule.level .skipped new.length) := by
  rw [walk]

theorem walk_cons_nil (o : α) (old : List α) :
    rule.walk tail (o :: old) [] = ([], .count rule.level .pruned (old.length + 1)) := by
  rw [walk]

theorem walk_of_lt (h : key o < key n) :
    rule.walk tail (o :: old) (n :: new) =
      ((rule.walk tail old (n :: new)).1,
        .count rule.level .pruned 1 + (rule.walk tail old (n :: new)).2) := by
  rw [walk, if_pos h]

theorem walk_of_gt (h : key n < key o) :
    rule.walk tail (o :: old) (n :: new) =
      (n :: (rule.walk tail (o :: old) new).1,
        .count rule.level .admitted 1 + (rule.walk tail (o :: old) new).2) := by
  rw [walk, if_neg (Std.not_lt.2 (Std.le_of_lt h)), if_pos h]

theorem walk_of_eq (h : key o = key n) :
    rule.walk tail (o :: old) (n :: new) =
      ((rule.combine o n).1 :: (rule.walk tail old new).1,
        (rule.combine o n).2 + .count rule.level .combined 1 + (rule.walk tail old new).2) := by
  rw [walk, if_neg (by rw [h]; exact String.lt_irrefl _),
    if_neg (by rw [h]; exact String.lt_irrefl _)]

/-! ## What becomes of one element -/

/-- The walk reaches a new element before it runs out of old ones. -/
def reaches (tail : TailPolicy) (old : List α) (n : α) : Bool :=
  match tail with
  | .appendNew => true
  | .truncate => old.any fun o => key n ≤ key o

/-- A merge lets a new element in. -/
def admits (tail : TailPolicy) (old : List α) (n : α) : Bool :=
  old.isEmpty || reaches tail old n

/-- A new element, combined with the old element of its key if there is one. -/
def image (rule : MergeRule α) (old : List α) (n : α) : α :=
  match find? (key n) old with
  | some o => (rule.combine o n).1
  | none => n

/-- The part of the report that a new element accounts for. -/
def newReport (rule : MergeRule α) (old : List α) (taken : Bool) (n : α) : Report :=
  match find? (key n) old with
  | some o => (rule.combine o n).2 + .count rule.level .combined 1
  | none => .count rule.level (if taken then .admitted else .skipped) 1

/-- The part of the report that an old element accounts for. -/
def oldReport (rule : MergeRule α) (new : List α) (o : α) : Report :=
  if key o ∈ keys new then 0 else .count rule.level .pruned 1

theorem reaches_cons_of_lt (h : key o < key n) :
    reaches tail (o :: old) n = reaches tail old n := by
  cases tail with
  | appendNew => rfl
  | truncate => simp [reaches, String.not_le.2 h]

theorem filter_reaches_appendNew (old new : List α) :
    new.filter (reaches .appendNew old) = new :=
  List.filter_eq_self.2 fun _ _ => rfl

theorem reaches_cons_of_le (h : key n ≤ key o) : reaches tail (o :: old) n = true := by
  cases tail with
  | appendNew => rfl
  | truncate => simp [reaches, h]

theorem find?_cons_of_lt (h : key o < key n) :
    find? (key n) (o :: old) = find? (key n) old := by
  have hne : key o ≠ key n := fun heq => String.lt_irrefl (key n) (by rwa [heq] at h)
  rw [find?_cons, if_neg hne]

theorem find?_eq_none_of_gt (ho : Sorted (o :: old)) (h : key n < key o) :
    find? (key n) (o :: old) = none := by
  rw [find?_eq_none, mem_keys]
  rintro ⟨x, hx, heq⟩
  exact String.not_le.2 h (heq ▸ ho.key_le_of_mem hx)

theorem newReport_cons_of_lt (h : key o < key n) (taken : Bool) :
    rule.newReport (o :: old) taken n = rule.newReport old taken n := by
  rw [newReport, newReport, find?_cons_of_lt h]

/-- New elements above an old one are settled without it. -/
theorem map_image_of_lt (rule : MergeRule α) (tail : TailPolicy) (old : List α)
    (hall : ∀ n ∈ new, key o < key n) :
    (new.filter (reaches tail (o :: old))).map (rule.image (o :: old)) =
      (new.filter (reaches tail old)).map (rule.image old) := by
  rw [List.filter_congr fun n hn => reaches_cons_of_lt (hall n hn)]
  refine List.map_congr_left fun n hn => ?_
  rw [image, image, find?_cons_of_lt (hall n (List.mem_of_mem_filter hn))]

theorem map_newReport_of_lt (rule : MergeRule α) (tail : TailPolicy) (old : List α)
    (hall : ∀ n ∈ new, key o < key n) :
    (new.map fun n => rule.newReport (o :: old) (reaches tail (o :: old) n) n) =
      new.map fun n => rule.newReport old (reaches tail old n) n :=
  List.map_congr_left fun n hn => by
    rw [newReport_cons_of_lt (hall n hn), reaches_cons_of_lt (hall n hn)]

theorem oldReport_cons_of_ne (h : key o ≠ key n) :
    rule.oldReport (n :: new) o = rule.oldReport new o := by
  simp [oldReport, h]

/-! ## The walk -/

theorem walk_fst (rule : MergeRule α) (tail : TailPolicy) (ho : Sorted old) (hn : Ascending new) :
    (rule.walk tail old new).1 = (new.filter (reaches tail old)).map (rule.image old) := by
  induction old, new using walk.induct rule tail with
  | case1 new htail =>
      subst htail
      have hid : rule.image [] = id := funext fun _ => rfl
      rw [walk_nil_appendNew, filter_reaches_appendNew, hid, List.map_id]
  | case2 new htail =>
      subst htail
      rw [walk_nil_truncate]
      simp [reaches]
  | case3 o old => rw [walk_cons_nil]; rfl
  | case4 o old n new hlt _ _ _ ih =>
      -- `o` lies below every key that is still to come
      have hall : ∀ m ∈ n :: new, key o < key m := hn.lt_of_lt_head hlt
      rw [walk_of_lt hlt, ih ho.of_cons hn, map_image_of_lt rule tail old hall]
  | case5 o old n new _ hgt _ _ _ ih =>
      have himage : rule.image (o :: old) n = n := by
        rw [image, find?_eq_none_of_gt ho hgt]
      rw [walk_of_gt hgt, ih ho hn.of_cons,
        List.filter_cons_of_pos (reaches_cons_of_le (Std.le_of_lt hgt)), List.map_cons, himage]
  | case6 o old n new hlt hgt _ _ _ _ _ _ ih =>
      have heq : key o = key n := Std.Trichotomous.trichotomous _ _ hlt hgt
      have himage : rule.image (o :: old) n = (rule.combine o n).1 := by
        rw [image, find?_cons, if_pos heq]
      rw [walk_of_eq heq]
      dsimp only
      rw [ih ho.of_cons hn.of_cons,
        List.filter_cons_of_pos (reaches_cons_of_le (Std.le_of_eq heq.symm)), List.map_cons, himage,
        map_image_of_lt rule tail old (hn.lt_of_eq_head heq)]

theorem walk_snd (rule : MergeRule α) (tail : TailPolicy) (ho : Ascending old)
    (hn : Ascending new) :
    (rule.walk tail old new).2 =
      (new.map fun n => rule.newReport old (reaches tail old n) n).sum +
        (old.map (rule.oldReport new)).sum := by
  induction old, new using walk.induct rule tail with
  | case1 new htail =>
      subst htail
      rw [walk_nil_appendNew, Report.count_length, List.map_nil, List.sum_nil, add_zero]
      rfl
  | case2 new htail =>
      subst htail
      rw [walk_nil_truncate, Report.count_length, List.map_nil, List.sum_nil, add_zero]
      rfl
  | case3 o old =>
      have hpruned : rule.oldReport [] = fun _ => .count rule.level .pruned 1 :=
        funext fun o => by simp [oldReport]
      rw [walk_cons_nil, ← List.length_cons (a := o), Report.count_length, hpruned]
      exact (zero_add _).symm
  | case4 o old n new hlt _ _ _ ih =>
      have hall : ∀ m ∈ n :: new, key o < key m := hn.lt_of_lt_head hlt
      have hpruned : rule.oldReport (n :: new) o = .count rule.level .pruned 1 := by
        refine if_neg fun hmem => ?_
        obtain ⟨m, hm, heq⟩ := mem_keys.1 hmem
        exact String.lt_irrefl _ (heq ▸ hall m hm)
      have hnew := rule.map_newReport_of_lt tail old hall
      rw [walk_of_lt hlt]
      dsimp only
      rw [ih ho.of_cons hn, hnew, List.map_cons (l := old), List.sum_cons, hpruned]
      abel
  | case5 o old n new _ hgt _ _ _ ih =>
      have hadmitted : rule.newReport (o :: old) (reaches tail (o :: old) n) n =
          .count rule.level .admitted 1 := by
        rw [newReport, find?_eq_none_of_gt ho.sorted hgt, reaches_cons_of_le (Std.le_of_lt hgt)]
        rfl
      have hold : (o :: old).map (rule.oldReport (n :: new)) =
          (o :: old).map (rule.oldReport new) := by
        refine List.map_congr_left fun p hp => oldReport_cons_of_ne fun heq => ?_
        have hnone := find?_eq_none.1 (find?_eq_none_of_gt ho.sorted hgt)
        exact hnone (heq ▸ key_mem_keys hp)
      rw [walk_of_gt hgt]
      dsimp only
      rw [ih ho hn.of_cons, hold, List.map_cons (l := new), List.sum_cons, hadmitted]
      abel
  | case6 o old n new hlt hgt _ _ _ _ _ _ ih =>
      have heq : key o = key n := Std.Trichotomous.trichotomous _ _ hlt hgt
      have hboth (taken : Bool) : rule.newReport (o :: old) taken n =
          (rule.combine o n).2 + .count rule.level .combined 1 := by
        rw [newReport, find?_cons, if_pos heq]
      have hkept : rule.oldReport (n :: new) o = 0 :=
        if_pos (by rw [heq]; exact key_mem_keys (List.mem_cons_self ..))
      have hnew := rule.map_newReport_of_lt tail old (hn.lt_of_eq_head heq)
      have hold : old.map (rule.oldReport (n :: new)) = old.map (rule.oldReport new) := by
        refine List.map_congr_left fun p hp => oldReport_cons_of_ne fun he => ?_
        have hlt : key o < key p := List.rel_of_pairwise_cons ho hp
        exact String.lt_irrefl _ (by rwa [he, heq] at hlt)
      rw [walk_of_eq heq]
      dsimp only
      rw [ih ho.of_cons hn.of_cons, List.map_cons (l := new), List.map_cons (l := old),
        List.sum_cons, List.sum_cons, hboth, hkept, hnew, hold]
      abel

/-! ## The merge -/

theorem admits_appendNew (old : List α) (n : α) : admits .appendNew old n = true :=
  Bool.or_true _

/-- The tail begins past the last old key. -/
theorem admits_of_mem_keys (h : key n ∈ keys old) : admits tail old n = true := by
  obtain ⟨o, ho, hkey⟩ := mem_keys.1 h
  cases tail with
  | appendNew => exact admits_appendNew old n
  | truncate =>
      have hany : (old.any fun o => key n ≤ key o) = true :=
        List.any_eq_true.2 ⟨o, ho, decide_eq_true (Std.le_of_eq hkey.symm)⟩
      rw [admits, reaches, hany, Bool.or_true]

theorem reaches_sort (h : old ≠ []) (n : α) :
    reaches tail (sort old) n = admits tail old n := by
  have hany : ((sort old).any fun o => key n ≤ key o) = old.any fun o => key n ≤ key o :=
    Bool.eq_iff_iff.2 (by simp only [List.any_eq_true, mem_sort])
  have hempty : old.isEmpty = false := by simpa using h
  rw [admits, hempty, Bool.false_or]
  cases tail with
  | appendNew => rfl
  | truncate => exact hany

/-- The elements of a merge: in ascending order, each new element that is let
in, combined with the old element of its key if there is one. -/
theorem merge_fst (rule : MergeRule α) (tail : TailPolicy) (old : List α) (hn : Distinct new) :
    (rule.merge tail old new).1 = ((sort new).filter (admits tail old)).map (rule.image old) := by
  have hsort : rule.image (sort old) = rule.image old :=
    funext fun n => by rw [image, image, find?_sort]
  unfold merge
  split
  · next hempty =>
    obtain rfl := List.isEmpty_iff.1 hempty
    have hid : rule.image [] = id := funext fun _ => rfl
    have hall : (sort new).filter (admits tail []) = sort new :=
      List.filter_eq_self.2 fun _ _ => rfl
    rw [hall, hid, List.map_id]
  · next hne =>
    have hne : old ≠ [] := fun h => hne (List.isEmpty_iff.2 h)
    rw [walk_fst rule tail (sorted_sort old) hn.ascending_sort, hsort,
      List.filter_congr fun n _ => reaches_sort hne n]

/-- The report of a merge has one term for each element of either side. -/
theorem merge_snd (rule : MergeRule α) (tail : TailPolicy) (ho : Distinct old)
    (hn : Distinct new) :
    (rule.merge tail old new).2 =
      (new.map fun n => rule.newReport old (admits tail old n) n).sum +
        (old.map (rule.oldReport new)).sum := by
  unfold merge
  split
  · next hempty =>
    obtain rfl := List.isEmpty_iff.1 hempty
    rw [Report.count_length, List.map_nil, List.sum_nil, add_zero]
    rfl
  · next hne =>
    have hne : old ≠ [] := fun h => hne (List.isEmpty_iff.2 h)
    have hnew : (fun n => rule.newReport (sort old) (reaches tail (sort old) n) n) =
        fun n => rule.newReport old (admits tail old n) n :=
      funext fun n => by rw [reaches_sort hne, newReport, newReport, find?_sort]
    have hold : rule.oldReport (sort new) = rule.oldReport new :=
      funext fun o => by simp only [oldReport, (keys_sort_perm new).mem_iff]
    rw [walk_snd rule tail ho.ascending_sort hn.ascending_sort, hnew, hold,
      ((sort_perm new).map _).sum_eq, ((sort_perm old).map _).sum_eq]

theorem key_image (hkey : ∀ o n, key o = key n → key (rule.combine o n).1 = key n)
    (old : List α) (n : α) : key (rule.image old n) = key n := by
  unfold image
  split
  · next o hfind => exact hkey o n (key_of_find? hfind)
  · rfl

/-- What a merge holds under a key. -/
theorem find?_merge (rule : MergeRule α) (tail : TailPolicy) (old : List α) (hn : Distinct new)
    (hkey : ∀ o n, key o = key n → key (rule.combine o n).1 = key n) (k : String) :
    find? k (rule.merge tail old new).1 =
      ((find? k new).filter (admits tail old)).map (rule.image old) := by
  have hd : Distinct (sort new) := distinct_sort.2 hn
  rw [rule.merge_fst tail old hn, find?_map (key_image hkey old), hd.find?_filter, find?_sort]

section

variable {k : String} (tail : TailPolicy) (hn : Distinct new)
  (hkey : ∀ o n, key o = key n → key (rule.combine o n).1 = key n)
include hn hkey

/-- A key that is not new is not in the merge. -/
theorem find?_merge_of_not_new (old : List α) (hnew : find? k new = none) :
    find? k (rule.merge tail old new).1 = none := by
  rw [rule.find?_merge tail old hn hkey, hnew]
  rfl

/-- An element of a new key is taken as it is, or left out. -/
theorem find?_merge_of_not_old (hnew : find? k new = some n) (hold : find? k old = none) :
    find? k (rule.merge tail old new).1 = if admits tail old n then some n else none := by
  obtain rfl := key_of_find? hnew
  rw [rule.find?_merge tail old hn hkey, hnew]
  cases hadmits : admits tail old n with
  | true => rw [Option.filter_some_pos hadmits, Option.map_some, image, hold]; rfl
  | false => rw [Option.filter_some_neg (by simp [hadmits])]; rfl

theorem find?_merge_of_both (hnew : find? k new = some n) (hold : find? k old = some o) :
    find? k (rule.merge tail old new).1 = some (rule.combine o n).1 := by
  obtain rfl := key_of_find? hnew
  have hadmits : admits tail old n = true :=
    admits_of_mem_keys (isSome_find?.1 (by rw [hold]; rfl))
  rw [rule.find?_merge tail old hn hkey, hnew, Option.filter_some_pos hadmits, Option.map_some,
    image, hold]

end

/-- A merge ascends whatever order its sides are in. -/
theorem ascending_merge (rule : MergeRule α) (tail : TailPolicy) (old : List α)
    (hn : Distinct new) (hkey : ∀ o n, key o = key n → key (rule.combine o n).1 = key n) :
    Ascending (rule.merge tail old new).1 := by
  rw [rule.merge_fst tail old hn, ascending_iff_keys, keys_map (key_image hkey old)]
  exact ascending_iff_keys.1 (hn.ascending_sort.sublist List.filter_sublist)

/-- What new elements and combined ones satisfy, the merge satisfies. -/
theorem forall_mem_merge {p : α → Prop} (rule : MergeRule α) (tail : TailPolicy)
    (hn : Distinct new) (hnew : ∀ n ∈ new, p n)
    (hcombine : ∀ o ∈ old, ∀ n ∈ new, key o = key n → p (rule.combine o n).1) :
    ∀ x ∈ (rule.merge tail old new).1, p x := by
  rw [rule.merge_fst tail old hn]
  intro x hx
  obtain ⟨n, hmem, rfl⟩ := List.mem_map.1 hx
  have hmem : n ∈ new := mem_sort.1 (List.mem_of_mem_filter hmem)
  unfold image
  split
  · next o hfind => exact hcombine o (mem_of_find? hfind) n hmem (key_of_find? hfind)
  · exact hnew n hmem

/-- Without truncation every new element is let in. -/
theorem merge_appendNew_fst (rule : MergeRule α) (old : List α) (hn : Distinct new) :
    (rule.merge .appendNew old new).1 = (sort new).map (rule.image old) := by
  rw [rule.merge_fst .appendNew old hn, List.filter_eq_self.2 fun n _ => admits_appendNew old n]

/-- A merge only combines when every key is on both sides. -/
theorem merge_still (rule : MergeRule α) (ho : Distinct old) (hn : Distinct new)
    (hold : ∀ o ∈ old, key o ∈ keys new)
    (hcombine : ∀ n ∈ new, ∃ o, find? (key n) old = some o ∧ (rule.combine o n).2.Still) :
    (rule.merge .appendNew old new).2.Still := by
  rw [rule.merge_snd .appendNew ho hn]
  refine (Report.Still.sum fun r hr => ?_).add (Report.Still.sum fun r hr => ?_)
  · obtain ⟨n, hmem, rfl⟩ := List.mem_map.1 hr
    obtain ⟨o, hfind, hstill⟩ := hcombine n hmem
    rw [newReport, hfind]
    exact hstill.add (Report.still_combined rule.level 1)
  · obtain ⟨o, hmem, rfl⟩ := List.mem_map.1 hr
    rw [oldReport, if_pos (hold o hmem)]
    exact Report.still_zero

end MergeRule

end MetricCatalog
