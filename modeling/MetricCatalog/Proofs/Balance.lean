import MetricCatalog.Proofs.Idempotence
import MetricCatalog.Proofs.Paths
/-!
# Reports balance

At every level a report accounts for each key once: the old keys are combined or
dropped, the new ones combined, taken in or left out, and the keys of the result
combined or taken in.  A level is counted below the elements that both sides
have, and nowhere else.
-/

namespace MetricCatalog

open Keyed

/-- A tally that accounts for so many old keys, new keys, keys of the result and
locks. -/
structure Tally.Balances (t : Tally) (old new merged locks : Nat) : Prop where
  old : t.combined + t.pruned = old
  new : t.combined + t.admitted + t.skipped = new
  merged : t.combined + t.admitted = merged
  locks : t.locked = locks

namespace Report

theorem tally_add (r s : Report) (level : Level) :
    (r + s).tally level = (r.tally level).add (s.tally level) := by
  cases level <;> rfl

theorem tally_single (level l : Level) (t : Tally) :
    (single level t).tally l = if l = level then t else .zero := by
  cases level <;> cases l <;> rfl

end Report

namespace Tally

theorem balances_zero : Tally.zero.Balances 0 0 0 0 := ⟨rfl, rfl, rfl, rfl⟩

theorem Balances.add {s t : Tally} {a b c d a' b' c' d' : Nat} (hs : s.Balances a b c d)
    (ht : t.Balances a' b' c' d') :
    (s.add t).Balances (a + a') (b + b') (c + c') (d + d') := by
  obtain ⟨hsold, hsnew, hsmerged, hslocks⟩ := hs
  obtain ⟨htold, htnew, htmerged, htlocks⟩ := ht
  constructor <;> simp only [Tally.add] <;> omega

theorem Balances.sum {ι : Type} {level : Level} {f : ι → Report} {a b c d : ι → Nat} (xs : List ι)
    (h : ∀ x ∈ xs, ((f x).tally level).Balances (a x) (b x) (c x) (d x)) :
    ((xs.map f).sum.tally level).Balances (xs.map a).sum (xs.map b).sum (xs.map c).sum
      (xs.map d).sum := by
  induction xs with
  | nil => cases level <;> exact balances_zero
  | cons x xs ih =>
      simp only [List.map_cons, List.sum_cons, Report.tally_add]
      exact (h x (by simp)).add (ih fun y hy => h y (by simp [hy]))

end Tally

namespace MergeRule

open Report

variable {α : Type} [Keyed α] {rule : MergeRule α} {tail : TailPolicy} {old new : List α}

theorem keyTally_merged (tail : TailPolicy) (old new : List String) :
    (keyTally tail old new).combined + (keyTally tail old new).admitted =
      new.countP (admits tail old) := by
  unfold keyTally
  induction new with
  | nil => rfl
  | cons k new ih =>
      dsimp only at ih ⊢
      by_cases hk : k ∈ old
      · have ha : admits tail old k = true := admits_of_mem_keys (mem_keys.2 ⟨k, hk, rfl⟩)
        simp [hk, ha] at ih ⊢
        omega
      · cases ha : admits tail old k <;> simp [hk, ha] at ih ⊢ <;> omega

theorem keyTally_skipped (tail : TailPolicy) (old new : List String) :
    (keyTally tail old new).skipped = new.countP fun k => ¬admits tail old k = true := by
  refine List.countP_congr fun k _ => ?_
  have hold : k ∈ old → admits tail old k = true := fun hk =>
    admits_of_mem_keys (mem_keys.2 ⟨k, hk, rfl⟩)
  simp only [decide_eq_true_eq, Bool.not_eq_true]
  refine ⟨And.right, fun hout => ⟨fun hk => ?_, hout⟩⟩
  rw [hold hk] at hout
  cases hout

theorem keyTally_new (tail : TailPolicy) (old new : List String) :
    (keyTally tail old new).combined + (keyTally tail old new).admitted +
      (keyTally tail old new).skipped = new.length := by
  rw [keyTally_merged, keyTally_skipped]
  exact (List.length_eq_countP_add_countP (admits tail old)).symm

theorem length_merge (rule : MergeRule α) (tail : TailPolicy) (old : List α) (hn : Distinct new) :
    (rule.merge tail old new).1.length = (keys new).countP (admits tail (keys old)) := by
  have hadmits : (fun n => admits tail (keys old) (key n)) = admits tail old :=
    funext fun n => admits_keys old n
  rw [rule.merge_fst tail old hn, List.length_map, ← List.countP_eq_length_filter,
    (sort_perm new).countP_eq, countP_keys, hadmits]

theorem balances_keyTally (rule : MergeRule α) (tail : TailPolicy) (ho : Distinct old)
    (hn : Distinct new) :
    (keyTally tail (keys old) (keys new)).Balances old.length new.length
      (rule.merge tail old new).1.length 0 where
  old := by
    have hshared : (keys new).countP (· ∈ keys old) = (keys old).countP (· ∈ keys new) := by
      rw [← length_shared, ← length_shared, ← (ho.shared_perm hn).length_eq, List.length_map]
    have hsplit := (keys old).length_eq_countP_add_countP (· ∈ keys new)
    have hlength : (keys old).length = old.length := List.length_map ..
    show (keys new).countP (· ∈ keys old) + (keys old).countP (· ∉ keys new) = old.length
    rw [hshared, ← hlength, hsplit]
    simp only [decide_eq_true_eq]
  new := (keyTally_new tail (keys old) (keys new)).trans (List.length_map ..)
  merged := by rw [keyTally_merged, rule.length_merge tail old hn]
  locks := rfl

/-- At its own level a merge accounts for the keys that it got. -/
theorem balances_merge (rule : MergeRule α) (tail : TailPolicy) (ho : Distinct old)
    (hn : Distinct new) {locks : α × α → Nat}
    (hinner : ∀ p ∈ shared old new,
      ((rule.combine p.1 p.2).2.tally rule.level).Balances 0 0 0 (locks p)) :
    ((rule.merge tail old new).2.tally rule.level).Balances old.length new.length
      (rule.merge tail old new).1.length ((shared old new).map locks).sum := by
  have hsum := Tally.Balances.sum (shared old new) hinner
  have hadd := (balances_keyTally rule tail ho hn).add hsum
  simp only [List.sum_map_zero, Nat.add_zero, Nat.zero_add] at hadd
  rwa [rule.merge_report tail ho hn, tally_add, tally_single, if_pos rfl]

/-- At any other level it accounts for what its combinations account for. -/
theorem balances_merge_of_ne (rule : MergeRule α) (tail : TailPolicy) (ho : Distinct old)
    (hn : Distinct new) (level : Level) (hlevel : level ≠ rule.level) {a b c d : α × α → Nat}
    (hinner : ∀ p ∈ shared old new,
      ((rule.combine p.1 p.2).2.tally level).Balances (a p) (b p) (c p) (d p)) :
    ((rule.merge tail old new).2.tally level).Balances ((shared old new).map a).sum
      ((shared old new).map b).sum ((shared old new).map c).sum ((shared old new).map d).sum := by
  have hown : (single rule.level (keyTally tail (keys old) (keys new))).tally level = .zero := by
    rw [tally_single, if_neg hlevel]
  have hadd := Tally.balances_zero.add (Tally.Balances.sum (shared old new) hinner)
  simp only [Nat.zero_add] at hadd
  rwa [rule.merge_report tail ho hn, tally_add, hown]

theorem balances_merge_nothing (rule : MergeRule α) (tail : TailPolicy) (ho : Distinct old)
    (hn : Distinct new) (level : Level) (hlevel : level ≠ rule.level)
    (hinner : ∀ p ∈ shared old new,
      ((rule.combine p.1 p.2).2.tally level).Balances 0 0 0 0) :
    ((rule.merge tail old new).2.tally level).Balances 0 0 0 0 := by
  have h := rule.balances_merge_of_ne tail ho hn level hlevel hinner
  simpa only [List.sum_map_zero] using h

end MergeRule

/-! ## Level by level -/

/-- How many values of `l` a merge goes through, where `old` may be locked. -/
def Label.mergedSize (old l : Label) : Nat :=
  if old.locked then 0 else l.values.length

section

variable (tail : TailPolicy)

theorem Label.balances_value {o n : Label} (ho : o.AllKeys List.Nodup)
    (hn : n.AllKeys List.Nodup) :
    ((Label.combine tail o n).2.tally .value).Balances (o.mergedSize o) (o.mergedSize n)
      (o.mergedSize (Label.combine tail o n).1) 0 := by
  unfold mergedSize
  rw [combine_snd, combine_fst]
  cases o.locked with
  | true => exact Tally.balances_zero
  | false =>
      have h := LabelValue.rule.balances_merge tail ho hn fun _ _ => Tally.balances_zero
      rwa [List.sum_map_zero] at h

theorem Label.balances_label {o n : Label} (ho : o.AllKeys List.Nodup)
    (hn : n.AllKeys List.Nodup) :
    ((Label.combine tail o n).2.tally .label).Balances 0 0 0 (if o.locked then 1 else 0) := by
  rw [combine_snd]
  cases o.locked with
  | true => exact ⟨rfl, rfl, rfl, rfl⟩
  | false =>
      exact LabelValue.rule.balances_merge_nothing tail ho hn .label (by decide) fun _ _ =>
        Tally.balances_zero

theorem Label.balances_above {o n : Label} (ho : o.AllKeys List.Nodup)
    (hn : n.AllKeys List.Nodup) {level : Level} (hlevel : level = .component ∨ level = .metric) :
    ((Label.combine tail o n).2.tally level).Balances 0 0 0 0 := by
  rw [combine_snd]
  cases o.locked with
  | true => rcases hlevel with rfl | rfl <;> exact Tally.balances_zero
  | false =>
      have hne : level ≠ .value := by rcases hlevel with rfl | rfl <;> decide
      have hzero : (Report.zero.tally level).Balances 0 0 0 0 := by
        cases level <;> exact Tally.balances_zero
      exact LabelValue.rule.balances_merge_nothing tail ho hn level hne fun _ _ => hzero

theorem Metric.balances_label {o n : Metric} (ho : o.AllKeys List.Nodup)
    (hn : n.AllKeys List.Nodup) :
    ((Metric.combine tail o n).2.tally .label).Balances o.labels.length n.labels.length
      (Metric.combine tail o n).1.labels.length
      ((shared o.labels n.labels).map fun l => if l.1.locked then 1 else 0).sum :=
  (Label.rule tail).balances_merge tail ho.1 hn.1 fun _ hl =>
    Label.balances_label tail (ho.2 _ (mem_of_mem_shared hl).1) (hn.2 _ (mem_of_mem_shared hl).2)

theorem Metric.balances_value {o n : Metric} (ho : o.AllKeys List.Nodup)
    (hn : n.AllKeys List.Nodup) :
    ((Metric.combine tail o n).2.tally .value).Balances
      ((shared o.labels n.labels).map fun l => l.1.mergedSize l.1).sum
      ((shared o.labels n.labels).map fun l => l.1.mergedSize l.2).sum
      ((shared o.labels n.labels).map fun l => l.1.mergedSize (Label.combine tail l.1 l.2).1).sum
      0 := by
  have h := (Label.rule tail).balances_merge_of_ne tail ho.1 hn.1 .value nofun fun l hl =>
    Label.balances_value tail (ho.2 _ (mem_of_mem_shared hl).1) (hn.2 _ (mem_of_mem_shared hl).2)
  rwa [List.sum_map_zero] at h

theorem Metric.balances_above {o n : Metric} (ho : o.AllKeys List.Nodup)
    (hn : n.AllKeys List.Nodup) {level : Level} (hlevel : level = .component ∨ level = .metric) :
    ((Metric.combine tail o n).2.tally level).Balances 0 0 0 0 := by
  have hne : level ≠ .label := by rcases hlevel with rfl | rfl <;> decide
  exact (Label.rule tail).balances_merge_nothing tail ho.1 hn.1 level hne fun l hl =>
    Label.balances_above tail (ho.2 _ (mem_of_mem_shared hl).1) (hn.2 _ (mem_of_mem_shared hl).2)
      hlevel

theorem Component.balances_metric {o n : Component} (ho : o.AllKeys List.Nodup)
    (hn : n.AllKeys List.Nodup) :
    ((Component.combine tail o n).2.tally .metric).Balances o.metrics.length n.metrics.length
      (Component.combine tail o n).1.metrics.length 0 := by
  have h := (Metric.rule tail).balances_merge tail ho.1 hn.1 fun m hm =>
    Metric.balances_above tail (ho.2 _ (mem_of_mem_shared hm).1) (hn.2 _ (mem_of_mem_shared hm).2)
      (.inr rfl)
  rwa [List.sum_map_zero] at h

theorem Component.balances_label {o n : Component} (ho : o.AllKeys List.Nodup)
    (hn : n.AllKeys List.Nodup) :
    ((Component.combine tail o n).2.tally .label).Balances
      ((shared o.metrics n.metrics).map fun m => m.1.labels.length).sum
      ((shared o.metrics n.metrics).map fun m => m.2.labels.length).sum
      ((shared o.metrics n.metrics).map fun m => (Metric.combine tail m.1 m.2).1.labels.length).sum
      ((shared o.metrics n.metrics).map fun m =>
        ((shared m.1.labels m.2.labels).map fun l => if l.1.locked then 1 else 0).sum).sum :=
  (Metric.rule tail).balances_merge_of_ne tail ho.1 hn.1 .label nofun fun _ hm =>
    Metric.balances_label tail (ho.2 _ (mem_of_mem_shared hm).1) (hn.2 _ (mem_of_mem_shared hm).2)

theorem Component.balances_value {o n : Component} (ho : o.AllKeys List.Nodup)
    (hn : n.AllKeys List.Nodup) :
    ((Component.combine tail o n).2.tally .value).Balances
      ((shared o.metrics n.metrics).map fun m =>
        ((shared m.1.labels m.2.labels).map fun l => l.1.mergedSize l.1).sum).sum
      ((shared o.metrics n.metrics).map fun m =>
        ((shared m.1.labels m.2.labels).map fun l => l.1.mergedSize l.2).sum).sum
      ((shared o.metrics n.metrics).map fun m =>
        ((shared m.1.labels m.2.labels).map fun l =>
          l.1.mergedSize (Label.combine tail l.1 l.2).1).sum).sum
      0 := by
  have h := (Metric.rule tail).balances_merge_of_ne tail ho.1 hn.1 .value nofun fun m hm =>
    Metric.balances_value tail (ho.2 _ (mem_of_mem_shared hm).1) (hn.2 _ (mem_of_mem_shared hm).2)
  rwa [List.sum_map_zero] at h

theorem Component.balances_component {o n : Component} (ho : o.AllKeys List.Nodup)
    (hn : n.AllKeys List.Nodup) :
    ((Component.combine tail o n).2.tally .component).Balances 0 0 0 0 :=
  (Metric.rule tail).balances_merge_nothing tail ho.1 hn.1 .component nofun fun _ hm =>
    Metric.balances_above tail (ho.2 _ (mem_of_mem_shared hm).1) (hn.2 _ (mem_of_mem_shared hm).2)
      (.inl rfl)

end

/-! ## Totals over paths -/

theorem sum_filter_not {ι : Type} (p : ι → Bool) (f : ι → Nat) (xs : List ι) :
    ((xs.filter (!p ·)).map f).sum = (xs.map fun x => if p x then 0 else f x).sum := by
  induction xs with
  | nil => rfl
  | cons x xs ih => cases h : p x <;> simp [h, ih]

theorem countP_eq_sum {ι : Type} (p : ι → Bool) (xs : List ι) :
    xs.countP p = (xs.map fun x => if p x then 1 else 0).sum := by
  induction xs with
  | nil => rfl
  | cons x xs ih => cases h : p x <;> simp [h, ih, Nat.add_comm]

namespace Catalog

/-- How many metrics `c` has under these components. -/
def metricsUnder (c : Catalog) (stems : List String) : Nat :=
  (stems.map fun stem => (c.component? stem).elim 0 (·.metrics.length)).sum

def labelsUnder (c : Catalog) (metrics : List (String × String)) : Nat :=
  (metrics.map fun p => (c.metricAt? p.1 p.2).elim 0 (·.labels.length)).sum

def valuesUnder (c : Catalog) (labels : List (String × String × String)) : Nat :=
  (labels.map fun p => (c.labelAt? p.1 p.2.1 p.2.2).elim 0 (·.values.length)).sum

def locks (c : Catalog) (p : String × String × String) : Bool :=
  (c.labelAt? p.1 p.2.1 p.2.2).any (·.locked)

/-- The report of a run with this result.  Below the top level it accounts for
what lies under paths that both sides have, and at the lowest one only where the
catalog does not lock the label. -/
structure Accounts (old new result : Catalog) (report : Report) : Prop where
  component : report.components.Balances old.components.length new.components.length
    result.components.length 0
  metric : report.metrics.Balances (old.metricsUnder (sharedStems old new))
    (new.metricsUnder (sharedStems old new)) (result.metricsUnder (sharedStems old new)) 0
  label : report.labels.Balances (old.labelsUnder (sharedMetrics old new))
    (new.labelsUnder (sharedMetrics old new)) (result.labelsUnder (sharedMetrics old new))
    ((sharedLabels old new).countP old.locks)
  value : report.values.Balances
    (old.valuesUnder ((sharedLabels old new).filter (!old.locks ·)))
    (new.valuesUnder ((sharedLabels old new).filter (!old.locks ·)))
    (result.valuesUnder ((sharedLabels old new).filter (!old.locks ·))) 0

/-- At each path that two catalogs share, `c` has what the three functions make of
their two elements. -/
structure HasShared (old new c : Catalog) (ofComponents : Component × Component → Component)
    (ofMetrics : Metric × Metric → Metric) (ofLabels : Label × Label → Label) : Prop where
  component : ∀ x ∈ shared old.components new.components,
    c.component? x.1.stem = some (ofComponents x)
  metric : ∀ x ∈ shared old.components new.components, ∀ m ∈ shared x.1.metrics x.2.metrics,
    (ofComponents x).metric? m.1.name = some (ofMetrics m)
  label : ∀ x ∈ shared old.components new.components, ∀ m ∈ shared x.1.metrics x.2.metrics,
    ∀ l ∈ shared m.1.labels m.2.labels, (ofMetrics m).label? l.1.name = some (ofLabels l)

variable {old new : Catalog}

theorem hasShared_old (ho : old.Distinct) :
    HasShared old new old Prod.fst Prod.fst Prod.fst where
  component _ hx := Keyed.Distinct.find?_key ho.1 (mem_of_mem_shared hx).1
  metric x hx _ hm :=
    Keyed.Distinct.find?_key (ho.2 x.1 (mem_of_mem_shared hx).1).1 (mem_of_mem_shared hm).1
  label x hx m hm _ hl :=
    Keyed.Distinct.find?_key
      ((ho.2 x.1 (mem_of_mem_shared hx).1).2 m.1 (mem_of_mem_shared hm).1).1
      (mem_of_mem_shared hl).1

theorem hasShared_new (old new : Catalog) :
    HasShared old new new Prod.snd Prod.snd Prod.snd where
  component _ hx := find?_of_mem_shared hx
  metric _ _ _ hm := find?_of_mem_shared hm
  label _ _ _ _ _ hl := find?_of_mem_shared hl

namespace HasShared

variable {c : Catalog} {ofComponents : Component × Component → Component}
  {ofMetrics : Metric × Metric → Metric} {ofLabels : Label × Label → Label}
  {x : Component × Component} {m : Metric × Metric} {l : Label × Label}
  (h : HasShared old new c ofComponents ofMetrics ofLabels)
include h

theorem metricAt?_eq (hx : x ∈ shared old.components new.components)
    (hm : m ∈ shared x.1.metrics x.2.metrics) :
    c.metricAt? x.1.stem m.1.name = some (ofMetrics m) := by
  rw [metricAt?_of_component? (h.component x hx), h.metric x hx m hm]

theorem labelAt?_eq (hx : x ∈ shared old.components new.components)
    (hm : m ∈ shared x.1.metrics x.2.metrics) (hl : l ∈ shared m.1.labels m.2.labels) :
    c.labelAt? x.1.stem m.1.name l.1.name = some (ofLabels l) := by
  rw [labelAt?_of_metricAt? (h.metricAt?_eq hx hm), h.label x hx m hm l hl]

theorem metricsUnder_eq :
    c.metricsUnder (sharedStems old new) =
      ((shared old.components new.components).map fun x =>
        (ofComponents x).metrics.length).sum := by
  rw [metricsUnder, sum_sharedStems]
  refine congrArg List.sum (List.map_congr_left fun x hx => ?_)
  rw [h.component x hx, Option.elim_some]

theorem labelsUnder_eq :
    c.labelsUnder (sharedMetrics old new) =
      ((shared old.components new.components).map fun x =>
        ((shared x.1.metrics x.2.metrics).map fun m => (ofMetrics m).labels.length).sum).sum := by
  rw [labelsUnder, sum_sharedMetrics]
  refine congrArg List.sum (List.map_congr_left fun x hx => ?_)
  refine congrArg List.sum (List.map_congr_left fun m hm => ?_)
  rw [h.metricAt?_eq hx hm, Option.elim_some]

omit h in
theorem locks_eq (ho : old.Distinct) (hx : x ∈ shared old.components new.components)
    (hm : m ∈ shared x.1.metrics x.2.metrics) (hl : l ∈ shared m.1.labels m.2.labels) :
    old.locks (x.1.stem, m.1.name, l.1.name) = l.1.locked := by
  rw [locks, (hasShared_old ho).labelAt?_eq hx hm hl, Option.any_some]

/-- The labels that `old` locks are left aside. -/
theorem valuesUnder_eq (ho : old.Distinct) :
    c.valuesUnder ((sharedLabels old new).filter (!old.locks ·)) =
      ((shared old.components new.components).map fun x =>
        ((shared x.1.metrics x.2.metrics).map fun m =>
          ((shared m.1.labels m.2.labels).map fun l =>
            l.1.mergedSize (ofLabels l)).sum).sum).sum := by
  rw [valuesUnder, sum_filter_not, sum_sharedLabels]
  refine congrArg List.sum (List.map_congr_left fun x hx => ?_)
  refine congrArg List.sum (List.map_congr_left fun m hm => ?_)
  refine congrArg List.sum (List.map_congr_left fun l hl => ?_)
  rw [locks_eq ho hx hm hl, h.labelAt?_eq hx hm hl, Option.elim_some, Label.mergedSize]

end HasShared

variable {tail : TailPolicy}

theorem countP_locks (ho : old.Distinct) :
    (sharedLabels old new).countP old.locks =
      ((shared old.components new.components).map fun x =>
        ((shared x.1.metrics x.2.metrics).map fun m =>
          ((shared m.1.labels m.2.labels).map fun l =>
            if l.1.locked then 1 else 0).sum).sum).sum := by
  rw [countP_eq_sum, sum_sharedLabels]
  refine congrArg List.sum (List.map_congr_left fun x hx => ?_)
  refine congrArg List.sum (List.map_congr_left fun m hm => ?_)
  refine congrArg List.sum (List.map_congr_left fun l hl => ?_)
  rw [HasShared.locks_eq ho hx hm hl]

theorem hasShared_merge (tail : TailPolicy) (ho : old.Distinct) (hn : new.Distinct) :
    HasShared old new
      { old with
        components := ((Component.rule tail).merge tail old.components new.components).1 }
      (fun x => (Component.combine tail x.1 x.2).1) (fun m => (Metric.combine tail m.1 m.2).1)
      fun l => (Label.combine tail l.1 l.2).1 where
  component _ hx := (Component.rule tail).find?_merge_shared tail ho.1 hn.1 (fun _ _ h => h) hx
  metric _ hx _ hm :=
    (Metric.rule tail).find?_merge_shared tail (ho.2 _ (mem_of_mem_shared hx).1).1
      (hn.2 _ (mem_of_mem_shared hx).2).1 (fun _ _ h => h) hm
  label _ hx _ hm _ hl :=
    (Label.rule tail).find?_merge_shared tail
      ((ho.2 _ (mem_of_mem_shared hx).1).2 _ (mem_of_mem_shared hm).1).1
      ((hn.2 _ (mem_of_mem_shared hx).2).2 _ (mem_of_mem_shared hm).2).1 (fun _ _ h => h) hl

/-- A merge of components accounts for what it went through. -/
theorem accounts_merge (tail : TailPolicy) (ho : old.Distinct) (hn : new.Distinct) :
    Accounts old new
      { old with
        components := ((Component.rule tail).merge tail old.components new.components).1 }
      ((Component.rule tail).merge tail old.components new.components).2 where
  component := by
    have h := (Component.rule tail).balances_merge tail ho.1 hn.1 fun _ hx =>
      Component.balances_component tail (ho.2 _ (mem_of_mem_shared hx).1)
        (hn.2 _ (mem_of_mem_shared hx).2)
    rwa [List.sum_map_zero] at h
  metric := by
    have h := (Component.rule tail).balances_merge_of_ne tail ho.1 hn.1 .metric nofun fun _ hx =>
      Component.balances_metric tail (ho.2 _ (mem_of_mem_shared hx).1)
        (hn.2 _ (mem_of_mem_shared hx).2)
    rw [List.sum_map_zero] at h
    rw [(hasShared_old ho).metricsUnder_eq, (hasShared_new old new).metricsUnder_eq,
      (hasShared_merge tail ho hn).metricsUnder_eq]
    exact h
  label := by
    have h := (Component.rule tail).balances_merge_of_ne tail ho.1 hn.1 .label nofun fun _ hx =>
      Component.balances_label tail (ho.2 _ (mem_of_mem_shared hx).1)
        (hn.2 _ (mem_of_mem_shared hx).2)
    rw [(hasShared_old ho).labelsUnder_eq, (hasShared_new old new).labelsUnder_eq,
      (hasShared_merge tail ho hn).labelsUnder_eq, countP_locks ho]
    exact h
  value := by
    have h := (Component.rule tail).balances_merge_of_ne tail ho.1 hn.1 .value nofun fun _ hx =>
      Component.balances_value tail (ho.2 _ (mem_of_mem_shared hx).1)
        (hn.2 _ (mem_of_mem_shared hx).2)
    rw [List.sum_map_zero] at h
    rw [(hasShared_old ho).valuesUnder_eq ho, (hasShared_new old new).valuesUnder_eq ho,
      (hasShared_merge tail ho hn).valuesUnder_eq ho]
    exact h

theorem sharedStems_canonical (old new : Catalog) :
    sharedStems old new.canonical = sharedStems old new :=
  List.filter_congr fun stem _ => by rw [component?_canonical, Option.isSome_map]

theorem sharedMetrics_canonical (old new : Catalog) :
    sharedMetrics old new.canonical = sharedMetrics old new :=
  List.filter_congr fun p _ => by rw [metricAt?_canonical, Option.isSome_map]

theorem sharedLabels_canonical (old new : Catalog) :
    sharedLabels old new.canonical = sharedLabels old new :=
  List.filter_congr fun p _ => by rw [labelAt?_canonical, Option.isSome_map]

theorem metricsUnder_canonical (c : Catalog) (stems : List String) :
    c.canonical.metricsUnder stems = c.metricsUnder stems := by
  refine congrArg List.sum (List.map_congr_left fun stem _ => ?_)
  rw [component?_canonical]
  cases c.component? stem with
  | none => rfl
  | some x => exact length_map_sort Metric.canonical x.metrics

theorem labelsUnder_canonical (c : Catalog) (metrics : List (String × String)) :
    c.canonical.labelsUnder metrics = c.labelsUnder metrics := by
  refine congrArg List.sum (List.map_congr_left fun p _ => ?_)
  rw [metricAt?_canonical]
  cases c.metricAt? p.1 p.2 with
  | none => rfl
  | some m => exact length_map_sort Label.canonical m.labels

theorem valuesUnder_canonical (c : Catalog) (labels : List (String × String × String)) :
    c.canonical.valuesUnder labels = c.valuesUnder labels := by
  refine congrArg List.sum (List.map_congr_left fun p _ => ?_)
  rw [labelAt?_canonical]
  cases c.labelAt? p.1 p.2.1 p.2.2 with
  | none => rfl
  | some l => exact (sort_perm l.values).length_eq

/-- The report accounts for the run, under either policy. -/
theorem accounts_reconcile (tail : TailPolicy) (ho : old.Distinct) (hn : new.Distinct) :
    Accounts old new (updated tail old new) (reconcile tail old new).2 := by
  have hcanon : new.canonical.Distinct := (ascending_canonical hn).distinct
  have hcount : new.canonical.components.length = new.components.length :=
    length_map_sort Component.canonical new.components
  obtain ⟨hcomponent, hmetric, hlabel, hvalue⟩ := accounts_merge tail ho hcanon
  constructor
  · rwa [hcount] at hcomponent
  · rwa [sharedStems_canonical, metricsUnder_canonical] at hmetric
  · rwa [sharedMetrics_canonical, sharedLabels_canonical, labelsUnder_canonical] at hlabel
  · rwa [sharedLabels_canonical, valuesUnder_canonical] at hvalue

theorem accounts_sample :
    curatedSample.Distinct ∧ observedSample.Distinct ∧
    Accounts curatedSample observedSample (updated .truncate curatedSample observedSample)
      (reconcile .truncate curatedSample observedSample).2 ∧
    (reconcile .truncate curatedSample observedSample).2.components.combined +
      (reconcile .truncate curatedSample observedSample).2.components.pruned = 2 ∧
    (reconcile .truncate curatedSample observedSample).2.labels.locked = 1 ∧
    (reconcile .truncate curatedSample observedSample).2.values.combined +
      (reconcile .truncate curatedSample observedSample).2.values.pruned = 2 := by
  have ho : curatedSample.Distinct := by decide
  have hn : observedSample.Distinct := by decide
  have h := accounts_reconcile .truncate ho hn
  exact ⟨ho, hn, h, h.component.old.trans (by decide), h.label.locks.trans (by decide),
    h.value.old.trans (by decide)⟩

end Catalog

end MetricCatalog
