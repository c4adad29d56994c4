import MetricCatalog.Proofs.Idempotence
import MetricCatalog.Proofs.MergeReport
/-!
# Merging by an index

An index of the old elements tells, for each new one by itself, whether it is let
in, what it becomes, and how it is counted.  The merge, which walks both sides
once, gives the same sequence and counts the same at its own level.  The rules of
the four levels leave that level's counters alone, but for that of locks.
-/

namespace MetricCatalog

namespace Keyed

variable {α : Type} [Keyed α]

/-- The key is let in by the policy: under truncation it must not lie above the
greatest old key, if there is one. -/
def LetIn (tail : TailPolicy) (old : List String) (k : String) : Prop :=
  tail = .truncate → ∀ g ∈ old, (∀ k' ∈ old, k' ≤ g) → k ≤ g

instance (tail : TailPolicy) (old : List String) (k : String) : Decidable (LetIn tail old k) :=
  inferInstanceAs (Decidable (_ → ∀ g ∈ old, _ → _))

theorem exists_greatest {ks : List String} (h : ks ≠ []) : ∃ g ∈ ks, ∀ k ∈ ks, k ≤ g := by
  induction ks with
  | nil => exact absurd rfl h
  | cons k ks ih =>
      by_cases hks : ks = []
      · subst hks
        exact ⟨k, by simp, by simp⟩
      · obtain ⟨g, hg, hmax⟩ := ih hks
        by_cases hk : k ≤ g
        · refine ⟨g, List.mem_cons_of_mem _ hg, ?_⟩
          rw [List.forall_mem_cons]
          exact ⟨hk, hmax⟩
        · have hgk : g ≤ k := Std.le_of_lt (String.not_le.1 hk)
          refine ⟨k, List.mem_cons_self .., ?_⟩
          rw [List.forall_mem_cons]
          exact ⟨Std.le_refl k, fun k' hk' => Std.le_trans (hmax k' hk') hgk⟩

end Keyed

namespace MergeRule

open Keyed

variable {α : Type} [Keyed α] {rule : MergeRule α} {tail : TailPolicy} {old new : List α}

/-- To reach a new key the walk needs an old one that is not below it, and the
greatest old key is one if any is. -/
theorem letIn_iff (tail : TailPolicy) (ks : List String) (k : String) :
    LetIn tail ks k ↔ admits tail ks k = true := by
  cases tail with
  | appendNew => simp [LetIn, admits_appendNew]
  | truncate =>
      rw [admits, reaches, Bool.or_eq_true, List.isEmpty_iff, List.any_eq_true]
      constructor
      · intro h
        by_cases hks : ks = []
        · exact .inl hks
        · obtain ⟨g, hg, hmax⟩ := exists_greatest hks
          exact .inr ⟨g, hg, decide_eq_true (h rfl g hg hmax)⟩
      · intro h _ g hg hmax
        rcases h with rfl | ⟨o, ho, hle⟩
        · cases hg
        · exact Std.le_trans (of_decide_eq_true hle) (hmax o ho)

/-! ## What a rule counts at its own level -/

/-- Combining two elements counts nothing at their own level but a lock. -/
def CountsBelow (rule : MergeRule α) : Prop :=
  ∀ o n outcome, outcome ≠ .locked → (rule.combine o n).2.number rule.level outcome = 0

section

variable {level : Level} {outcome : Outcome}

theorem number_walk_eq_zero (hlevel : level ≠ rule.level)
    (h : ∀ o n, (rule.combine o n).2.number level outcome = 0) :
    (rule.walk tail old new).2.number level outcome = 0 := by
  induction old, new using walk.induct rule tail with
  | case1 new htail =>
      rw [htail, walk_nil_appendNew]
      simp [Report.number_count, hlevel]
  | case2 new htail =>
      rw [htail, walk_nil_truncate]
      simp [Report.number_count, hlevel]
  | case3 o old =>
      rw [walk_cons_nil]
      simp [Report.number_count, hlevel]
  | case4 o old n new hlt _ _ _ ih =>
      rw [walk_of_lt hlt]
      simp [Report.number_count, hlevel, ih]
  | case5 o old n new _ hgt _ _ _ ih =>
      rw [walk_of_gt hgt]
      simp [Report.number_count, hlevel, ih]
  | case6 o old n new hlt hgt _ _ _ _ _ _ ih =>
      have heq : key o = key n := Std.Trichotomous.trichotomous _ _ hlt hgt
      rw [walk_of_eq heq]
      simp [Report.number_count, hlevel, h, ih]

/-- Outside its own level a merge counts what its combinations count, whatever the
keys of its sides. -/
theorem number_merge_eq_zero (rule : MergeRule α) (hlevel : level ≠ rule.level)
    (h : ∀ o n, (rule.combine o n).2.number level outcome = 0) :
    (rule.merge tail old new).2.number level outcome = 0 := by
  unfold merge
  split
  · simp [Report.number_count, hlevel]
  · exact number_walk_eq_zero hlevel h

end

/-! ## The merge of one level -/

/-- The sequence and the counts of a merge, as an index of the old elements gives
them.  Only combinations count locks. -/
structure ByIndex (rule : MergeRule α) (tail : TailPolicy) (old new merged : List α)
    (report : Report) : Prop where
  ascending : Ascending merged
  elements : merged.Perm
    ((new.filter fun n => LetIn tail (keys old) (key n)).map fun n =>
      match find? (key n) old with
      | some o => (rule.combine o n).1
      | none => n)
  admitted : report.number rule.level .admitted =
    (keys new).countP fun k => k ∉ keys old ∧ LetIn tail (keys old) k
  combined : report.number rule.level .combined = (keys new).countP (· ∈ keys old)
  pruned : report.number rule.level .pruned = (keys old).countP (· ∉ keys new)
  skipped : report.number rule.level .skipped =
    (keys new).countP fun k => k ∉ keys old ∧ ¬ LetIn tail (keys old) k
  locked : report.number rule.level .locked =
    ((shared old new).map fun p => (rule.combine p.1 p.2).2.number rule.level .locked).sum

/-- The rule merges all sequences of unique keys, in any order, as an index would. -/
def MergesByIndex (rule : MergeRule α) (tail : TailPolicy) : Prop :=
  ∀ old new, Distinct old → Distinct new →
    ByIndex rule tail old new (rule.merge tail old new).1 (rule.merge tail old new).2

theorem merge_perm (rule : MergeRule α) (tail : TailPolicy) (old : List α) (hn : Distinct new) :
    (rule.merge tail old new).1.Perm
      ((new.filter fun n => LetIn tail (keys old) (key n)).map (rule.image old)) := by
  have hfilter : (fun n => decide (LetIn tail (keys old) (key n))) = admits tail old :=
    funext fun n => Bool.eq_iff_iff.2 (by rw [decide_eq_true_eq, letIn_iff, admits_keys])
  rw [rule.merge_fst tail old hn, hfilter]
  exact ((sort_perm new).filter _).map _

theorem number_merge_own (hrule : rule.CountsBelow) (tail : TailPolicy) (ho : Distinct old)
    (hn : Distinct new) (outcome : Outcome) (houtcome : outcome ≠ .locked) :
    (rule.merge tail old new).2.number rule.level outcome =
      (keyTally tail (keys old) (keys new)).number outcome := by
  have hinner : ((shared old new).map fun p =>
      (rule.combine p.1 p.2).2.number rule.level outcome).sum = 0 := by
    refine List.sum_eq_zero fun count hcount => ?_
    obtain ⟨p, -, rfl⟩ := List.mem_map.1 hcount
    exact hrule p.1 p.2 outcome houtcome
  rw [rule.number_merge tail ho hn, if_pos rfl, hinner, Nat.add_zero]

theorem CountsBelow.mergesByIndex (hrule : rule.CountsBelow)
    (hkey : ∀ o n, key o = key n → key (rule.combine o n).1 = key n) (tail : TailPolicy) :
    rule.MergesByIndex tail := by
  intro old new ho hn
  have hcount := number_merge_own hrule tail ho hn
  constructor
  · exact rule.ascending_merge tail old hn hkey
  · exact rule.merge_perm tail old hn
  · rw [hcount .admitted nofun]
    simp only [letIn_iff]
    rfl
  · exact hcount .combined nofun
  · exact hcount .pruned nofun
  · rw [hcount .skipped nofun]
    simp only [letIn_iff, Bool.not_eq_true]
    rfl
  · rw [rule.number_merge tail ho hn, if_pos rfl]
    exact Nat.zero_add _

end MergeRule

/-! ## The four levels -/

open MergeRule

variable {level : Level} {outcome : Outcome}

theorem LabelValue.countsBelow : LabelValue.rule.CountsBelow :=
  fun _ _ outcome _ => Report.number_zero .value outcome

theorem Label.number_combine_eq_zero (tail : TailPolicy) (hvalue : level ≠ .value)
    (hlock : level = .label → outcome ≠ .locked) (old new : Label) :
    (Label.combine tail old new).2.number level outcome = 0 := by
  rw [combine_snd]
  split
  · rw [Report.number_count, if_neg]
    rintro ⟨hlevel, houtcome⟩
    exact hlock hlevel houtcome
  · exact LabelValue.rule.number_merge_eq_zero hvalue fun _ _ => Report.number_zero level outcome

theorem Label.countsBelow (tail : TailPolicy) : (Label.rule tail).CountsBelow :=
  fun o n _ houtcome =>
    @Label.number_combine_eq_zero .label _ tail nofun (fun _ => houtcome) o n

theorem Metric.number_combine_eq_zero (tail : TailPolicy)
    (hlevel : level = .metric ∨ level = .component) (old new : Metric) :
    (Metric.combine tail old new).2.number level outcome = 0 := by
  have hvalue : level ≠ .value := by rcases hlevel with rfl | rfl <;> decide
  have hlabel : level ≠ .label := by rcases hlevel with rfl | rfl <;> decide
  exact (Label.rule tail).number_merge_eq_zero hlabel
    (Label.number_combine_eq_zero tail hvalue fun h => absurd h hlabel)

theorem Metric.countsBelow (tail : TailPolicy) : (Metric.rule tail).CountsBelow :=
  fun o n _ _ => Metric.number_combine_eq_zero tail (.inl rfl) o n

theorem Component.countsBelow (tail : TailPolicy) : (Component.rule tail).CountsBelow :=
  fun _ _ _ _ => (Metric.rule tail).number_merge_eq_zero nofun
    (Metric.number_combine_eq_zero tail (.inr rfl))

/-- The merges of all four levels are those of an index, whichever policy the
rule has for the levels below. -/
theorem merges_by_index (below tail : TailPolicy) :
    LabelValue.rule.MergesByIndex tail ∧ (Label.rule below).MergesByIndex tail ∧
      (Metric.rule below).MergesByIndex tail ∧ (Component.rule below).MergesByIndex tail := by
  refine ⟨?_, ?_, ?_, ?_⟩
  · exact LabelValue.countsBelow.mergesByIndex (fun _ _ h => h) tail
  · exact (Label.countsBelow below).mergesByIndex (fun _ _ h => h) tail
  · exact (Metric.countsBelow below).mergesByIndex (fun _ _ h => h) tail
  · exact (Component.countsBelow below).mergesByIndex (fun _ _ h => h) tail

def heldLabels : List Label := [
  { name := "b", locked := true, values := [{ value := "y" }, { value := "x" }] }, { name := "a" }]

def seenLabels : List Label := [
  { name := "c" }, { name := "b", fixed := true, values := [{ value := "z" }] }, { name := "aa" }]

/-- One label of each fate, and a lock. -/
theorem merges_by_index_labels :
    Keyed.Distinct heldLabels ∧ Keyed.Distinct seenLabels ∧
    ByIndex (Label.rule .truncate) .truncate heldLabels seenLabels
      [{ name := "aa" },
        { name := "b", locked := true, fixed := true,
          values := [{ value := "x" }, { value := "y" }] }]
      ((Label.rule .truncate).merge .truncate heldLabels seenLabels).2 ∧
    ((Label.rule .truncate).merge .truncate heldLabels seenLabels).2.labels = ⟨1, 1, 1, 1, 1⟩ := by
  have ho : (Keyed.keys heldLabels).Nodup := by decide
  have hn : (Keyed.keys seenLabels).Nodup := by decide
  have h := (merges_by_index .truncate .truncate).2.1 heldLabels seenLabels ho hn
  refine ⟨ho, hn, ?_, ?_⟩
  · have hmerged : ((Label.rule .truncate).merge .truncate heldLabels seenLabels).1 =
        [{ name := "aa" },
          { name := "b", locked := true, fixed := true,
            values := [{ value := "x" }, { value := "y" }] }] := by
      rw [(Label.rule .truncate).merge_fst .truncate heldLabels hn]
      decide
    rwa [hmerged] at h
  · exact (Tally.mk.injEq ..).mpr ⟨h.admitted.trans (by decide), h.combined.trans (by decide),
      h.pruned.trans (by decide), h.skipped.trans (by decide), h.locked.trans (by decide)⟩

end MetricCatalog
