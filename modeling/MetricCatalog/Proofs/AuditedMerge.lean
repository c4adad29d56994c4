import MetricCatalog.Proofs.KeyLevels
import MetricCatalog.Proofs.MergeReport
import MetricCatalog.Reconcile.Basic
/-!
# Merging under assertions

A merge asks that neither side repeats a key.  The audited merge is the same
walk, which also notes every call with the keys it was given and stops at a
side that is not strictly ascending once it is sorted.  Which calls there are can
be read off the two sides: a merge's own, and after it those of the combinations,
for each key of both sides in turn.  The first of them that repeats a key stops
the run; a run that none of them stops has noted them all and answers what the
plain merge does.
-/

namespace MetricCatalog

open Keyed

inductive MergeSide
  | persisted
  | observed
deriving DecidableEq

/-- A side of a merge that is not strictly ascending although it is sorted. -/
structure MergeFault where
  level : Level
  side : MergeSide
deriving DecidableEq

/-- The keys that a merge was called with, in the order they had. -/
structure MergeCall where
  level : Level
  old : List String
  new : List String

/-- No key occurs twice on either side. -/
def MergeCall.Distinct (call : MergeCall) : Prop := call.old.Nodup ∧ call.new.Nodup

/-- A computation that notes the merges it makes and may stop at one. -/
abbrev Audited (α : Type) := StateT (List MergeCall) (Except MergeFault) α

/-! ## The audited merge -/

/-- A rule whose combination is audited too. -/
structure AuditedRule (α : Type) where
  level : Level
  combine : (old new : α) → Audited (α × Report)

namespace AuditedRule

variable {α : Type} [Keyed α]

def walk (rule : AuditedRule α) (tail : TailPolicy) :
    (old new : List α) → Audited (List α × Report)
  | [], new =>
    match tail with
    | .appendNew => return (new, .count rule.level .admitted new.length)
    | .truncate => return ([], .count rule.level .skipped new.length)
  | o :: old, [] => return ([], .count rule.level .pruned (old.length + 1))
  | o :: old, n :: new =>
    if key o < key n then do
      let (merged, report) ← walk rule tail old (n :: new)
      return (merged, .count rule.level .pruned 1 + report)
    else if key n < key o then do
      let (merged, report) ← walk rule tail (o :: old) new
      return (n :: merged, .count rule.level .admitted 1 + report)
    else do
      let (both, inner) ← rule.combine o n
      let (merged, report) ← walk rule tail old new
      return (both :: merged, inner + .count rule.level .combined 1 + report)
termination_by old new => old.length + new.length

def merge (rule : AuditedRule α) (tail : TailPolicy) (old new : List α) :
    Audited (List α × Report) := do
  modify (⟨rule.level, keys old, keys new⟩ :: ·)
  if isAscending (sort old) = false then throw ⟨rule.level, .persisted⟩
  else if isAscending (sort new) = false then throw ⟨rule.level, .observed⟩
  else if old.isEmpty then return (sort new, .count rule.level .admitted new.length)
  else rule.walk tail (sort old) (sort new)

end AuditedRule

def LabelValue.auditedRule : AuditedRule LabelValue where
  level := .value
  combine old _ := return (old, .zero)

/-- The values of a label; a locked one makes no merge. -/
def Label.auditedValues (tail : TailPolicy) (old new : Label) :
    Audited (List LabelValue × Report) :=
  if old.locked then return (sort old.values, .count .label .locked 1)
  else LabelValue.auditedRule.merge tail old.values new.values

def Label.auditedCombine (tail : TailPolicy) (old new : Label) : Audited (Label × Report) := do
  let (values, report) ← Label.auditedValues tail old new
  return ({ old with fixed := new.fixed, values }, report)

def Label.auditedRule (tail : TailPolicy) : AuditedRule Label where
  level := .label
  combine := Label.auditedCombine tail

def Metric.auditedCombine (tail : TailPolicy) (old new : Metric) : Audited (Metric × Report) := do
  let (labels, report) ← (Label.auditedRule tail).merge tail old.labels new.labels
  return ({ old with kind := new.kind, help := new.help, unit := new.unit, labels }, report)

def Metric.auditedRule (tail : TailPolicy) : AuditedRule Metric where
  level := .metric
  combine := Metric.auditedCombine tail

def Component.auditedCombine (tail : TailPolicy) (old new : Component) :
    Audited (Component × Report) := do
  let (metrics, report) ← (Metric.auditedRule tail).merge tail old.metrics new.metrics
  return ({ old with metrics }, report)

def Component.auditedRule (tail : TailPolicy) : AuditedRule Component where
  level := .component
  combine := Component.auditedCombine tail

def Catalog.auditedReconcile (tail : TailPolicy) (current observed : Catalog) :
    Audited (Catalog × Report) := do
  let (components, report) ←
    (Component.auditedRule tail).merge tail current.components observed.canonical.components
  return ({ current with components }, report)

/-! ## The calls of a merge -/

namespace MergeCall

/-- Stops at a side on which a key occurs twice. -/
def check (call : MergeCall) : Except MergeFault Unit :=
  if ¬ call.old.Nodup then throw ⟨call.level, .persisted⟩
  else if ¬ call.new.Nodup then throw ⟨call.level, .observed⟩
  else return ()

variable {level : Level} {old new : List String}

theorem check_of_old (ho : ¬ old.Nodup) : check ⟨level, old, new⟩ = .error ⟨level, .persisted⟩ := by
  rw [check, if_pos ho]
  rfl

theorem check_of_new (ho : old.Nodup) (hn : ¬ new.Nodup) :
    check ⟨level, old, new⟩ = .error ⟨level, .observed⟩ := by
  rw [check, if_neg (not_not.2 ho), if_pos hn]
  rfl

theorem check_of_distinct (ho : old.Nodup) (hn : new.Nodup) : check ⟨level, old, new⟩ = .ok () := by
  rw [check, if_neg (not_not.2 ho), if_neg (not_not.2 hn)]
  rfl

theorem check_eq_ok {call : MergeCall} : call.check = .ok () ↔ call.Distinct := by
  obtain ⟨level, old, new⟩ := call
  refine ⟨fun h => ?_, fun h => check_of_distinct h.1 h.2⟩
  by_cases ho : old.Nodup
  · by_cases hn : new.Nodup
    · exact ⟨ho, hn⟩
    · rw [check_of_new ho hn] at h
      cases h
  · rw [check_of_old ho] at h
    cases h

theorem forM_check_eq_ok {calls : List MergeCall} :
    forM calls check = .ok () ↔ ∀ call ∈ calls, call.Distinct := by
  induction calls with
  | nil => exact ⟨fun _ _ h => (List.not_mem_nil h).elim, fun _ => rfl⟩
  | cons call calls ih =>
      rw [List.forM_cons, List.forall_mem_cons, ← check_eq_ok, ← ih]
      cases call.check <;> simp [bind, Except.bind]

end MergeCall

namespace Keyed

variable {α : Type} [Keyed α] {old new : List α}

/-- A merge's own call, and then those below it for each key of both sides. -/
def mergeCalls (level : Level) (below : (old new : α) → List MergeCall) (old new : List α) :
    List MergeCall :=
  ⟨level, keys old, keys new⟩ ::
    (shared (sort old) (sort new)).flatMap fun p => below p.1 p.2

theorem mem_mergeCalls {level : Level} {below : α → α → List MergeCall} {call : MergeCall} :
    call ∈ mergeCalls level below old new ↔
      call = ⟨level, keys old, keys new⟩ ∨
        ∃ p ∈ shared (sort old) (sort new), call ∈ below p.1 p.2 := by
  rw [mergeCalls, List.mem_cons, List.mem_flatMap]

theorem distinct_of_mem_mergeCalls {level : Level} {below : α → α → List MergeCall}
    (ho : Distinct old) (hn : Distinct new)
    (hbelow : ∀ o ∈ old, ∀ n ∈ new, ∀ call ∈ below o n, call.Distinct) :
    ∀ call ∈ mergeCalls level below old new, call.Distinct := by
  intro call hcall
  rcases mem_mergeCalls.1 hcall with rfl | ⟨p, hp, hmem⟩
  · exact ⟨ho, hn⟩
  · obtain ⟨hold, hnew⟩ := mem_of_mem_shared hp
    exact hbelow p.1 (mem_sort.1 hold) p.2 (mem_sort.1 hnew) call hmem

theorem isAscending_sort_eq_false : isAscending (sort old) = false ↔ ¬ Distinct old := by
  rw [← isAscending_sort_iff, Bool.not_eq_true]

/-! What the two sides share, as the walk finds it. -/

theorem shared_nil (old : List α) : shared old [] = [] :=
  List.filterMap_eq_nil_iff.2 fun _ _ => rfl

theorem shared_cons_of_lt {n : α} (hall : ∀ o ∈ old, key n < key o) :
    shared old (n :: new) = shared old new :=
  List.filterMap_congr fun o ho => by rw [MergeRule.find?_cons_of_lt (hall o ho)]

theorem shared_cons_of_none {o : α} (h : find? (key o) new = none) :
    shared (o :: old) new = shared old new :=
  List.filterMap_cons_none (by rw [h]; rfl)

theorem shared_cons_of_eq {o n : α} (ho : Ascending (o :: old)) (heq : key o = key n) :
    shared (o :: old) (n :: new) = (o, n) :: shared old new := by
  have hfind : find? (key o) (n :: new) = some n := by rw [find?_cons, if_pos heq.symm]
  have hrest : shared old (n :: new) = shared old new :=
    shared_cons_of_lt (ho.lt_of_eq_head heq.symm)
  rw [← hrest]
  exact List.filterMap_cons_some (by rw [hfind]; rfl)

end Keyed

/-! ## What an audited run does -/

/-- The computation makes these calls one after the other.  It stops at the first
that repeats a key, and otherwise it has noted them all and answers `a`. -/
def Audits {α : Type} (m : Audited α) (a : α) (calls : List MergeCall) : Prop :=
  ∀ log, m.run log = (forM calls MergeCall.check).map fun _ => (a, calls.reverse ++ log)

section

variable {α β : Type} {m : Audited α} {a : α} {calls : List MergeCall}

theorem Audits.eq_ok_iff (h : Audits m a calls) {log : List MergeCall}
    {r : α × List MergeCall} :
    m.run log = .ok r ↔ r = (a, calls.reverse ++ log) ∧ ∀ call ∈ calls, call.Distinct := by
  rw [h log, ← MergeCall.forM_check_eq_ok]
  cases forM calls MergeCall.check <;> simp [Except.map, eq_comm]

theorem Audits.pure (a : α) : Audits (Pure.pure a) a [] := fun _ => rfl

theorem Audits.bind {f : α → Audited β} {b : β} {more : List MergeCall} (hm : Audits m a calls)
    (hf : Audits (f a) b more) : Audits (m >>= f) b (calls ++ more) := by
  intro log
  rw [StateT.run_bind, hm log, List.forM_append]
  cases forM calls MergeCall.check with
  | error fault => rfl
  | ok u =>
      rw [List.reverse_append, List.append_assoc]
      exact hf (calls.reverse ++ log)

/-- What is done with the answer makes no difference to the calls. -/
theorem Audits.bind_pure {f : α → Audited β} {b : β} (hm : Audits m a calls)
    (hf : f a = Pure.pure b) : Audits (m >>= f) b calls := by
  rw [← List.append_nil calls]
  exact hm.bind (hf ▸ .pure b)

end

/-- An audited rule combines as the plain one does, and these are its calls. -/
structure AuditedRule.Follows {α : Type} (audited : AuditedRule α) (rule : MergeRule α)
    (below : (old new : α) → List MergeCall) : Prop where
  level : audited.level = rule.level
  combine : ∀ o n, Audits (audited.combine o n) (rule.combine o n) (below o n)

/-- The assertions of a merge are those of its call. -/
theorem AuditedRule.run_merge {α : Type} [Keyed α] (audited : AuditedRule α) (tail : TailPolicy)
    (old new : List α) (log : List MergeCall) :
    (audited.merge tail old new).run log =
      (MergeCall.check ⟨audited.level, keys old, keys new⟩).bind fun _ =>
        StateT.run
          (if old.isEmpty then
            Pure.pure (sort new, .count audited.level .admitted new.length)
          else audited.walk tail (sort old) (sort new))
          (⟨audited.level, keys old, keys new⟩ :: log) := by
  unfold AuditedRule.merge
  by_cases ho : Distinct old
  · have hold : isAscending (sort old) = true := isAscending_sort_iff.2 ho
    by_cases hn : Distinct new
    · have hnew : isAscending (sort new) = true := isAscending_sort_iff.2 hn
      rw [MergeCall.check_of_distinct ho hn, hold, hnew]
      rfl
    · have hnew : isAscending (sort new) = false := isAscending_sort_eq_false.2 hn
      rw [MergeCall.check_of_new ho hn, hold, hnew]
      rfl
  · have hold : isAscending (sort old) = false := isAscending_sort_eq_false.2 ho
    rw [MergeCall.check_of_old ho, hold]
    rfl

namespace AuditedRule.Follows

variable {α : Type} [Keyed α] {audited : AuditedRule α} {rule : MergeRule α}
  {below : α → α → List MergeCall} {old new : List α}

/-- The walk meets the keys of both sides in their order.  That both sides ascend is
what makes a smaller head one that the other side does not have. -/
theorem walk (h : audited.Follows rule below) (tail : TailPolicy) (ho : Ascending old)
    (hn : Ascending new) :
    Audits (audited.walk tail old new) (rule.walk tail old new)
      ((shared old new).flatMap fun p => below p.1 p.2) := by
  induction old, new using MergeRule.walk.induct rule tail with
  | case1 new htail =>
      subst htail
      rw [MergeRule.walk_nil_appendNew, AuditedRule.walk, h.level]
      exact .pure _
  | case2 new htail =>
      subst htail
      rw [MergeRule.walk_nil_truncate, AuditedRule.walk, h.level]
      exact .pure _
  | case3 o old =>
      rw [MergeRule.walk_cons_nil, AuditedRule.walk, h.level, shared_nil]
      exact .pure _
  | case4 o old n new hlt _ _ _ ih =>
      -- `o` lies below everything new, so no call comes of it
      have hnone : find? (key o) (n :: new) = none := MergeRule.find?_eq_none_of_gt hn.sorted hlt
      rw [MergeRule.walk_of_lt hlt, AuditedRule.walk, if_pos hlt, h.level,
        shared_cons_of_none hnone]
      exact (ih ho.of_cons hn).bind_pure rfl
  | case5 o old n new hlt hgt _ _ _ ih =>
      rw [MergeRule.walk_of_gt hgt, AuditedRule.walk, if_neg hlt, if_pos hgt, h.level,
        shared_cons_of_lt (ho.lt_of_lt_head hgt)]
      exact (ih ho hn.of_cons).bind_pure rfl
  | case6 o old n new hlt hgt _ _ _ _ _ _ ih =>
      have heq : key o = key n := Std.Trichotomous.trichotomous _ _ hlt hgt
      rw [MergeRule.walk_of_eq heq, AuditedRule.walk, if_neg hlt, if_neg hgt, h.level,
        shared_cons_of_eq ho heq]
      exact (h.combine o n).bind ((ih ho.of_cons hn.of_cons).bind_pure rfl)

/-- A merge is stopped by its own call, or goes on to those below it. -/
theorem merge (h : audited.Follows rule below) (tail : TailPolicy) (old new : List α) :
    Audits (audited.merge tail old new) (rule.merge tail old new)
      (mergeCalls rule.level below old new) := by
  intro log
  rw [audited.run_merge, h.level, mergeCalls, List.forM_cons]
  cases hcheck : MergeCall.check ⟨rule.level, keys old, keys new⟩ with
  | error fault => rfl
  | ok u =>
      obtain ⟨ho, hn⟩ := MergeCall.check_eq_ok.1 hcheck
      rw [List.reverse_cons, List.append_assoc]
      unfold MergeRule.merge
      split
      · next hempty =>
        obtain rfl := List.isEmpty_iff.1 hempty
        rfl
      · exact h.walk tail (Distinct.ascending_sort ho) (Distinct.ascending_sort hn) _

end AuditedRule.Follows

/-! ## Level by level -/

def Label.mergeCalls (old new : Label) : List MergeCall :=
  if old.locked then []
  else Keyed.mergeCalls .value (fun _ _ => []) old.values new.values

def Metric.mergeCalls (old new : Metric) : List MergeCall :=
  Keyed.mergeCalls .label Label.mergeCalls old.labels new.labels

def Component.mergeCalls (old new : Component) : List MergeCall :=
  Keyed.mergeCalls .metric Metric.mergeCalls old.metrics new.metrics

def Catalog.mergeCalls (current observed : Catalog) : List MergeCall :=
  Keyed.mergeCalls .component Component.mergeCalls current.components
    observed.canonical.components

theorem LabelValue.follows :
    LabelValue.auditedRule.Follows LabelValue.rule fun _ _ => [] where
  level := rfl
  combine _ _ := .pure _

theorem Label.follows (tail : TailPolicy) :
    (Label.auditedRule tail).Follows (Label.rule tail) Label.mergeCalls where
  level := rfl
  combine old new := by
    have hvalues : Audits (Label.auditedValues tail old new)
        (if old.locked then (sort old.values, Report.count .label .locked 1)
          else LabelValue.rule.merge tail old.values new.values) (mergeCalls old new) := by
      unfold auditedValues mergeCalls
      split
      · exact .pure _
      · exact LabelValue.follows.merge tail old.values new.values
    exact hvalues.bind_pure rfl

theorem Metric.follows (tail : TailPolicy) :
    (Metric.auditedRule tail).Follows (Metric.rule tail) Metric.mergeCalls where
  level := rfl
  combine old new := ((Label.follows tail).merge tail old.labels new.labels).bind_pure rfl

theorem Component.follows (tail : TailPolicy) :
    (Component.auditedRule tail).Follows (Component.rule tail) Component.mergeCalls where
  level := rfl
  combine old new := ((Metric.follows tail).merge tail old.metrics new.metrics).bind_pure rfl

theorem Catalog.audits_reconcile (tail : TailPolicy) (current observed : Catalog) :
    Audits (auditedReconcile tail current observed) (reconcile tail current observed)
      (mergeCalls current observed) :=
  ((Component.follows tail).merge tail current.components
    observed.canonical.components).bind_pure rfl

/-- Whatever the two catalogs are, an audited run that comes to an end answers
what the plain one does.  It has noted every call, and none of them repeats a key. -/
theorem Catalog.auditedReconcile_eq_ok_iff {tail : TailPolicy} {current observed : Catalog}
    {log : List MergeCall} {r : (Catalog × Report) × List MergeCall} :
    (auditedReconcile tail current observed).run log = .ok r ↔
      r = (reconcile tail current observed, (mergeCalls current observed).reverse ++ log) ∧
        ∀ call ∈ mergeCalls current observed, call.Distinct :=
  (audits_reconcile tail current observed).eq_ok_iff

/-! ## Unique keys -/

theorem Label.distinct_mergeCalls {old new : Label} (ho : old.AllKeys List.Nodup)
    (hn : new.AllKeys List.Nodup) : ∀ call ∈ mergeCalls old new, call.Distinct := by
  unfold mergeCalls
  split
  · exact fun _ h => (List.not_mem_nil h).elim
  · exact distinct_of_mem_mergeCalls ho hn fun _ _ _ _ _ h => (List.not_mem_nil h).elim

theorem Metric.distinct_mergeCalls {old new : Metric} (ho : old.AllKeys List.Nodup)
    (hn : new.AllKeys List.Nodup) : ∀ call ∈ mergeCalls old new, call.Distinct :=
  distinct_of_mem_mergeCalls ho.1 hn.1 fun o hmem n hnmem =>
    Label.distinct_mergeCalls (ho.2 o hmem) (hn.2 n hnmem)

theorem Component.distinct_mergeCalls {old new : Component} (ho : old.AllKeys List.Nodup)
    (hn : new.AllKeys List.Nodup) : ∀ call ∈ mergeCalls old new, call.Distinct :=
  distinct_of_mem_mergeCalls ho.1 hn.1 fun o hmem n hnmem =>
    Metric.distinct_mergeCalls (ho.2 o hmem) (hn.2 n hnmem)

/-- Unique keys on both sides pass every assertion on the way. -/
theorem Catalog.distinct_mergeCalls {current observed : Catalog} (hc : current.Distinct)
    (ho : observed.Distinct) : ∀ call ∈ mergeCalls current observed, call.Distinct := by
  have hn : observed.canonical.Distinct := (ascending_canonical ho).distinct
  exact distinct_of_mem_mergeCalls hc.1 hn.1 fun o hmem n hnmem =>
    Component.distinct_mergeCalls (hc.2 o hmem) (hn.2 n hnmem)

end MetricCatalog
