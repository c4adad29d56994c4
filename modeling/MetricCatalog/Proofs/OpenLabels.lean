import MetricCatalog.Proofs.Paths
import MetricCatalog.Proofs.Refresh
import MetricCatalog.Proofs.Validation
/-!
# Open labels that list values

The snapshot says whether a label is open, and a lock says whose values it keeps.
So the two can disagree at a locked label only.  To see it, what stands at a path
of a reconciled catalog is traced to what stands there on either side, level by
level and under both tail policies.
-/

namespace MetricCatalog

open Keyed

/-! ## One place of a result -/

/-- A result has in some place the new element of the place, made from it and from
the old one.  Only where there is no old one may the new one be left out. -/
def Traced {α : Type} (make : Option α → α → α) (old? new? result? : Option α) : Prop :=
  result? = new?.map (make old?) ∨ (old? = none ∧ result? = none)

namespace Traced

variable {α β : Type} {make : Option α → α → α} {makeBelow : Option β → β → β}
variable {old? new? result? : Option α}

theorem exists_new (h : Traced make old? new? result?) {x : α} (hx : x ∈ result?) :
    ∃ n ∈ new?, x = make old? n := by
  rcases h with rfl | ⟨-, rfl⟩
  · obtain ⟨n, hn, rfl⟩ := Option.map_eq_some_iff.1 (Option.mem_def.1 hx)
    exact ⟨n, hn, rfl⟩
  · cases hx

/-- What is on both sides is not left out. -/
theorem of_both {o n : α} (h : Traced make old? new? result?) (ho : o ∈ old?) (hn : n ∈ new?) :
    make (some o) n ∈ result? := by
  obtain rfl := Option.mem_def.1 ho
  obtain rfl := Option.mem_def.1 hn
  rcases h with rfl | ⟨hnone, -⟩
  · rfl
  · cases hnone

/-- The same one level further down. -/
theorem bind (h : Traced make old? new? result?) (below : α → Option β)
    (hbelow : ∀ n ∈ new?,
      Traced makeBelow (old?.bind below) (below n) (below (make old? n))) :
    Traced makeBelow (old?.bind below) (new?.bind below) (result?.bind below) := by
  rcases h with rfl | ⟨rfl, rfl⟩
  · cases new? with
    | none => exact .inl rfl
    | some n => exact hbelow n rfl
  · exact .inr ⟨rfl, rfl⟩

end Traced

namespace MergeRule

variable {α : Type} [Keyed α] {new : List α}

/-- A new element of a merge, combined with the old one of its key if there is one. -/
def make (rule : MergeRule α) (canon : α → α) (old? : Option α) (n : α) : α :=
  old?.elim (canon n) fun o => (rule.combine o (canon n)).1

theorem traced_merge (rule : MergeRule α) (tail : TailPolicy) {canon : α → α}
    (hcanon : ∀ n, key (canon n) = key n)
    (hkey : ∀ o n, key o = key n → key (rule.combine o n).1 = key n) (old : List α)
    (hn : Distinct new) (k : String) :
    Traced (rule.make canon) (find? k old) (find? k new)
      (find? k (rule.merge tail old ((sort new).map canon)).1) := by
  have hd : Distinct ((sort new).map canon) := (distinct_map_sort hcanon).2 hn
  have hlookup : find? k ((sort new).map canon) = (find? k new).map canon := by
    rw [find?_map hcanon, find?_sort]
  cases hnew : find? k new with
  | none =>
      rw [hnew] at hlookup
      exact .inl (rule.find?_merge_of_not_new tail hd hkey old hlookup)
  | some n =>
      rw [hnew] at hlookup
      cases hold : find? k old with
      | some o => exact .inl (rule.find?_merge_of_both tail hd hkey hlookup hold)
      | none =>
          rw [rule.find?_merge_of_not_old tail hd hkey hlookup hold]
          split
          · exact .inl rfl
          · exact .inr ⟨rfl, rfl⟩

/-- With nothing new a merge is empty. -/
theorem merge_nil_fst (rule : MergeRule α) (tail : TailPolicy) (old : List α) :
    (rule.merge tail old []).1 = [] := by
  have hd : Distinct ([] : List α) := List.nodup_nil
  rw [rule.merge_fst tail old hd]
  rfl

end MergeRule

/-! ## Every path of a reconciled catalog -/

section

variable (tail : TailPolicy)

/-- What reconciling makes of an observed label, where the catalog has `old?`. -/
def Label.make (old? : Option Label) (new : Label) : Label :=
  (Label.rule tail).make Label.canonical old? new

def Metric.make (old? : Option Metric) (new : Metric) : Metric :=
  (Metric.rule tail).make Metric.canonical old? new

def Component.make (old? : Option Component) (new : Component) : Component :=
  (Component.rule tail).make Component.canonical old? new

theorem Metric.traced_label? (old? : Option Metric) {new : Metric} (hn : Distinct new.labels)
    (name : String) :
    Traced (Label.make tail) (old?.bind (·.label? name)) (new.label? name)
      ((Metric.make tail old? new).label? name) := by
  cases old? with
  | none => exact .inl (new.label?_canonical name)
  | some old =>
      exact (Label.rule tail).traced_merge tail Label.key_canonical (fun _ _ h => h) old.labels hn
        name

theorem Component.traced_metric? (old? : Option Component) {new : Component}
    (hn : Distinct new.metrics) (name : String) :
    Traced (Metric.make tail) (old?.bind (·.metric? name)) (new.metric? name)
      ((Component.make tail old? new).metric? name) := by
  cases old? with
  | none => exact .inl (new.metric?_canonical name)
  | some old =>
      exact (Metric.rule tail).traced_merge tail Metric.key_canonical (fun _ _ h => h) old.metrics
        hn name

namespace Catalog

variable (old : Catalog) {new : Catalog} (hn : new.Distinct)
include hn

theorem traced_component? (stem : String) :
    Traced (Component.make tail) (old.component? stem) (new.component? stem)
      ((updated tail old new).component? stem) :=
  (Component.rule tail).traced_merge tail Component.key_canonical (fun _ _ h => h) old.components
    hn.1 stem

theorem traced_metricAt? (stem name : String) :
    Traced (Metric.make tail) (old.metricAt? stem name) (new.metricAt? stem name)
      ((updated tail old new).metricAt? stem name) := by
  refine (traced_component? tail old hn stem).bind (·.metric? name) fun x hx => ?_
  exact Component.traced_metric? tail _ (hn.2 x (mem_of_find? hx)).1 name

theorem traced_labelAt? (stem metric name : String) :
    Traced (Label.make tail) (old.labelAt? stem metric name) (new.labelAt? stem metric name)
      ((updated tail old new).labelAt? stem metric name) := by
  refine (traced_metricAt? tail old hn stem metric).bind (·.label? name) fun m hm => ?_
  obtain ⟨x, hx, hm⟩ := Option.bind_eq_some_iff.1 hm
  exact Metric.traced_label? tail _ ((hn.2 x (mem_of_find? hx)).2 m (mem_of_find? hm)).1 name

end Catalog

end

/-! ## Open labels -/

/-- An open label that lists values all the same. -/
def Label.Overfull (l : Label) : Prop := l.fixed = false ∧ l.values ≠ []

theorem Label.fixed_make (tail : TailPolicy) (old? : Option Label) (new : Label) :
    (Label.make tail old? new).fixed = new.fixed := by
  cases old? <;> rfl

/-- Where nothing is observed, only a lock keeps values. -/
theorem Label.values_make_of_nil (tail : TailPolicy) (old? : Option Label) {new : Label}
    (h : new.values = []) :
    (Label.make tail old? new).values =
      old?.elim [] fun old => if old.locked then sort old.values else [] := by
  cases old? with
  | none =>
      show sort new.values = []
      rw [h, sort_nil]
  | some old =>
      show (Label.combine tail old new.canonical).1.values = _
      rw [combine_fst, canonical, h, sort_nil, LabelValue.rule.merge_nil_fst]
      rfl

theorem Label.overfull_make_iff (tail : TailPolicy) (old? : Option Label) {new : Label}
    (h : new.fixed = false → new.values = []) :
    (Label.make tail old? new).Overfull ↔
      (∃ old ∈ old?, old.locked = true ∧ old.values ≠ []) ∧ new.fixed = false := by
  rw [Overfull, fixed_make, and_comm]
  refine and_congr_left fun hopen => ?_
  rw [values_make_of_nil tail old? (h hopen)]
  cases old? with
  | none => simp
  | some old =>
      have hsort : sort old.values = [] ↔ old.values = [] := by
        rw [← List.length_eq_zero_iff, (sort_perm old.values).length_eq, List.length_eq_zero_iff]
      cases hlocked : old.locked <;> simp [hlocked, hsort]

namespace Catalog

variable {c : Catalog}

theorem mem_labels_of_labelAt? {stem metric name : String} {l : Label}
    (h : l ∈ c.labelAt? stem metric name) : l ∈ c.labels := by
  obtain ⟨m, hm, hl⟩ := Option.bind_eq_some_iff.1 h
  obtain ⟨x, hx, hm⟩ := Option.bind_eq_some_iff.1 hm
  exact mem_labels.2 ⟨m, mem_metrics.2 ⟨x, mem_of_find? hx, mem_of_find? hm⟩, mem_of_find? hl⟩

/-- With unique keys each label stands at a path. -/
theorem Distinct.exists_labelAt? (h : c.Distinct) {l : Label} (hl : l ∈ c.labels) :
    ∃ stem metric name, l ∈ c.labelAt? stem metric name := by
  obtain ⟨m, hm, hl⟩ := mem_labels.1 hl
  obtain ⟨x, hx, hm⟩ := mem_metrics.1 hm
  have hcomponent : x ∈ c.component? x.stem := Keyed.Distinct.find?_key h.1 hx
  have hmetric : m ∈ c.metricAt? x.stem m.name := by
    rw [metricAt?_of_component? hcomponent]
    exact Keyed.Distinct.find?_key (h.2 x hx).1 hm
  refine ⟨x.stem, m.name, l.name, ?_⟩
  rw [labelAt?_of_metricAt? hmetric]
  exact Keyed.Distinct.find?_key ((h.2 x hx).2 m hm).1 hl

/-- Where no observed label is open and lists values, a label of the reconciled catalog
is and does just where the catalog had locked a list that was not empty and the snapshot
shows the label open.  So such a label is locked, and any label that is not locked and
turns out open loses its values. -/
theorem overfull_updated_iff (tail : TailPolicy) {old new : Catalog} (ho : old.Distinct)
    (hn : new.Distinct) (hopen : ∀ l ∈ new.labels, l.fixed = false → l.values = []) :
    (∀ stem metric name,
      (∃ l ∈ (updated tail old new).labelAt? stem metric name, l.Overfull) ↔
        (∃ o ∈ old.labelAt? stem metric name, o.locked = true ∧ o.values ≠ []) ∧
          ∃ n ∈ new.labelAt? stem metric name, n.fixed = false) ∧
    (∀ l ∈ (updated tail old new).labels, l.Overfull → l.locked = true) ∧
    ∀ stem metric name, ∀ o ∈ old.labelAt? stem metric name, o.locked = false →
      ∀ n ∈ new.labelAt? stem metric name, n.fixed = false →
        ∃ l ∈ (updated tail old new).labelAt? stem metric name,
          l.fixed = false ∧ l.values = [] := by
  have htraced := traced_labelAt? tail old hn
  have hnew {stem metric name : String} {n : Label} (h : n ∈ new.labelAt? stem metric name) :
      n.fixed = false → n.values = [] := hopen n (mem_labels_of_labelAt? h)
  refine ⟨fun stem metric name => ⟨?_, ?_⟩, fun l hl hover => ?_, ?_⟩
  · rintro ⟨l, hl, hover⟩
    obtain ⟨n, hmem, rfl⟩ := (htraced stem metric name).exists_new hl
    obtain ⟨hold, hfixed⟩ := (Label.overfull_make_iff tail _ (hnew hmem)).1 hover
    exact ⟨hold, n, hmem, hfixed⟩
  · rintro ⟨⟨o, hmem, hlocked⟩, n, hnmem, hfixed⟩
    refine ⟨_, (htraced stem metric name).of_both hmem hnmem, ?_⟩
    exact (Label.overfull_make_iff tail _ (hnew hnmem)).2 ⟨⟨o, rfl, hlocked⟩, hfixed⟩
  · have hd : (updated tail old new).Distinct := (ascending_reconcile tail ho hn).distinct
    obtain ⟨stem, metric, name, hl⟩ := hd.exists_labelAt? hl
    obtain ⟨n, hmem, rfl⟩ := (htraced stem metric name).exists_new hl
    obtain ⟨⟨o, hold, hlocked, -⟩, -⟩ := (Label.overfull_make_iff tail _ (hnew hmem)).1 hover
    rw [Option.mem_def.1 hold]
    exact hlocked
  · intro stem metric name o hmem hlocked n hnmem hfixed
    have hl := (htraced stem metric name).of_both hmem hnmem
    refine ⟨_, hl, (Label.fixed_make tail _ n).trans hfixed, ?_⟩
    rw [Label.values_make_of_nil tail _ (hnew hnmem hfixed), Option.elim_some, hlocked]
    rfl

/-- Locked, then shown open; and not locked, then shown open. -/
def reopenedSample : Catalog where
  components := [
    { stem := "go_mem", metrics := [
      { name := "go_mem_bytes", labels := [{ name := "state" }, { name := "pod" }] }] }]

theorem overfull_updated_sample :
    curatedSample.Distinct ∧ reopenedSample.Distinct ∧
    (∀ l ∈ reopenedSample.labels, l.fixed = false → l.values = []) ∧
    (∃ l ∈ (updated .truncate curatedSample reopenedSample).labelAt? "go_mem" "go_mem_bytes" "pod",
      l.Overfull) ∧
    ∃ l ∈ (updated .truncate curatedSample reopenedSample).labelAt? "go_mem" "go_mem_bytes" "state",
      l.fixed = false ∧ l.values = [] := by
  have ho : curatedSample.Distinct := by decide
  have hn : reopenedSample.Distinct := by decide
  have hopen : ∀ l ∈ reopenedSample.labels, l.fixed = false → l.values = [] := by decide
  obtain ⟨hiff, -, hrestored⟩ := overfull_updated_iff .truncate ho hn hopen
  refine ⟨ho, hn, hopen, (hiff ..).2 ⟨?_, ?_⟩, hrestored _ _ _ _ rfl rfl _ rfl rfl⟩
  · exact ⟨_, rfl, rfl, by decide⟩
  · exact ⟨_, rfl, rfl⟩

end Catalog

end MetricCatalog
