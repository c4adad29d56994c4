import MetricCatalog.Observe.Normalizer
import MetricCatalog.Proofs.KeyLookup
import Mathlib.Data.List.Forall2
/-!
# Families that are observed alike

Of the samples of a family, an observation keeps which values each label takes.
So families with the same declarations, whose samples have the same labels in any
order and number, make the same observed catalog.
-/

namespace MetricCatalog

/-- The same labels occur in the samples, whatever their order, number and
values. -/
def SameLabels (ss ss' : List Sample) : Prop :=
  ∀ labels, labels ∈ ss.map Sample.labels ↔ labels ∈ ss'.map Sample.labels

theorem SameLabels.refl (ss : List Sample) : SameLabels ss ss := fun _ => Iff.rfl

/-- The families differ in the order, number and values of samples at most. -/
structure Family.Alike (f f' : Family) : Prop where
  name : f.name = f'.name
  kind : f.kind = f'.kind
  help : f.help = f'.help
  samples : SameLabels f.samples f'.samples

theorem Family.Alike.mem_labelPairs {f f' : Family} (h : f.Alike f') (p : String × String) :
    p ∈ f.labelPairs ↔ p ∈ f'.labelPairs := by
  have hpairs : ∀ f : Family, p ∈ f.labelPairs ↔
      ∃ labels, labels ∈ f.samples.map Sample.labels ∧ p ∈ labels.entries := by
    simp [Family.labelPairs]
  simp only [hpairs, h.samples _]

namespace Observation

variable {o : Observation} {ps ps' : List (String × String)} {label value : String}

@[ext] theorem ext {o' : Observation} (hkind : o.kind = o'.kind) (hhelp : o.help = o'.help)
    (hlabels : o.labels = o'.labels) : o = o' := by
  cases o; cases o'; simp_all

/-- The values that a label takes; none, if it is not seen. -/
def valuesOf (o : Observation) (label : String) : KeySet := (o.labels.find? label).getD .empty

theorem find?_eq_ite (o : Observation) (label : String) :
    o.labels.find? label = if o.labels.contains label then some (o.valuesOf label) else none := by
  rw [KeyMap.contains, valuesOf]
  cases o.labels.find? label <;> rfl

theorem mem_valuesOf_addPairs :
    value ∈ (ps.foldl addPair o).valuesOf label ↔ (label, value) ∈ ps ∨ value ∈ o.valuesOf label := by
  induction ps generalizing o with
  | nil => simp
  | cons p ps ih =>
      have hone : value ∈ (o.addPair p).valuesOf label ↔
          (label, value) = p ∨ value ∈ o.valuesOf label := by
        rw [valuesOf, addPair, KeyMap.find?_alter]
        by_cases h : label = p.1
        · subst h
          simp [valuesOf, Prod.ext_iff]
        · simp [valuesOf, Prod.ext_iff, h]
      rw [List.foldl_cons, ih, hone, List.mem_cons, ← or_assoc, or_comm (a := _ ∈ ps)]

theorem contains_addPairs :
    (ps.foldl addPair o).labels.contains label = true ↔
      label ∈ ps.map Prod.fst ∨ o.labels.contains label = true := by
  induction ps generalizing o with
  | nil => simp
  | cons p ps ih =>
      have hone : (o.addPair p).labels.contains label = true ↔
          label = p.1 ∨ o.labels.contains label = true := by
        simp only [addPair, KeyMap.contains, KeyMap.find?_alter]
        by_cases h : label = p.1 <;> simp [h]
      rw [List.foldl_cons, ih, hone, List.map_cons, List.mem_cons, ← or_assoc,
        or_comm (a := _ ∈ ps.map _)]

theorem kind_addPairs : (ps.foldl addPair o).kind = o.kind := by
  induction ps generalizing o with
  | nil => rfl
  | cons p ps ih => exact ih

theorem help_addPairs : (ps.foldl addPair o).help = o.help := by
  induction ps generalizing o with
  | nil => rfl
  | cons p ps ih => exact ih

/-- The order and the number of pairs do not matter. -/
theorem addPairs_congr (h : ∀ p, p ∈ ps ↔ p ∈ ps') : ps.foldl addPair o = ps'.foldl addPair o := by
  have hlabels : (ps.foldl addPair o).labels = (ps'.foldl addPair o).labels := by
    refine KeyMap.ext_find? fun label => ?_
    have hcontains : (ps.foldl addPair o).labels.contains label =
        (ps'.foldl addPair o).labels.contains label := by
      rw [Bool.eq_iff_iff, contains_addPairs, contains_addPairs]
      simp only [List.mem_map, h]
    have hvalues : (ps.foldl addPair o).valuesOf label = (ps'.foldl addPair o).valuesOf label :=
      KeySet.ext_mem fun value => by rw [mem_valuesOf_addPairs, mem_valuesOf_addPairs, h]
    rw [find?_eq_ite, hcontains, hvalues, ← find?_eq_ite]
  exact ext (kind_addPairs.trans kind_addPairs.symm) (help_addPairs.trans help_addPairs.symm)
    hlabels

theorem addFamily_congr {f f' : Family} (h : f.Alike f') (o : Option Observation) :
    addFamily o f = addFamily o f' := by
  rw [addFamily, addFamily, h.kind, h.help]
  exact addPairs_congr h.mem_labelPairs

end Observation

/-- Families that are alike one by one are observed alike. -/
theorem Normalizer.observe_congr {fs fs' : List Family} (h : List.Forall₂ Family.Alike fs fs')
    (n : Normalizer) : n.observe fs = n.observe fs' := by
  have hcollect : n.collect fs = n.collect fs' := by
    unfold collect
    generalize (KeyMap.empty : KeyMap (KeyMap Observation)) = components
    induction h generalizing components with
    | nil => rfl
    | cons hf _ ih => simp only [List.foldl_cons, hf.name, Observation.addFamily_congr hf, ih]
  rw [observe, hcollect]
  rfl

end MetricCatalog
