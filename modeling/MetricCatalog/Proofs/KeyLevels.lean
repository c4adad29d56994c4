import MetricCatalog.Proofs.KeyOrder
/-!
# Keys at every level

A property of key sequences, asked of each sequence in the tree.  Two of them
matter here: no key occurs twice among siblings, and the keys of siblings
ascend strictly, which is more.  Sorting leads from the first to the second.
-/

namespace MetricCatalog

open Keyed

variable {P Q : List String → Prop}

def Label.AllKeys (P : List String → Prop) (l : Label) : Prop :=
  P (keys l.values)

def Metric.AllKeys (P : List String → Prop) (m : Metric) : Prop :=
  P (keys m.labels) ∧ ∀ l ∈ m.labels, l.AllKeys P

def Component.AllKeys (P : List String → Prop) (c : Component) : Prop :=
  P (keys c.metrics) ∧ ∀ m ∈ c.metrics, m.AllKeys P

def Catalog.AllKeys (P : List String → Prop) (c : Catalog) : Prop :=
  P (keys c.components) ∧ ∀ x ∈ c.components, x.AllKeys P

/-- No key occurs twice among siblings. -/
def Catalog.Distinct (c : Catalog) : Prop := c.AllKeys List.Nodup

/-- The keys of siblings ascend strictly. -/
def Catalog.Ascending (c : Catalog) : Prop := c.AllKeys (List.Pairwise (· < ·))

theorem Metric.AllKeys.imp (h : ∀ ks, P ks → Q ks) {m : Metric} (hm : m.AllKeys P) :
    m.AllKeys Q :=
  ⟨h _ hm.1, fun l hl => h _ (hm.2 l hl)⟩

theorem Component.AllKeys.imp (h : ∀ ks, P ks → Q ks) {c : Component} (hc : c.AllKeys P) :
    c.AllKeys Q :=
  ⟨h _ hc.1, fun m hm => (hc.2 m hm).imp h⟩

theorem Catalog.AllKeys.imp (h : ∀ ks, P ks → Q ks) {c : Catalog} (hc : c.AllKeys P) :
    c.AllKeys Q :=
  ⟨h _ hc.1, fun x hx => (hc.2 x hx).imp h⟩

theorem Catalog.Ascending.distinct {c : Catalog} (h : c.Ascending) : c.Distinct :=
  AllKeys.imp (fun _ hks => nodup_of_pairwise_lt hks) h

section Decidable

variable [DecidablePred P]

instance (l : Label) : Decidable (l.AllKeys P) :=
  inferInstanceAs (Decidable (P (keys l.values)))

instance (m : Metric) : Decidable (m.AllKeys P) :=
  inferInstanceAs (Decidable (P (keys m.labels) ∧ ∀ l ∈ m.labels, l.AllKeys P))

instance (c : Component) : Decidable (c.AllKeys P) :=
  inferInstanceAs (Decidable (P (keys c.metrics) ∧ ∀ m ∈ c.metrics, m.AllKeys P))

instance (c : Catalog) : Decidable (c.AllKeys P) :=
  inferInstanceAs (Decidable (P (keys c.components) ∧ ∀ x ∈ c.components, x.AllKeys P))

end Decidable

instance (c : Catalog) : Decidable c.Distinct :=
  inferInstanceAs (Decidable (c.AllKeys List.Nodup))

instance (c : Catalog) : Decidable c.Ascending :=
  inferInstanceAs (Decidable (c.AllKeys (List.Pairwise (· < ·))))

/-! ## Canonical form -/

theorem Label.key_canonical (l : Label) : key l.canonical = key l := rfl

theorem Metric.key_canonical (m : Metric) : key m.canonical = key m := rfl

theorem Component.key_canonical (c : Component) : key c.canonical = key c := rfl

theorem Label.ascending_canonical {l : Label} (h : l.AllKeys List.Nodup) :
    l.canonical.AllKeys (List.Pairwise (· < ·)) :=
  ascending_iff_keys.1 (Distinct.ascending_sort h)

/-- A sorted sequence ascends also after a change that keeps the keys. -/
theorem ascending_map_sort {α : Type} [Keyed α] {f : α → α} (hf : ∀ x, key (f x) = key x)
    {xs : List α} (h : Distinct xs) : (keys ((sort xs).map f)).Pairwise (· < ·) := by
  rw [keys_map hf]
  exact ascending_iff_keys.1 h.ascending_sort

theorem distinct_map_sort {α : Type} [Keyed α] {f : α → α} (hf : ∀ x, key (f x) = key x)
    {xs : List α} : Keyed.Distinct ((sort xs).map f) ↔ Keyed.Distinct xs := by
  rw [Keyed.Distinct, keys_map hf]
  exact distinct_sort

theorem Metric.ascending_canonical {m : Metric} (h : m.AllKeys List.Nodup) :
    m.canonical.AllKeys (List.Pairwise (· < ·)) := by
  refine ⟨ascending_map_sort Label.key_canonical h.1, fun l hl => ?_⟩
  obtain ⟨l, hmem, rfl⟩ := List.mem_map.1 hl
  exact Label.ascending_canonical (h.2 l (mem_sort.1 hmem))

theorem Component.ascending_canonical {c : Component} (h : c.AllKeys List.Nodup) :
    c.canonical.AllKeys (List.Pairwise (· < ·)) := by
  refine ⟨ascending_map_sort Metric.key_canonical h.1, fun m hm => ?_⟩
  obtain ⟨m, hmem, rfl⟩ := List.mem_map.1 hm
  exact Metric.ascending_canonical (h.2 m (mem_sort.1 hmem))

theorem Catalog.ascending_canonical {c : Catalog} (h : c.Distinct) : c.canonical.Ascending := by
  refine ⟨ascending_map_sort Component.key_canonical h.1, fun x hx => ?_⟩
  obtain ⟨x, hmem, rfl⟩ := List.mem_map.1 hx
  exact Component.ascending_canonical (h.2 x (mem_sort.1 hmem))

end MetricCatalog
