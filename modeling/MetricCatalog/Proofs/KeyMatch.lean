import MetricCatalog.Proofs.Paths
/-!
# Sequences that match key by key

Two sequences match when they have the same keys and the elements of one key
are related.  The order of the elements does not count.  A relation of this kind
goes down a tree level by level, and comes to the same as statements about
paths.
-/

namespace MetricCatalog

/-! ## Optional elements -/

section

variable {α β γ δ : Type} {R : α → β → Prop}

theorem rel_of_isSome_eq {x : Option α} {y : Option β} (h : x.isSome = y.isSome)
    (hR : ∀ a ∈ x, ∀ b ∈ y, R a b) : Option.Rel R x y := by
  cases x with
  | none =>
      cases y with
      | none => exact .none
      | some b => cases h
  | some a =>
      cases y with
      | none => cases h
      | some b => exact .some (hR a rfl b rfl)

theorem eq_of_map_eq {f : α → γ} {g : β → γ} {x : Option α} {y : Option β}
    (h : x.map f = y.map g) {a : α} (ha : a ∈ x) {b : β} (hb : b ∈ y) : f a = g b := by
  rw [Option.mem_def.1 ha, Option.mem_def.1 hb] at h
  exact Option.some.inj h

theorem rel_of_map_eq {f : α → γ} {g : β → γ} {x : Option α} {y : Option β}
    (h : x.map f = y.map g) (hR : ∀ a ∈ x, ∀ b ∈ y, f a = g b → R a b) : Option.Rel R x y := by
  have hsome : x.isSome = y.isSome := by
    rw [← Option.isSome_map (f := f), h, Option.isSome_map]
  exact rel_of_isSome_eq hsome fun a ha b hb => hR a ha b hb (eq_of_map_eq h ha hb)

theorem isSome_eq_of_rel {x : Option α} {y : Option β} (h : Option.Rel R x y) :
    x.isSome = y.isSome := by
  cases h <;> rfl

theorem rel_cases {x : Option α} {y : Option β} (h : Option.Rel R x y) :
    (x = none ∧ y = none) ∨ ∃ a b, x = some a ∧ y = some b ∧ R a b := by
  cases h with
  | some hR => exact .inr ⟨_, _, rfl, rfl, hR⟩
  | none => exact .inl ⟨rfl, rfl⟩

theorem rel_map {S : γ → δ → Prop} {x : Option α} {y : Option β} {f : α → γ} {g : β → δ}
    (h : Option.Rel R x y) (hfg : ∀ a ∈ x, ∀ b ∈ y, R a b → S (f a) (g b)) :
    Option.Rel S (x.map f) (y.map g) := by
  cases h with
  | some hR => exact .some (hfg _ rfl _ rfl hR)
  | none => exact .none

theorem map_eq_of_rel {x : Option α} {y : Option β} {f : α → γ} {g : β → γ}
    (h : Option.Rel R x y) (hfg : ∀ a ∈ x, ∀ b ∈ y, R a b → f a = g b) : x.map f = y.map g := by
  cases h with
  | some hR => exact congrArg some (hfg _ rfl _ rfl hR)
  | none => rfl

theorem rel_bind {S : γ → δ → Prop} {x : Option α} {y : Option β} {f : α → Option γ}
    {g : β → Option δ} (h : Option.Rel R x y) (hfg : ∀ a b, R a b → Option.Rel S (f a) (g b)) :
    Option.Rel S (x.bind f) (y.bind g) := by
  cases h with
  | some hR => exact hfg _ _ hR
  | none => exact .none

end

/-! ## Keyed sequences -/

namespace Keyed

variable {α : Type} [Keyed α] {R : α → α → Prop} {xs ys : List α}

/-- The same keys, and related elements under each. -/
def Matches (R : α → α → Prop) (xs ys : List α) : Prop :=
  ∀ k, Option.Rel R (find? k xs) (find? k ys)

theorem Matches.refl (hR : ∀ x, R x x) (xs : List α) : Matches R xs xs := fun k =>
  rel_of_map_eq (f := id) (g := id) rfl fun x _ y _ hxy => by
    rw [show x = y from hxy]
    exact hR y

/-- Strictly ascending sequences are told apart by lookup. -/
theorem Ascending.ext (hx : Ascending xs) (hy : Ascending ys)
    (h : ∀ k, find? k xs = find? k ys) : xs = ys := by
  have hmem (zs : List α) (hz : Ascending zs) (z : α) : z ∈ zs ↔ find? (key z) zs = some z :=
    ⟨hz.distinct.find?_key, mem_of_find?⟩
  have hperm : xs.Perm ys := by
    refine (List.perm_ext_iff_of_nodup hx.distinct.nodup hy.distinct.nodup).2 fun z => ?_
    rw [hmem xs hx, hmem ys hy, h]
  exact hperm.eq_of_pairwise (fun a b _ _ hab hba =>
    absurd (String.lt_trans hab hba) (String.lt_irrefl _)) hx hy

theorem Distinct.keys_perm (hx : Distinct xs) (hy : Distinct ys)
    (h : ∀ k, (find? k xs).isSome = (find? k ys).isSome) : (keys xs).Perm (keys ys) := by
  refine (List.perm_ext_iff_of_nodup hx hy).2 fun k => ?_
  rw [← isSome_find?, ← isSome_find?, h]

theorem Matches.map_sort_eq {canon : α → α} (h : Matches R xs ys) (hx : Distinct xs)
    (hy : Distinct ys) (hcanon : ∀ x, key (canon x) = key x)
    (hR : ∀ x ∈ xs, ∀ y ∈ ys, key x = key y → R x y → canon x = canon y) :
    (sort xs).map canon = (sort ys).map canon := by
  have hasc {zs : List α} (hz : Distinct zs) : Ascending ((sort zs).map canon) :=
    ascending_iff_keys.2 (ascending_map_sort hcanon hz)
  refine (hasc hx).ext (hasc hy) fun k => ?_
  rw [find?_map hcanon, find?_map hcanon, find?_sort, find?_sort]
  exact map_eq_of_rel (h k) fun x hx y hy => hR x (mem_of_find? hx) y (mem_of_find? hy)
    ((key_of_find? hx).trans (key_of_find? hy).symm)

end Keyed

/-! ## Paths -/

/-- The same values. -/
def Label.KeysMatch (l l' : Label) : Prop :=
  Keyed.Matches (fun _ _ => True) l.values l'.values

def Metric.KeysMatch (m m' : Metric) : Prop :=
  Keyed.Matches Label.KeysMatch m.labels m'.labels

def Component.KeysMatch (c c' : Component) : Prop :=
  Keyed.Matches Metric.KeysMatch c.metrics c'.metrics

namespace Catalog

/-- The same component, metric, label and value paths. -/
structure SamePaths (c d : Catalog) : Prop where
  component : ∀ stem, (c.component? stem).isSome = (d.component? stem).isSome
  metric : ∀ stem name, (c.metricAt? stem name).isSome = (d.metricAt? stem name).isSome
  label : ∀ stem metric name,
    (c.labelAt? stem metric name).isSome = (d.labelAt? stem metric name).isSome
  value : ∀ stem metric label value,
    (c.valueAt? stem metric label value).isSome = (d.valueAt? stem metric label value).isSome

theorem SamePaths.refl (c : Catalog) : SamePaths c c :=
  ⟨fun _ => rfl, fun _ _ => rfl, fun _ _ _ => rfl, fun _ _ _ _ => rfl⟩

variable {c d : Catalog}

/-! Lookups in two catalogs that are related at a path are related in the elements one
level up. -/

theorem rel_metric? {R : Metric → Metric → Prop} {stem : String} {x y : Component}
    (hx : x ∈ c.component? stem) (hy : y ∈ d.component? stem) {name : String}
    (h : Option.Rel R (c.metricAt? stem name) (d.metricAt? stem name)) :
    Option.Rel R (x.metric? name) (y.metric? name) := by
  rwa [metricAt?_of_component? hx, metricAt?_of_component? hy] at h

theorem rel_label? {R : Label → Label → Prop} {stem metric : String} {m m' : Metric}
    (hm : m ∈ c.metricAt? stem metric) (hm' : m' ∈ d.metricAt? stem metric) {name : String}
    (h : Option.Rel R (c.labelAt? stem metric name) (d.labelAt? stem metric name)) :
    Option.Rel R (m.label? name) (m'.label? name) := by
  rwa [labelAt?_of_metricAt? hm, labelAt?_of_metricAt? hm'] at h

theorem rel_value? {R : LabelValue → LabelValue → Prop} {stem metric label : String}
    {l l' : Label} (hl : l ∈ c.labelAt? stem metric label)
    (hl' : l' ∈ d.labelAt? stem metric label) {value : String}
    (h : Option.Rel R (c.valueAt? stem metric label value) (d.valueAt? stem metric label value)) :
    Option.Rel R (l.value? value) (l'.value? value) := by
  rwa [valueAt?_of_labelAt? hl, valueAt?_of_labelAt? hl'] at h

theorem samePaths_iff :
    SamePaths c d ↔ Keyed.Matches Component.KeysMatch c.components d.components := by
  constructor
  · intro h
    have hlabel (stem metric name : String) :
        Option.Rel Label.KeysMatch (c.labelAt? stem metric name) (d.labelAt? stem metric name) :=
      rel_of_isSome_eq (h.label stem metric name) fun l hl l' hl' value =>
        rel_value? hl hl' (rel_of_isSome_eq (h.value stem metric name value)
          fun _ _ _ _ => trivial)
    have hmetric (stem name : String) :
        Option.Rel Metric.KeysMatch (c.metricAt? stem name) (d.metricAt? stem name) :=
      rel_of_isSome_eq (h.metric stem name) fun m hm m' hm' label =>
        rel_label? hm hm' (hlabel stem name label)
    exact fun stem => rel_of_isSome_eq (h.component stem) fun x hx y hy name =>
      rel_metric? hx hy (hmetric stem name)
  · intro h
    have hmetric (stem name : String) :
        Option.Rel Metric.KeysMatch (c.metricAt? stem name) (d.metricAt? stem name) :=
      rel_bind (h stem) fun _ _ hx => hx name
    have hlabel (stem metric name : String) :
        Option.Rel Label.KeysMatch (c.labelAt? stem metric name) (d.labelAt? stem metric name) :=
      rel_bind (hmetric stem metric) fun _ _ hm => hm name
    exact
      { component := fun stem => isSome_eq_of_rel (h stem)
        metric := fun stem name => isSome_eq_of_rel (hmetric stem name)
        label := fun stem metric name => isSome_eq_of_rel (hlabel stem metric name)
        value := fun stem metric label value =>
          isSome_eq_of_rel (rel_bind (hlabel stem metric label) fun _ _ hl => hl value) }

end Catalog

end MetricCatalog
