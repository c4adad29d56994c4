import MetricCatalog.Proofs.KeyMatch
import MetricCatalog.Proofs.MergeReport
import MetricCatalog.Proofs.Idempotence
/-!
# Who decides what

The catalog has authority over curation and the snapshot over structure.  So two
runs give the same catalog and the same report when the catalogs agree on
curation, the snapshots on structure, and the snapshots on the curation of what
the catalogs do not have.  Nothing else can be seen in the result: not the order
of any sequence, not the structure that a catalog remembers, and not the curation
that a snapshot suggests for what is curated already.
-/

namespace MetricCatalog

open Keyed

namespace Catalog

/-- The same paths, with the same structure. -/
structure SameStructure (c d : Catalog) : Prop where
  component : ∀ stem, (c.component? stem).isSome = (d.component? stem).isSome
  metric : ∀ stem name,
    (c.metricAt? stem name).map (fun m => (m.kind, m.help, m.unit)) =
      (d.metricAt? stem name).map fun m => (m.kind, m.help, m.unit)
  label : ∀ stem metric name,
    (c.labelAt? stem metric name).map Label.fixed = (d.labelAt? stem metric name).map Label.fixed
  value : ∀ stem metric label value,
    (c.valueAt? stem metric label value).isSome = (d.valueAt? stem metric label value).isSome

/-- The same curation at each path that `known` does not have. -/
structure SameCurationOutside (known c d : Catalog) : Prop where
  component : ∀ stem, known.component? stem = none →
    (c.component? stem).map (fun x => (x.title, x.desc)) =
      (d.component? stem).map fun x => (x.title, x.desc)
  metric : ∀ stem name, known.metricAt? stem name = none →
    (c.metricAt? stem name).map Metric.since = (d.metricAt? stem name).map Metric.since
  label : ∀ stem metric name, known.labelAt? stem metric name = none →
    (c.labelAt? stem metric name).map (fun l => (l.desc, l.locked)) =
      (d.labelAt? stem metric name).map fun l => (l.desc, l.locked)
  value : ∀ stem metric label value, known.valueAt? stem metric label value = none →
    (c.valueAt? stem metric label value).map LabelValue.desc =
      (d.valueAt? stem metric label value).map LabelValue.desc

/-- The same paths, with the same curation. -/
def SameCuration (c d : Catalog) : Prop := SameCurationOutside .empty c d

/-- To agree everywhere is to agree on the paths of either side. -/
theorem eq_of_paths {ι β γ : Type} {x y : Option β} {i : ι} {is js : List ι} (view : Option β → γ)
    (hx : i ∉ is → x = none) (hy : i ∉ js → y = none) (h : i ∈ is ++ js → view x = view y) :
    view x = view y := by
  by_cases hmem : i ∈ is ++ js
  · exact h hmem
  · rw [List.mem_append, not_or] at hmem
    rw [hx hmem.1, hy hmem.2]

instance (c d : Catalog) : Decidable (SameStructure c d) :=
  decidable_of_iff
    ((∀ stem ∈ keys c.components ++ keys d.components,
        (c.component? stem).isSome = (d.component? stem).isSome) ∧
      (∀ p ∈ c.metricPaths ++ d.metricPaths,
        (c.metricAt? p.1 p.2).map (fun m => (m.kind, m.help, m.unit)) =
          (d.metricAt? p.1 p.2).map fun m => (m.kind, m.help, m.unit)) ∧
      (∀ p ∈ c.labelPaths ++ d.labelPaths,
        (c.labelAt? p.1 p.2.1 p.2.2).map Label.fixed =
          (d.labelAt? p.1 p.2.1 p.2.2).map Label.fixed) ∧
      ∀ p ∈ c.valuePaths ++ d.valuePaths,
        (c.valueAt? p.1 p.2.1 p.2.2.1 p.2.2.2).isSome =
          (d.valueAt? p.1 p.2.1 p.2.2.1 p.2.2.2).isSome)
    ⟨fun ⟨hcomponent, hmetric, hlabel, hvalue⟩ =>
      { component := fun stem =>
          eq_of_paths Option.isSome component?_eq_none component?_eq_none (hcomponent stem)
        metric := fun stem name =>
          eq_of_paths (Option.map _) metricAt?_eq_none metricAt?_eq_none (hmetric (stem, name))
        label := fun stem metric name =>
          eq_of_paths (Option.map _) labelAt?_eq_none labelAt?_eq_none
            (hlabel (stem, metric, name))
        value := fun stem metric label value =>
          eq_of_paths Option.isSome valueAt?_eq_none valueAt?_eq_none
            (hvalue (stem, metric, label, value)) },
    fun h => ⟨fun stem _ => h.component stem, fun p _ => h.metric p.1 p.2,
      fun p _ => h.label p.1 p.2.1 p.2.2, fun p _ => h.value p.1 p.2.1 p.2.2.1 p.2.2.2⟩⟩

instance (known c d : Catalog) : Decidable (SameCurationOutside known c d) :=
  decidable_of_iff
    ((∀ stem ∈ keys c.components ++ keys d.components, known.component? stem = none →
        (c.component? stem).map (fun x => (x.title, x.desc)) =
          (d.component? stem).map fun x => (x.title, x.desc)) ∧
      (∀ p ∈ c.metricPaths ++ d.metricPaths, known.metricAt? p.1 p.2 = none →
        (c.metricAt? p.1 p.2).map Metric.since = (d.metricAt? p.1 p.2).map Metric.since) ∧
      (∀ p ∈ c.labelPaths ++ d.labelPaths, known.labelAt? p.1 p.2.1 p.2.2 = none →
        (c.labelAt? p.1 p.2.1 p.2.2).map (fun l => (l.desc, l.locked)) =
          (d.labelAt? p.1 p.2.1 p.2.2).map fun l => (l.desc, l.locked)) ∧
      ∀ p ∈ c.valuePaths ++ d.valuePaths, known.valueAt? p.1 p.2.1 p.2.2.1 p.2.2.2 = none →
        (c.valueAt? p.1 p.2.1 p.2.2.1 p.2.2.2).map LabelValue.desc =
          (d.valueAt? p.1 p.2.1 p.2.2.1 p.2.2.2).map LabelValue.desc)
    ⟨fun ⟨hcomponent, hmetric, hlabel, hvalue⟩ =>
      { component := fun stem hnone =>
          eq_of_paths (Option.map _) component?_eq_none component?_eq_none
            (hcomponent stem · hnone)
        metric := fun stem name hnone =>
          eq_of_paths (Option.map _) metricAt?_eq_none metricAt?_eq_none
            (hmetric (stem, name) · hnone)
        label := fun stem metric name hnone =>
          eq_of_paths (Option.map _) labelAt?_eq_none labelAt?_eq_none
            (hlabel (stem, metric, name) · hnone)
        value := fun stem metric label value hnone =>
          eq_of_paths (Option.map _) valueAt?_eq_none valueAt?_eq_none
            (hvalue (stem, metric, label, value) · hnone) },
    fun h => ⟨fun stem _ => h.component stem, fun p _ => h.metric p.1 p.2,
      fun p _ => h.label p.1 p.2.1 p.2.2, fun p _ => h.value p.1 p.2.1 p.2.2.1 p.2.2.2⟩⟩

instance (c d : Catalog) : Decidable (SameCuration c d) :=
  inferInstanceAs (Decidable (SameCurationOutside .empty c d))

end Catalog

/-! ## Merges of the same sequences -/

/-- The shared pairs by their keys. -/
theorem Keyed.map_shared {α β : Type} [Keyed α] {old new : List α} (ho : Distinct old)
    (f : α → α → β) :
    (shared old new).map (fun p => f p.1 p.2) =
      (keys old).filterMap fun k => (find? k old).bind fun o => (find? k new).map (f o) := by
  rw [shared, List.map_filterMap, keys, List.filterMap_map]
  refine List.filterMap_congr fun o hmem => ?_
  rw [Function.comp_apply, ho.find?_key hmem, Option.map_map]
  rfl

namespace MergeRule

theorem admits_perm {tail : TailPolicy} {old old' : List String} (h : old.Perm old') (k : String) :
    admits tail old k = admits tail old' k := by
  cases tail with
  | appendNew => rw [admits_appendNew, admits_appendNew]
  | truncate => rw [admits, admits, reaches, reaches, h.isEmpty_eq, h.any_eq]

theorem keyTally_perm (tail : TailPolicy) {old old' new new' : List String} (ho : old.Perm old')
    (hn : new.Perm new') : keyTally tail old new = keyTally tail old' new' := by
  unfold keyTally
  simp only [admits_perm ho, ho.mem_iff, hn.mem_iff, hn.countP_eq, ho.countP_eq]

variable {α : Type} [Keyed α] {old₁ old₂ new₁ new₂ : List α}

section

variable (rule : MergeRule α) (tail : TailPolicy)
variable (ho₁ : Distinct old₁) (ho₂ : Distinct old₂) (hn₁ : Distinct new₁) (hn₂ : Distinct new₂)
variable (hold : ∀ k, Option.Rel (fun _ _ => True) (find? k old₁) (find? k old₂))
/- Two new elements of one key are either equal, or combined with the same outcome. -/
variable (hnew : ∀ k, Option.Rel (fun n₁ n₂ => (find? k old₁ = none → n₁ = n₂) ∧
  ∀ o₁ ∈ find? k old₁, ∀ o₂ ∈ find? k old₂, rule.combine o₁ n₁ = rule.combine o₂ n₂)
  (find? k new₁) (find? k new₂))
include ho₁ ho₂ hn₁ hn₂ hold hnew

theorem merge_fst_congr (hkey : ∀ o n, key o = key n → key (rule.combine o n).1 = key n) :
    (rule.merge tail old₁ new₁).1 = (rule.merge tail old₂ new₂).1 := by
  refine (rule.ascending_merge tail old₁ hn₁ hkey).ext (rule.ascending_merge tail old₂ hn₂ hkey)
    fun k => ?_
  obtain ⟨hnew₁, hnew₂⟩ | ⟨n₁, n₂, hnew₁, hnew₂, hfresh, hcombine⟩ := rel_cases (hnew k)
  · rw [find?_merge_of_not_new tail hn₁ hkey old₁ hnew₁,
      find?_merge_of_not_new tail hn₂ hkey old₂ hnew₂]
  obtain ⟨hold₁, hold₂⟩ | ⟨o₁, o₂, hold₁, hold₂, -⟩ := rel_cases (hold k)
  · have hokeys : (keys old₁).Perm (keys old₂) :=
      ho₁.keys_perm ho₂ fun k => isSome_eq_of_rel (hold k)
    have hadmits : admits tail old₁ n₁ = admits tail old₂ n₁ := by
      rw [← admits_keys old₁, ← admits_keys old₂, admits_perm hokeys]
    obtain rfl := hfresh hold₁
    rw [find?_merge_of_not_old tail hn₁ hkey hnew₁ hold₁,
      find?_merge_of_not_old tail hn₂ hkey hnew₂ hold₂, hadmits]
  · rw [find?_merge_of_both tail hn₁ hkey hnew₁ hold₁,
      find?_merge_of_both tail hn₂ hkey hnew₂ hold₂, hcombine o₁ hold₁ o₂ hold₂]

theorem merge_snd_congr : (rule.merge tail old₁ new₁).2 = (rule.merge tail old₂ new₂).2 := by
  have hokeys : (keys old₁).Perm (keys old₂) :=
    ho₁.keys_perm ho₂ fun k => isSome_eq_of_rel (hold k)
  have hnkeys : (keys new₁).Perm (keys new₂) :=
    hn₁.keys_perm hn₂ fun k => isSome_eq_of_rel (hnew k)
  have hboth : (fun k => (find? k old₁).bind fun o =>
        (find? k new₁).map fun n => (rule.combine o n).2) =
      fun k => (find? k old₂).bind fun o =>
        (find? k new₂).map fun n => (rule.combine o n).2 := by
    funext k
    obtain ⟨hold₁, hold₂⟩ | ⟨o₁, o₂, hold₁, hold₂, -⟩ := rel_cases (hold k)
    · rw [hold₁, hold₂]
      rfl
    obtain ⟨hnew₁, hnew₂⟩ | ⟨n₁, n₂, hnew₁, hnew₂, -, hcombine⟩ := rel_cases (hnew k)
    · rw [hold₁, hold₂, hnew₁, hnew₂]
      rfl
    · have hreport := hcombine o₁ hold₁ o₂ hold₂
      simp only [hold₁, hold₂, hnew₁, hnew₂, Option.bind_some, Option.map_some, hreport]
  have hinner : ((shared old₁ new₁).map fun p => (rule.combine p.1 p.2).2).Perm
      ((shared old₂ new₂).map fun p => (rule.combine p.1 p.2).2) := by
    rw [map_shared ho₁ fun o n => (rule.combine o n).2,
      map_shared ho₂ fun o n => (rule.combine o n).2, hboth]
    exact hokeys.filterMap _
  rw [rule.merge_report tail ho₁ hn₁, rule.merge_report tail ho₂ hn₂,
    keyTally_perm tail hokeys hnkeys, hinner.sum_eq]

end

variable {C : α → α → Prop} {O : Option α → α → α → Prop} {canon : α → α}

/-- The old sides are alike by `C`.  The new ones are alike by `O`, which may ask
less of elements whose key is old. -/
theorem merge_canonical_congr (rule : MergeRule α) (tail : TailPolicy) (ho₁ : Distinct old₁)
    (ho₂ : Distinct old₂) (hn₁ : Distinct new₁) (hn₂ : Distinct new₂)
    (hkey : ∀ o n, key o = key n → key (rule.combine o n).1 = key n)
    (hcanon : ∀ x, key (canon x) = key x) (hold : Matches C old₁ old₂)
    (hnew : ∀ k, Option.Rel (O (find? k old₁)) (find? k new₁) (find? k new₂))
    (hfresh : ∀ n₁ ∈ new₁, ∀ n₂ ∈ new₂, key n₁ = key n₂ → O none n₁ n₂ → canon n₁ = canon n₂)
    (hcombine : ∀ o₁ ∈ old₁, ∀ o₂ ∈ old₂, ∀ n₁ ∈ new₁, ∀ n₂ ∈ new₂, key o₁ = key o₂ →
      C o₁ o₂ → O (some o₁) n₁ n₂ → rule.combine o₁ (canon n₁) = rule.combine o₂ (canon n₂)) :
    rule.merge tail old₁ ((sort new₁).map canon) =
      rule.merge tail old₂ ((sort new₂).map canon) := by
  have hsome : ∀ k, Option.Rel (fun _ _ => True) (find? k old₁) (find? k old₂) := fun k =>
    rel_of_isSome_eq (isSome_eq_of_rel (hold k)) fun _ _ _ _ => trivial
  have hdistinct {new : List α} (h : Distinct new) : Distinct ((sort new).map canon) :=
    (distinct_map_sort hcanon).2 h
  have hboth : ∀ k, Option.Rel (fun n₁ n₂ => (find? k old₁ = none → n₁ = n₂) ∧
      ∀ o₁ ∈ find? k old₁, ∀ o₂ ∈ find? k old₂, rule.combine o₁ n₁ = rule.combine o₂ n₂)
      (find? k ((sort new₁).map canon)) (find? k ((sort new₂).map canon)) := by
    intro k
    rw [find?_map hcanon, find?_map hcanon, find?_sort, find?_sort]
    refine rel_map (hnew k) fun n₁ hn₁ n₂ hn₂ hO => ⟨fun hnone => ?_, fun o₁ ho₁ o₂ ho₂ => ?_⟩
    · exact hfresh n₁ (mem_of_find? hn₁) n₂ (mem_of_find? hn₂)
        ((key_of_find? hn₁).trans (key_of_find? hn₂).symm) (hnone ▸ hO)
    · have hC := hold k
      rw [Option.mem_def.1 ho₁, Option.mem_def.1 ho₂] at hC
      cases hC with
      | some hC =>
          exact hcombine o₁ (mem_of_find? ho₁) o₂ (mem_of_find? ho₂) n₁ (mem_of_find? hn₁) n₂
            (mem_of_find? hn₂) ((key_of_find? ho₁).trans (key_of_find? ho₂).symm) hC
            (Option.mem_def.1 ho₁ ▸ hO)
  exact Prod.ext
    (merge_fst_congr rule tail ho₁ ho₂ (hdistinct hn₁) (hdistinct hn₂) hsome hboth hkey)
    (merge_snd_congr rule tail ho₁ ho₂ (hdistinct hn₁) (hdistinct hn₂) hsome hboth)

end MergeRule

/-! ## Level by level -/

def LabelValue.CuratedAlike (v v' : LabelValue) : Prop := v.desc = v'.desc

def Label.CuratedAlike (l l' : Label) : Prop :=
  l.desc = l'.desc ∧ l.locked = l'.locked ∧ Matches LabelValue.CuratedAlike l.values l'.values

def Metric.CuratedAlike (m m' : Metric) : Prop :=
  m.since = m'.since ∧ Matches Label.CuratedAlike m.labels m'.labels

def Component.CuratedAlike (c c' : Component) : Prop :=
  c.title = c'.title ∧ c.desc = c'.desc ∧ Matches Metric.CuratedAlike c.metrics c'.metrics

/-- Alike to a catalog that has `old?` in this place: in structure, and also in
curation where there is nothing old. -/
def LabelValue.ObservedAlike (old? : Option LabelValue) (v v' : LabelValue) : Prop :=
  old? = none → v.desc = v'.desc

def Label.ObservedAlike (old? : Option Label) (l l' : Label) : Prop :=
  l.fixed = l'.fixed ∧ (old? = none → l.desc = l'.desc ∧ l.locked = l'.locked) ∧
  ∀ value, Option.Rel (LabelValue.ObservedAlike (old?.bind (·.value? value))) (l.value? value)
    (l'.value? value)

def Metric.ObservedAlike (old? : Option Metric) (m m' : Metric) : Prop :=
  (m.kind = m'.kind ∧ m.help = m'.help ∧ m.unit = m'.unit) ∧
  (old? = none → m.since = m'.since) ∧
  ∀ name, Option.Rel (Label.ObservedAlike (old?.bind (·.label? name))) (m.label? name)
    (m'.label? name)

def Component.ObservedAlike (old? : Option Component) (c c' : Component) : Prop :=
  (old? = none → c.title = c'.title ∧ c.desc = c'.desc) ∧
  ∀ name, Option.Rel (Metric.ObservedAlike (old?.bind (·.metric? name))) (c.metric? name)
    (c'.metric? name)

theorem LabelValue.eq_of_desc_eq {v v' : LabelValue} (hkey : key v = key v')
    (h : v.desc = v'.desc) : v = v' := by
  have hvalue : v.value = v'.value := hkey
  rw [LabelValue.mk.injEq]
  exact ⟨hvalue, h⟩

theorem Label.canonical_congr {l l' : Label} (hl : l.AllKeys List.Nodup)
    (hl' : l'.AllKeys List.Nodup) (hkey : key l = key l') (h : l.ObservedAlike none l') :
    l.canonical = l'.canonical := by
  obtain ⟨hfixed, hcuration, hvalues⟩ := h
  obtain ⟨hdesc, hlocked⟩ := hcuration rfl
  have hname : l.name = l'.name := hkey
  have hvalues : Matches (LabelValue.ObservedAlike none) l.values l'.values := hvalues
  have hsort : (sort l.values).map id = (sort l'.values).map id :=
    hvalues.map_sort_eq hl hl' (fun _ => rfl) fun _ _ _ _ hkey h =>
      LabelValue.eq_of_desc_eq hkey (h rfl)
  rw [List.map_id, List.map_id] at hsort
  rw [canonical, canonical, hsort, hname, hdesc, hlocked, hfixed]

theorem Metric.canonical_congr {m m' : Metric} (hm : m.AllKeys List.Nodup)
    (hm' : m'.AllKeys List.Nodup) (hkey : key m = key m') (h : m.ObservedAlike none m') :
    m.canonical = m'.canonical := by
  obtain ⟨⟨hkind, hhelp, hunit⟩, hsince, hlabels⟩ := h
  have hname : m.name = m'.name := hkey
  have hlabels : Matches (Label.ObservedAlike none) m.labels m'.labels := hlabels
  have hsort := hlabels.map_sort_eq hm.1 hm'.1 Label.key_canonical fun l hl l' hl' =>
    Label.canonical_congr (hm.2 l hl) (hm'.2 l' hl')
  rw [canonical, canonical, hsort, hname, hkind, hhelp, hunit, hsince rfl]

theorem Component.canonical_congr {c c' : Component} (hc : c.AllKeys List.Nodup)
    (hc' : c'.AllKeys List.Nodup) (hkey : key c = key c') (h : c.ObservedAlike none c') :
    c.canonical = c'.canonical := by
  obtain ⟨hcuration, hmetrics⟩ := h
  obtain ⟨htitle, hdesc⟩ := hcuration rfl
  have hstem : c.stem = c'.stem := hkey
  have hmetrics : Matches (Metric.ObservedAlike none) c.metrics c'.metrics := hmetrics
  have hsort := hmetrics.map_sort_eq hc.1 hc'.1 Metric.key_canonical fun m hm m' hm' =>
    Metric.canonical_congr (hc.2 m hm) (hc'.2 m' hm')
  rw [canonical, canonical, hsort, hstem, htitle, hdesc]

section

variable (tail : TailPolicy)

theorem Label.combine_congr {o o' n n' : Label} (ho : o.AllKeys List.Nodup)
    (ho' : o'.AllKeys List.Nodup) (hn : n.AllKeys List.Nodup) (hn' : n'.AllKeys List.Nodup)
    (hkey : key o = key o') (hold : o.CuratedAlike o') (hnew : n.ObservedAlike (some o) n') :
    Label.combine tail o n.canonical = Label.combine tail o' n'.canonical := by
  obtain ⟨hdesc, hlocked, hovalues⟩ := hold
  obtain ⟨hfixed, -, hnvalues⟩ := hnew
  have hname : o.name = o'.name := hkey
  have hsort : (sort o.values).map id = (sort o'.values).map id :=
    hovalues.map_sort_eq ho ho' (fun _ => rfl) fun _ _ _ _ => LabelValue.eq_of_desc_eq
  have hmerge : LabelValue.rule.merge tail o.values ((sort n.values).map id) =
      LabelValue.rule.merge tail o'.values ((sort n'.values).map id) :=
    LabelValue.rule.merge_canonical_congr tail ho ho' hn hn' (fun _ _ h => h) (fun _ => rfl)
      hovalues hnvalues (fun _ _ _ _ hkey h => LabelValue.eq_of_desc_eq hkey (h rfl))
      fun _ _ _ _ _ _ _ _ hkey h _ => congrArg (·, Report.zero) (LabelValue.eq_of_desc_eq hkey h)
  rw [List.map_id, List.map_id] at hsort hmerge
  have hvalues :
      (if o.locked then (sort o.values, Report.count .label .locked 1)
        else LabelValue.rule.merge tail o.values n.canonical.values) =
      if o'.locked then (sort o'.values, Report.count .label .locked 1)
        else LabelValue.rule.merge tail o'.values n'.canonical.values := by
    rw [hsort, hlocked]
    exact ite_congr rfl (fun _ => rfl) fun _ => hmerge
  have hfixed : n.canonical.fixed = n'.canonical.fixed := hfixed
  rw [combine, combine, hvalues, hname, hdesc, hlocked, hfixed]

theorem Metric.combine_congr {o o' n n' : Metric} (ho : o.AllKeys List.Nodup)
    (ho' : o'.AllKeys List.Nodup) (hn : n.AllKeys List.Nodup) (hn' : n'.AllKeys List.Nodup)
    (hkey : key o = key o') (hold : o.CuratedAlike o') (hnew : n.ObservedAlike (some o) n') :
    Metric.combine tail o n.canonical = Metric.combine tail o' n'.canonical := by
  obtain ⟨hsince, holabels⟩ := hold
  obtain ⟨⟨hkind, hhelp, hunit⟩, -, hnlabels⟩ := hnew
  have hname : o.name = o'.name := hkey
  have hmerge : (Label.rule tail).merge tail o.labels n.canonical.labels =
      (Label.rule tail).merge tail o'.labels n'.canonical.labels :=
    (Label.rule tail).merge_canonical_congr tail ho.1 ho'.1 hn.1 hn'.1 (fun _ _ h => h)
      Label.key_canonical holabels hnlabels
      (fun l hl l' hl' => Label.canonical_congr (hn.2 l hl) (hn'.2 l' hl'))
      fun l hl l' hl' k hk k' hk' =>
        Label.combine_congr tail (ho.2 l hl) (ho'.2 l' hl') (hn.2 k hk) (hn'.2 k' hk')
  have hkind : n.canonical.kind = n'.canonical.kind := hkind
  have hhelp : n.canonical.help = n'.canonical.help := hhelp
  have hunit : n.canonical.unit = n'.canonical.unit := hunit
  rw [combine, combine, hmerge, hname, hsince, hkind, hhelp, hunit]

theorem Component.combine_congr {o o' n n' : Component} (ho : o.AllKeys List.Nodup)
    (ho' : o'.AllKeys List.Nodup) (hn : n.AllKeys List.Nodup) (hn' : n'.AllKeys List.Nodup)
    (hkey : key o = key o') (hold : o.CuratedAlike o') (hnew : n.ObservedAlike (some o) n') :
    Component.combine tail o n.canonical = Component.combine tail o' n'.canonical := by
  obtain ⟨htitle, hdesc, hometrics⟩ := hold
  have hstem : o.stem = o'.stem := hkey
  have hmerge : (Metric.rule tail).merge tail o.metrics n.canonical.metrics =
      (Metric.rule tail).merge tail o'.metrics n'.canonical.metrics :=
    (Metric.rule tail).merge_canonical_congr tail ho.1 ho'.1 hn.1 hn'.1 (fun _ _ h => h)
      Metric.key_canonical hometrics hnew.2
      (fun m hm m' hm' => Metric.canonical_congr (hn.2 m hm) (hn'.2 m' hm'))
      fun m hm m' hm' k hk k' hk' =>
        Metric.combine_congr tail (ho.2 m hm) (ho'.2 m' hm') (hn.2 k hk) (hn'.2 k' hk')
  rw [combine, combine, hmerge, hstem, htitle, hdesc]

end

/-! ## From paths to levels -/

namespace Catalog

variable {c d known : Catalog}

theorem SameCuration.matches (h : SameCuration c d) :
    Matches Component.CuratedAlike c.components d.components := by
  have hlabel (stem metric name : String) :
      Option.Rel Label.CuratedAlike (c.labelAt? stem metric name) (d.labelAt? stem metric name) :=
    rel_of_map_eq (h.label stem metric name rfl) fun l hl l' hl' hview => by
      obtain ⟨hdesc, hlocked⟩ := Prod.mk.inj hview
      refine ⟨hdesc, hlocked, fun value => rel_value? hl hl' ?_⟩
      exact rel_of_map_eq (h.value stem metric name value rfl) fun _ _ _ _ hdesc => hdesc
  have hmetric (stem name : String) :
      Option.Rel Metric.CuratedAlike (c.metricAt? stem name) (d.metricAt? stem name) :=
    rel_of_map_eq (h.metric stem name rfl) fun m hm m' hm' hsince =>
      ⟨hsince, fun label => rel_label? hm hm' (hlabel stem name label)⟩
  exact fun stem => rel_of_map_eq (h.component stem rfl) fun x hx y hy hview => by
    obtain ⟨htitle, hdesc⟩ := Prod.mk.inj hview
    exact ⟨htitle, hdesc, fun name => rel_metric? hx hy (hmetric stem name)⟩

theorem SameStructure.rel (hs : SameStructure c d) (hc : SameCurationOutside known c d)
    (stem : String) :
    Option.Rel (Component.ObservedAlike (known.component? stem)) (c.component? stem)
      (d.component? stem) := by
  have hvalue (stem metric label value : String) :
      Option.Rel (LabelValue.ObservedAlike (known.valueAt? stem metric label value))
        (c.valueAt? stem metric label value) (d.valueAt? stem metric label value) :=
    rel_of_isSome_eq (hs.value stem metric label value) fun v hv v' hv' hnone =>
      eq_of_map_eq (hc.value stem metric label value hnone) hv hv'
  have hlabel (stem metric name : String) :
      Option.Rel (Label.ObservedAlike (known.labelAt? stem metric name))
        (c.labelAt? stem metric name) (d.labelAt? stem metric name) :=
    rel_of_map_eq (hs.label stem metric name) fun l hl l' hl' hfixed => by
      refine ⟨hfixed, fun hnone => ?_, fun value => ?_⟩
      · exact Prod.mk.inj (eq_of_map_eq (hc.label stem metric name hnone) hl hl')
      · exact rel_value? hl hl' (hvalue stem metric name value)
  have hmetric (stem name : String) :
      Option.Rel (Metric.ObservedAlike (known.metricAt? stem name)) (c.metricAt? stem name)
        (d.metricAt? stem name) :=
    rel_of_map_eq (hs.metric stem name) fun m hm m' hm' hview => by
      obtain ⟨hkind, hview⟩ := Prod.mk.inj hview
      refine ⟨⟨hkind, Prod.mk.inj hview⟩, fun hnone => ?_, fun label => ?_⟩
      · exact eq_of_map_eq (hc.metric stem name hnone) hm hm'
      · exact rel_label? hm hm' (hlabel stem name label)
  refine rel_of_isSome_eq (hs.component stem) fun x hx y hy => ⟨fun hnone => ?_, fun name => ?_⟩
  · exact Prod.mk.inj (eq_of_map_eq (hc.component stem hnone) hx hy)
  · exact rel_metric? hx hy (hmetric stem name)

/-- Two runs with the same authorities, under either policy. -/
theorem reconcile_congr (tail : TailPolicy) {old old' new new' : Catalog} (ho : old.Distinct)
    (ho' : old'.Distinct) (hn : new.Distinct) (hn' : new'.Distinct)
    (hversion : old.version = old'.version) (hcuration : SameCuration old old')
    (hstructure : SameStructure new new') (hfresh : SameCurationOutside old new new') :
    reconcile tail old new = reconcile tail old' new' := by
  have hmerge :
      (Component.rule tail).merge tail old.components new.canonical.components =
        (Component.rule tail).merge tail old'.components new'.canonical.components :=
    (Component.rule tail).merge_canonical_congr tail ho.1 ho'.1 hn.1 hn'.1 (fun _ _ h => h)
      Component.key_canonical hcuration.matches (hstructure.rel hfresh)
      (fun x hx x' hx' => Component.canonical_congr (hn.2 x hx) (hn'.2 x' hx'))
      fun x hx x' hx' y hy y' hy' =>
        Component.combine_congr tail (ho.2 x hx) (ho'.2 x' hx') (hn.2 y hy) (hn'.2 y' hy')
  rw [reconcile, reconcile, hmerge, hversion]

/-- `curatedSample` in another order, with another structure remembered. -/
def staleSample : Catalog where
  version := "7"
  components := [
    { stem := "go_mem", title := "Go memory", desc := "From the runtime.", metrics := [
      { name := "go_mem_bytes", kind := .counter, unit := "pages", since := "1.0", labels := [
        { name := "pod", locked := true, fixed := true, values := [⟨"a", ""⟩, ⟨"z", "By hand"⟩] },
        { name := "state", desc := "Kind of memory.", fixed := true,
          values := [⟨"gone", ""⟩, ⟨"heap", "Go heap"⟩] }] }] },
    { stem := "kata_shim", title := "Shim" }]

/-- `observedSample` in another order, with other curation of what is curated. -/
def suggestiveSample : Catalog where
  version := "9"
  components := [
    { stem := "go_mem", title := "Suggested", metrics := [
      { name := "go_mem_bytes", kind := .gauge, unit := "bytes", help := "New help.",
        since := "9.0", labels := [
          { name := "pod", fixed := true, values := [⟨"b", ""⟩] },
          { name := "state", locked := true, fixed := true,
            values := [⟨"heap", "Suggested"⟩, ⟨"stack", ""⟩] }] },
      { name := "go_mem_max", kind := .gauge }] }]

theorem reconcile_congr_sample :
    (curatedSample.Distinct ∧ staleSample.Distinct ∧ observedSample.Distinct ∧
      suggestiveSample.Distinct) ∧
    curatedSample.version = staleSample.version ∧ SameCuration curatedSample staleSample ∧
    SameStructure observedSample suggestiveSample ∧
    SameCurationOutside curatedSample observedSample suggestiveSample ∧
    reconcile .truncate curatedSample observedSample =
      reconcile .truncate staleSample suggestiveSample := by
  have ho : curatedSample.Distinct := by decide
  have ho' : staleSample.Distinct := by decide
  have hn : observedSample.Distinct := by decide
  have hn' : suggestiveSample.Distinct := by decide
  have hcuration : SameCuration curatedSample staleSample := by decide
  have hstructure : SameStructure observedSample suggestiveSample := by decide
  have hfresh : SameCurationOutside curatedSample observedSample suggestiveSample := by decide
  exact ⟨⟨ho, ho', hn, hn'⟩, rfl, hcuration, hstructure, hfresh,
    reconcile_congr .truncate ho ho' hn hn' rfl hcuration hstructure hfresh⟩

end Catalog

end MetricCatalog
