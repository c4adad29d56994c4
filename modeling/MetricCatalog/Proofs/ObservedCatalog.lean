import MetricCatalog.Proofs.KeyMatch
import MetricCatalog.Proofs.ObservedAlike
import MetricCatalog.Proofs.Validation
import Mathlib.Data.List.Induction
/-!
# What a snapshot shows

The observed catalog of a list of families is described without any map or
fold: which components, metrics, labels and values there are, and what each of
them says.  Families of one name may stand anywhere in the list; the first of
them declares the metric, and all of them show its labels.  The description
leaves nothing open, so there is one catalog that fits it, the observed one.
-/

namespace MetricCatalog

open Keyed

/-! ## Declarations and sightings -/

/-- The family that declares a name: the first that has it. -/
def declaration? (fs : List Family) (name : String) : Option Family :=
  fs.find? (·.name = name)

/-- A sample of the metric has the label with the value. -/
def Sighted (fs : List Family) (metric label value : String) : Prop :=
  ∃ f ∈ fs, f.name = metric ∧ ∃ s ∈ f.samples, s.labels.find? label = some value

section

variable {fs : List Family} {f : Family} {name : String}

theorem mem_labelPairs {label value : String} :
    (label, value) ∈ f.labelPairs ↔ ∃ s ∈ f.samples, s.labels.find? label = some value := by
  simp only [Family.labelPairs, List.mem_flatMap, KeyMap.mem_entries]

/-- The sightings as a list, in the order of the samples. -/
def sightings (fs : List Family) : List (String × String × String) :=
  fs.flatMap fun f => f.labelPairs.map (f.name, ·)

theorem sighted_iff {metric label value : String} :
    Sighted fs metric label value ↔ (metric, label, value) ∈ sightings fs := by
  simp [Sighted, sightings, ← mem_labelPairs, and_comm]

theorem sighted_concat {metric label value : String} :
    Sighted (fs ++ [f]) metric label value ↔
      Sighted fs metric label value ∨ f.name = metric ∧ (label, value) ∈ f.labelPairs := by
  simp [Sighted, mem_labelPairs, or_and_right, exists_or]

theorem isSome_declaration? : (declaration? fs name).isSome = true ↔ ∃ f ∈ fs, f.name = name := by
  simp [declaration?, List.find?_isSome]

/-- A later family does not declare a name again. -/
theorem declaration?_concat_of_some {g : Family} (h : declaration? fs name = some g) :
    declaration? (fs ++ [f]) name = some g := by
  rw [declaration?, List.find?_append, ← declaration?, h, Option.some_or]

theorem declaration?_concat_of_none (h : declaration? fs f.name = none) :
    declaration? (fs ++ [f]) f.name = some f := by
  rw [declaration?, List.find?_append, ← declaration?, h]
  simp

theorem not_sighted_of_not_declared (h : declaration? fs name = none) (label value : String) :
    ¬ Sighted fs name label value := by
  rintro ⟨f, hf, hname, -⟩
  rw [← Option.not_isSome_iff_eq_none, isSome_declaration?] at h
  exact h ⟨f, hf, hname⟩

end

/-! ## The description -/

/-- A label of the metric as the families show it. -/
structure Label.ObservedIn (n : Normalizer) (fs : List Family) (metric : String) (l : Label) :
    Prop where
  desc : l.desc = ""
  unlocked : l.locked = false
  fixed_iff : l.fixed = true ↔ l.name ∉ n.unfixed
  ascending : Ascending l.values
  mem_values : ∀ value,
    value ∈ keys l.values ↔ l.name ∉ n.unfixed ∧ Sighted fs metric l.name value
  undescribed : ∀ v ∈ l.values, v.desc = ""

/-- A metric as the families show it. -/
structure Metric.ObservedIn (n : Normalizer) (fs : List Family) (m : Metric) : Prop where
  declared : ∃ f, declaration? fs m.name = some f ∧ m.kind = f.kind ∧ m.help = f.help
  unit : m.unit = ((MeasureUnit.infer? m.name m.help).map MeasureUnit.word).getD ""
  since : m.since = n.since.getD ""
  ascending : Ascending m.labels
  mem_labels : ∀ label, label ∈ keys m.labels ↔ ∃ value, Sighted fs m.name label value
  labels : ∀ l ∈ m.labels, l.ObservedIn n fs m.name

/-- A component as the families show it: the metrics of one group. -/
structure Component.ObservedIn (n : Normalizer) (fs : List Family) (x : Component) : Prop where
  title : x.title = x.stem
  desc : x.desc = ""
  ascending : Ascending x.metrics
  mem_metrics : ∀ name,
    name ∈ keys x.metrics ↔ n.stemOf name = x.stem ∧ ∃ f ∈ fs, f.name = name
  metrics : ∀ m ∈ x.metrics, m.ObservedIn n fs

/-- A catalog that shows the families and nothing else. -/
structure Catalog.ObservedIn (n : Normalizer) (fs : List Family) (c : Catalog) : Prop where
  version : c.version = ""
  ascending : Keyed.Ascending c.components
  mem_components : ∀ stem, stem ∈ keys c.components ↔ ∃ f ∈ fs, n.stemOf f.name = stem
  components : ∀ x ∈ c.components, x.ObservedIn n fs

/-! ## The description leaves nothing open -/

theorem Keyed.Ascending.eq_of_keys {α : Type} [Keyed α] {xs ys : List α} (hx : Ascending xs)
    (hy : Ascending ys) (hkeys : ∀ k, k ∈ keys xs ↔ k ∈ keys ys)
    (heq : ∀ x ∈ xs, ∀ y ∈ ys, key x = key y → x = y) : xs = ys := by
  refine hx.ext hy fun k => ?_
  have hsome : (find? k xs).isSome = (find? k ys).isSome := by
    rw [Bool.eq_iff_iff, isSome_find?, isSome_find?, hkeys]
  have hrel : Option.Rel (· = ·) (find? k xs) (find? k ys) :=
    rel_of_isSome_eq hsome fun x hfx y hfy =>
      heq x (mem_of_find? hfx) y (mem_of_find? hfy)
        ((key_of_find? hfx).trans (key_of_find? hfy).symm)
  simpa using map_eq_of_rel (f := id) (g := id) hrel fun _ _ _ _ h => h

section

variable {n : Normalizer} {fs : List Family}

theorem Label.ObservedIn.unique {metric : String} {l l' : Label} (h : l.ObservedIn n fs metric)
    (h' : l'.ObservedIn n fs metric) (hkey : key l = key l') : l = l' := by
  have hname : l.name = l'.name := hkey
  have hfixed : l.fixed = l'.fixed := by
    rw [Bool.eq_iff_iff, h.fixed_iff, h'.fixed_iff, hname]
  have hvalues : l.values = l'.values := by
    refine h.ascending.eq_of_keys h'.ascending (fun value => ?_) fun v hv v' hv' hvalue => ?_
    · rw [h.mem_values, h'.mem_values, hname]
    · rw [LabelValue.mk.injEq]
      exact ⟨hvalue, (h.undescribed v hv).trans (h'.undescribed v' hv').symm⟩
  rw [Label.mk.injEq]
  exact ⟨hname, h.desc.trans h'.desc.symm, h.unlocked.trans h'.unlocked.symm, hfixed, hvalues⟩

theorem Metric.ObservedIn.unique {m m' : Metric} (h : m.ObservedIn n fs)
    (h' : m'.ObservedIn n fs) (hkey : key m = key m') : m = m' := by
  have hname : m.name = m'.name := hkey
  obtain ⟨f, hf, hkind, hhelp⟩ := h.declared
  obtain ⟨f', hf', hkind', hhelp'⟩ := h'.declared
  obtain rfl : f = f' := Option.some.inj (hf.symm.trans (hname ▸ hf'))
  have hunit : m.unit = m'.unit := by
    rw [h.unit, h'.unit, hname, hhelp, hhelp']
  have hlabels : m.labels = m'.labels := by
    refine h.ascending.eq_of_keys h'.ascending (fun label => ?_) fun l hl l' hl' hlabel => ?_
    · rw [h.mem_labels, h'.mem_labels, hname]
    · exact (h.labels l hl).unique (hname ▸ h'.labels l' hl') hlabel
  rw [Metric.mk.injEq]
  exact ⟨hname, hkind.trans hkind'.symm, hunit, hhelp.trans hhelp'.symm, hlabels,
    h.since.trans h'.since.symm⟩

theorem Component.ObservedIn.unique {x x' : Component} (h : x.ObservedIn n fs)
    (h' : x'.ObservedIn n fs) (hkey : key x = key x') : x = x' := by
  have hstem : x.stem = x'.stem := hkey
  have hmetrics : x.metrics = x'.metrics := by
    refine h.ascending.eq_of_keys h'.ascending (fun name => ?_) fun m hm m' hm' hname => ?_
    · rw [h.mem_metrics, h'.mem_metrics, hstem]
    · exact (h.metrics m hm).unique (h'.metrics m' hm') hname
  rw [Component.mk.injEq]
  exact ⟨hstem, (h.title.trans hstem).trans h'.title.symm, h.desc.trans h'.desc.symm, hmetrics⟩

theorem Catalog.ObservedIn.unique {c c' : Catalog} (h : c.ObservedIn n fs)
    (h' : c'.ObservedIn n fs) : c = c' := by
  have hcomponents : c.components = c'.components := by
    refine h.ascending.eq_of_keys h'.ascending (fun stem => ?_) fun x hx x' hx' hstem => ?_
    · rw [h.mem_components, h'.mem_components]
    · exact (h.components x hx).unique (h'.components x' hx') hstem
  rw [Catalog.mk.injEq]
  exact ⟨h.version.trans h'.version.symm, hcomponents⟩

end

/-! ## The description asks for declarations and sightings only -/

/-- Every name is declared alike in both lists, or in neither. -/
def SameDeclarations (fs fs' : List Family) : Prop :=
  ∀ name, (declaration? fs name).map (fun f => (f.kind, f.help)) =
    (declaration? fs' name).map fun f => (f.kind, f.help)

/-- The same values are seen for the same labels of the same metrics. -/
def SameSightings (fs fs' : List Family) : Prop :=
  ∀ metric label value, Sighted fs metric label value ↔ Sighted fs' metric label value

section

variable {n : Normalizer} {fs fs' : List Family}

theorem SameDeclarations.mem_names (h : SameDeclarations fs fs') (name : String) :
    (∃ f ∈ fs, f.name = name) ↔ ∃ f ∈ fs', f.name = name := by
  have hsome := congrArg Option.isSome (h name)
  rw [Option.isSome_map, Option.isSome_map] at hsome
  rw [← isSome_declaration?, hsome, isSome_declaration?]

theorem Label.ObservedIn.congr (hseen : SameSightings fs fs') {metric : String} {l : Label}
    (h : l.ObservedIn n fs metric) : l.ObservedIn n fs' metric :=
  { h with mem_values := fun value => by rw [h.mem_values, hseen] }

theorem Metric.ObservedIn.congr (hdecl : SameDeclarations fs fs') (hseen : SameSightings fs fs')
    {m : Metric} (h : m.ObservedIn n fs) : m.ObservedIn n fs' where
  declared := by
    obtain ⟨f, hf, hkind, hhelp⟩ := h.declared
    have hmap := hdecl m.name
    rw [hf, Option.map_some] at hmap
    obtain ⟨f', hf', heq⟩ := Option.map_eq_some_iff.1 hmap.symm
    obtain ⟨hkind', hhelp'⟩ := Prod.mk.injEq .. ▸ heq
    exact ⟨f', hf', hkind.trans hkind'.symm, hhelp.trans hhelp'.symm⟩
  unit := h.unit
  since := h.since
  ascending := h.ascending
  mem_labels label := by simp only [h.mem_labels, hseen m.name label]
  labels l hl := (h.labels l hl).congr hseen

theorem Component.ObservedIn.congr (hdecl : SameDeclarations fs fs')
    (hseen : SameSightings fs fs') {x : Component} (h : x.ObservedIn n fs) :
    x.ObservedIn n fs' :=
  { h with
    mem_metrics := fun name => by rw [h.mem_metrics, hdecl.mem_names]
    metrics := fun m hm => (h.metrics m hm).congr hdecl hseen }

theorem Catalog.ObservedIn.congr (hdecl : SameDeclarations fs fs')
    (hseen : SameSightings fs fs') {c : Catalog} (h : c.ObservedIn n fs) :
    c.ObservedIn n fs' where
  version := h.version
  ascending := h.ascending
  mem_components stem := by
    have hnames : (∃ f ∈ fs, n.stemOf f.name = stem) ↔
        ∃ name, (∃ f ∈ fs, f.name = name) ∧ n.stemOf name = stem := by simp
    have hnames' : (∃ f ∈ fs', n.stemOf f.name = stem) ↔
        ∃ name, (∃ f ∈ fs', f.name = name) ∧ n.stemOf name = stem := by simp
    simp only [h.mem_components, hnames, hnames', hdecl.mem_names]
  components x hx := (h.components x hx).congr hdecl hseen

end

/-! ## What is collected, family by family -/

/-- An observation says what the families of the name say together. -/
structure Observation.Sums (fs : List Family) (name : String) (o : Observation) : Prop where
  declared : ∃ f, declaration? fs name = some f ∧ o.kind = f.kind ∧ o.help = f.help
  contains_iff : ∀ label,
    o.labels.contains label = true ↔ ∃ value, Sighted fs name label value
  mem_valuesOf : ∀ label value, value ∈ o.valuesOf label ↔ Sighted fs name label value

namespace Observation

variable {fs : List Family} {f : Family} {o : Observation}

theorem sums_addPairs
    (hdecl : ∃ g, declaration? (fs ++ [f]) f.name = some g ∧ o.kind = g.kind ∧ o.help = g.help)
    (hcontains : ∀ label,
      o.labels.contains label = true ↔ ∃ value, Sighted fs f.name label value)
    (hvalues : ∀ label value, value ∈ o.valuesOf label ↔ Sighted fs f.name label value) :
    (f.labelPairs.foldl addPair o).Sums (fs ++ [f]) f.name where
  declared := by
    obtain ⟨g, hg, hkind, hhelp⟩ := hdecl
    exact ⟨g, hg, kind_addPairs.trans hkind, help_addPairs.trans hhelp⟩
  contains_iff label := by
    rw [contains_addPairs, hcontains]
    simp [sighted_concat, exists_or, or_comm]
  mem_valuesOf label value := by
    rw [mem_valuesOf_addPairs, hvalues, sighted_concat, or_comm, and_iff_right rfl]

/-- Of a name without an observation there was no family, so this one declares it. -/
theorem sums_addFamily {o? : Option Observation}
    (hnone : o? = none → declaration? fs f.name = none) (hsome : ∀ o ∈ o?, o.Sums fs f.name) :
    (addFamily o? f).Sums (fs ++ [f]) f.name := by
  cases o? with
  | none =>
      have hnew := hnone rfl
      have hunseen := not_sighted_of_not_declared hnew
      refine sums_addPairs ⟨f, declaration?_concat_of_none hnew, rfl, rfl⟩ (fun label => ?_)
        fun label value => ?_
      · exact iff_of_false Bool.false_ne_true fun ⟨value, h⟩ => hunseen label value h
      · exact iff_of_false KeySet.not_mem_empty (hunseen label value)
  | some o =>
      have h := hsome o rfl
      obtain ⟨g, hg, hkind, hhelp⟩ := h.declared
      exact sums_addPairs ⟨g, declaration?_concat_of_some hg, hkind, hhelp⟩ h.contains_iff
        h.mem_valuesOf

/-- A family says nothing of other names. -/
theorem Sums.concat_of_ne {name : String} (h : o.Sums fs name) (hne : f.name ≠ name) :
    o.Sums (fs ++ [f]) name where
  declared := by
    obtain ⟨g, hg, hkind, hhelp⟩ := h.declared
    exact ⟨g, declaration?_concat_of_some hg, hkind, hhelp⟩
  contains_iff label := by simp [h.contains_iff, sighted_concat, hne]
  mem_valuesOf label value := by simp [h.mem_valuesOf, sighted_concat, hne]

end Observation

namespace Normalizer

variable (n : Normalizer)

/-- The observations under a stem, by metric. -/
def draftsOf (components : KeyMap (KeyMap Observation)) (stem : String) : KeyMap Observation :=
  (components.find? stem).getD .empty

/-- What has been collected once the families of a list are in. -/
structure Collected (fs : List Family) (components : KeyMap (KeyMap Observation)) : Prop where
  contains_iff : ∀ stem,
    components.contains stem = true ↔ ∃ f ∈ fs, n.stemOf f.name = stem
  contains_name_iff : ∀ stem name,
    (draftsOf components stem).contains name = true ↔
      n.stemOf name = stem ∧ ∃ f ∈ fs, f.name = name
  sums : ∀ stem name o, (draftsOf components stem).find? name = some o → o.Sums fs name

variable {n} {fs : List Family} {f : Family} {components : KeyMap (KeyMap Observation)}

theorem draftsOf_alter (stem : String) :
    draftsOf (components.alter (n.stemOf f.name) fun metrics =>
        (metrics.getD .empty).alter f.name fun o => Observation.addFamily o f) stem =
      if stem = n.stemOf f.name then
        (draftsOf components stem).alter f.name fun o => Observation.addFamily o f
      else draftsOf components stem := by
  rw [draftsOf, KeyMap.find?_alter]
  split
  · next h => rw [Option.getD_some, draftsOf, h]
  · rfl

theorem Collected.concat (h : n.Collected fs components) :
    n.Collected (fs ++ [f])
      (components.alter (n.stemOf f.name) fun metrics =>
        (metrics.getD .empty).alter f.name fun o => Observation.addFamily o f) where
  contains_iff stem := by
    rw [KeyMap.contains_alter, h.contains_iff]
    simp [or_comm, or_and_right, exists_or, eq_comm]
  contains_name_iff stem name := by
    rw [draftsOf_alter]
    split
    · next hstem =>
      rw [KeyMap.contains_alter, h.contains_name_iff]
      subst hstem
      by_cases hname : name = f.name
      · simp [hname]
      · simp [hname, Ne.symm hname]
    · next hstem =>
      rw [h.contains_name_iff]
      refine and_congr_right fun hgroup => ?_
      have hname : f.name ≠ name := fun heq => hstem (heq ▸ hgroup.symm)
      simp [hname]
  sums stem name o ho := by
    rw [draftsOf_alter] at ho
    split at ho
    · next hstem =>
      rw [KeyMap.find?_alter] at ho
      split at ho
      · next hname =>
        obtain rfl := Option.some.inj ho
        subst hname
        refine Observation.sums_addFamily (fun hnone => ?_) fun o ho => h.sums stem f.name o ho
        -- the family's own group holds every metric of the name
        have hnot : ¬ (n.stemOf f.name = stem ∧ ∃ g ∈ fs, g.name = f.name) := by
          rw [← h.contains_name_iff, KeyMap.contains, hnone]
          exact Bool.false_ne_true
        rw [← Option.not_isSome_iff_eq_none, isSome_declaration?]
        exact fun hmem => hnot ⟨hstem.symm, hmem⟩
      · next hname => exact (h.sums stem name o ho).concat_of_ne (Ne.symm hname)
    · next hstem =>
      have hgroup : n.stemOf name = stem :=
        ((h.contains_name_iff stem name).1 (Option.isSome_of_eq_some ho)).1
      have hname : f.name ≠ name := fun heq => hstem (heq ▸ hgroup.symm)
      exact (h.sums stem name o ho).concat_of_ne hname

theorem collected_collect (n : Normalizer) (fs : List Family) : n.Collected fs (n.collect fs) := by
  induction fs using List.reverseRecOn with
  | nil =>
      exact
        { contains_iff := fun _ => iff_of_false Bool.false_ne_true fun ⟨_, h, _⟩ => nomatch h
          contains_name_iff := fun _ _ =>
            iff_of_false Bool.false_ne_true fun ⟨_, _, h, _⟩ => nomatch h
          sums := fun _ _ _ h => nomatch h }
  | append_singleton fs f ih =>
      rw [collect, List.foldl_concat]
      exact ih.concat

/-! ## The observed catalog -/

theorem observedIn_label {metric label : String} {o : Observation} (h : o.Sums fs metric) :
    (n.label label (o.valuesOf label)).ObservedIn n fs metric := by
  have hascending := ascending_iff_keys.2 (n.ascending_label label (o.valuesOf label))
  unfold Normalizer.label at hascending ⊢
  split
  · next hopen =>
    rw [KeySet.contains_iff] at hopen
    exact
      { desc := rfl
        unlocked := rfl
        fixed_iff := iff_of_false Bool.false_ne_true fun hfixed => hfixed hopen
        ascending := .nil
        mem_values := fun value => iff_of_false (nomatch ·) fun hfixed => hfixed.1 hopen
        undescribed := fun v hv => nomatch hv }
  · next hfixed =>
    rw [if_neg hfixed] at hascending
    rw [KeySet.contains_iff] at hfixed
    refine
      { desc := rfl
        unlocked := rfl
        fixed_iff := iff_of_true rfl hfixed
        ascending := hascending
        mem_values := fun value => ?_
        undescribed := fun v hv => ?_ }
    · rw [Label.keys_enumerated, KeySet.mem_toList, h.mem_valuesOf]
      exact (and_iff_right hfixed).symm
    · obtain ⟨value, -, rfl⟩ := List.mem_map.1 hv
      rfl

theorem observedIn_metric {name : String} {o : Observation} (h : o.Sums fs name) :
    (n.metric name o).ObservedIn n fs where
  declared := h.declared
  unit := rfl
  since := rfl
  ascending := ascending_iff_keys.2 (n.ascending_metric name o).1
  mem_labels label := by rw [n.keys_labels, KeyMap.mem_keys, h.contains_iff]; rfl
  labels l hl := by
    obtain ⟨⟨label, values⟩, hmem, rfl⟩ := List.mem_map.1 hl
    have hvalues : values = o.valuesOf label := by
      rw [Observation.valuesOf, KeyMap.mem_entries.1 hmem, Option.getD_some]
    rw [hvalues]
    exact observedIn_label h

theorem observedIn_observe (n : Normalizer) (fs : List Family) :
    (n.observe fs).ObservedIn n fs := by
  have hcollected := n.collected_collect fs
  have hascending := n.ascending_observe fs
  refine
    { version := rfl
      ascending := ascending_iff_keys.2 hascending.1
      mem_components := fun stem => ?_
      components := fun x hx => ?_ }
  · rw [n.keys_components, KeyMap.mem_keys, hcollected.contains_iff]
  · have hmetrics := ascending_iff_keys.2 (hascending.2 x hx).1
    obtain ⟨⟨stem, metrics⟩, hmem, rfl⟩ := List.mem_map.1 hx
    have hdrafts : draftsOf (n.collect fs) stem = metrics := by
      rw [draftsOf, KeyMap.mem_entries.1 hmem, Option.getD_some]
    refine
      { title := rfl
        desc := rfl
        ascending := hmetrics
        mem_metrics := fun name => ?_
        metrics := fun m hm => ?_ }
    · show name ∈ keys (metrics.entries.map fun e => n.metric e.1 e.2) ↔ n.stemOf name = stem ∧ _
      rw [n.keys_metrics, KeyMap.mem_keys, ← hdrafts, hcollected.contains_name_iff]
    · obtain ⟨⟨name, o⟩, ho, rfl⟩ := List.mem_map.1 hm
      exact observedIn_metric (hcollected.sums stem name o (hdrafts ▸ KeyMap.mem_entries.1 ho))

/-- Observing gives the catalog that fits the description, the only one.  So
it depends on the families through what they declare and what is seen alone:
not on their order, nor on how the samples are spread over families of one name. -/
theorem observe_eq_iff (n : Normalizer) (fs : List Family) :
    (∀ c, n.observe fs = c ↔ c.ObservedIn n fs) ∧
    ∀ fs', SameDeclarations fs fs' → SameSightings fs fs' → n.observe fs = n.observe fs' := by
  refine ⟨fun c => ⟨fun h => h ▸ observedIn_observe n fs, (observedIn_observe n fs).unique⟩, ?_⟩
  intro fs' hdecl hseen
  exact ((observedIn_observe n fs).congr hdecl hseen).unique (observedIn_observe n fs')

/-- A metric in two families, which do not agree about it. -/
def scatteredSample : List Family := [
  { name := "kata_io_bytes", kind := .counter, help := "Read.", samples := [
    ⟨.ofList [("pod", "a"), ("item", "wchar")], ⟨0⟩⟩, ⟨.ofList [("item", "rchar")], ⟨0⟩⟩] },
  { name := "go_gc", kind := .gauge },
  { name := "kata_io_bytes", kind := .gauge, samples := [⟨.ofList [("pod", "b")], ⟨0⟩⟩] }]

/-- The same metrics in one family each and another order. -/
def gatheredSample : List Family := [
  { name := "go_gc", kind := .gauge, samples := [⟨.empty, ⟨0⟩⟩] },
  { name := "kata_io_bytes", kind := .counter, help := "Read.", samples := [
    ⟨.ofList [("item", "rchar"), ("pod", "b")], ⟨0⟩⟩,
    ⟨.ofList [("item", "wchar"), ("pod", "a")], ⟨0⟩⟩] }]

theorem observe_scatteredSample :
    SameDeclarations scatteredSample gatheredSample ∧
    SameSightings scatteredSample gatheredSample ∧
    Normalizer.observe { unfixed := .ofList ["pod"], since := some "3.2" } scatteredSample =
      Normalizer.observe { unfixed := .ofList ["pod"], since := some "3.2" } gatheredSample ∧
    Normalizer.observe { unfixed := .ofList ["pod"], since := some "3.2" } gatheredSample =
      { components := [
          { stem := "go_gc", title := "go_gc", metrics := [
            { name := "go_gc", kind := .gauge, since := "3.2" }] },
          { stem := "kata_io", title := "kata_io", metrics := [
            { name := "kata_io_bytes", kind := .counter, unit := "bytes", help := "Read.",
              since := "3.2", labels := [
                { name := "item", fixed := true, values := [⟨"rchar", ""⟩, ⟨"wchar", ""⟩] },
                { name := "pod" }] }] }] } := by
  have hdecl : SameDeclarations scatteredSample gatheredSample := by
    intro name
    by_cases hio : "kata_io_bytes" = name
    · subst hio
      decide
    · by_cases hgc : "go_gc" = name
      · subst hgc
        decide
      · simp [declaration?, scatteredSample, gatheredSample, hio, hgc]
  have hseen : SameSightings scatteredSample gatheredSample := by
    have hperm : (sightings scatteredSample).Perm (sightings gatheredSample) := by decide
    intro metric label value
    rw [sighted_iff, sighted_iff, hperm.mem_iff]
  exact ⟨hdecl, hseen, (observe_eq_iff _ scatteredSample).2 gatheredSample hdecl hseen,
    by decide +kernel⟩

end Normalizer

end MetricCatalog
