import MetricCatalog.Proofs.Refresh
/-!
# Reconciling twice with one snapshot

An overlay has the keys of the snapshot, so a second run finds each of them in
the catalog: it only combines, every combination gives back what was there, and
the report has no other entries than combined keys and locked labels.
-/

namespace MetricCatalog

open Keyed

/-! ## The catalog -/

theorem LabelValue.overlay_overlay (old? : Option LabelValue) (new : LabelValue) :
    new.overlay (some (new.overlay old?)) = new.overlay old? := by
  cases old? <;> rfl

/-- The list of an overlaid label is sorted, whether it is locked or not. -/
theorem Label.sorted_values_overlay (old? : Option Label) (new : Label) :
    Sorted (new.overlay old?).values := by
  cases old? with
  | none => exact sorted_sort new.values
  | some old =>
      unfold overlay
      dsimp only
      split
      · exact sorted_sort old.values
      · rw [← sort_map fun _ => LabelValue.key_overlay ..]
        exact sorted_sort _

theorem Label.unlocked_of_overlay {old? : Option Label} {new : Label}
    (h : (new.overlay old?).locked = false) : ∀ old ∈ old?, old.locked = false := by
  rintro old rfl
  exact h

theorem Label.overlay_overlay (old? : Option Label) {new : Label} (hn : new.AllKeys List.Nodup) :
    new.overlay (some (new.overlay old?)) = new.overlay old? := by
  have hvalues : (new.overlay (some (new.overlay old?))).values = (new.overlay old?).values := by
    cases hlock : (new.overlay old?).locked with
    | true =>
        rw [values_overlay_of_locked new hlock]
        exact (sorted_values_overlay old? new).sort_eq
    | false =>
        rw [values_overlay new (fun l hl => Option.mem_some.1 hl ▸ hlock),
          values_overlay new (unlocked_of_overlay hlock)]
        refine List.map_congr_left fun v hv => ?_
        have hfind : new.value? v.value = some v := Distinct.find?_key hn (mem_sort.1 hv)
        rw [Option.bind_some, value?_overlay new (unlocked_of_overlay hlock), hfind]
        exact LabelValue.overlay_overlay _ v
  rw [Label.mk.injEq]
  cases old? <;> exact ⟨rfl, rfl, rfl, rfl, hvalues⟩

theorem Metric.overlay_overlay (old? : Option Metric) {new : Metric}
    (hn : new.AllKeys List.Nodup) :
    new.overlay (some (new.overlay old?)) = new.overlay old? := by
  have hlabels : (new.overlay (some (new.overlay old?))).labels = (new.overlay old?).labels := by
    rw [labels_overlay, labels_overlay]
    refine List.map_congr_left fun l hl => ?_
    have hfind : new.label? l.name = some l := Distinct.find?_key hn.1 (mem_sort.1 hl)
    rw [Option.bind_some, label?_overlay, hfind]
    exact Label.overlay_overlay _ (hn.2 l (mem_sort.1 hl))
  rw [Metric.mk.injEq]
  cases old? <;> exact ⟨rfl, rfl, rfl, rfl, hlabels, rfl⟩

theorem Component.overlay_overlay (old? : Option Component) {new : Component}
    (hn : new.AllKeys List.Nodup) :
    new.overlay (some (new.overlay old?)) = new.overlay old? := by
  have hmetrics : (new.overlay (some (new.overlay old?))).metrics =
      (new.overlay old?).metrics := by
    rw [metrics_overlay, metrics_overlay]
    refine List.map_congr_left fun m hm => ?_
    have hfind : new.metric? m.name = some m := Distinct.find?_key hn.1 (mem_sort.1 hm)
    rw [Option.bind_some, metric?_overlay, hfind]
    exact Metric.overlay_overlay _ (hn.2 m (mem_sort.1 hm))
  rw [Component.mk.injEq]
  cases old? <;> exact ⟨rfl, rfl, rfl, hmetrics⟩

theorem Catalog.overlay_overlay (old : Catalog) {new : Catalog} (hn : new.Distinct) :
    (old.overlay new).overlay new = old.overlay new := by
  rw [Catalog.mk.injEq]
  refine ⟨rfl, List.map_congr_left fun c hc => ?_⟩
  have hfind : new.component? c.stem = some c := Keyed.Distinct.find?_key hn.1 (mem_sort.1 hc)
  rw [component?_overlay, hfind]
  exact Component.overlay_overlay _ (hn.2 c (mem_sort.1 hc))

/-! ## The report -/

/-- Two sequences made from one, key by key, leave nothing to take in or drop. -/
theorem MergeRule.still_merge_map {α : Type} [Keyed α] (rule : MergeRule α) {f g : α → α}
    {xs : List α} (hd : Distinct xs) (hf : ∀ x, key (f x) = key x) (hg : ∀ x, key (g x) = key x)
    (hcombine : ∀ x ∈ xs, (rule.combine (f x) (g x)).2.Still) :
    (rule.merge .appendNew ((sort xs).map f) ((sort xs).map g)).2.Still := by
  have hkeysf : keys ((sort xs).map f) = keys (sort xs) := keys_map hf _
  have hkeysg : keys ((sort xs).map g) = keys (sort xs) := keys_map hg _
  have hds : (keys (sort xs)).Nodup := distinct_sort.2 hd
  refine rule.merge_still (by rwa [Distinct, hkeysf]) (by rwa [Distinct, hkeysg])
    (fun o ho => by rw [hkeysg, ← hkeysf]; exact key_mem_keys ho) fun n hn => ?_
  obtain ⟨x, hx, rfl⟩ := List.mem_map.1 hn
  have hx : x ∈ xs := mem_sort.1 hx
  refine ⟨f x, ?_, hcombine x hx⟩
  rw [find?_map hf, find?_sort, hg, hd.find?_key hx, Option.map_some]

theorem Label.combine_snd (tail : TailPolicy) (old new : Label) :
    (Label.combine tail old new).2 =
      if old.locked then .count .label .locked 1
      else (LabelValue.rule.merge tail old.values new.values).2 := by
  unfold combine
  cases old.locked <;> rfl

theorem Label.still_combine (old? : Option Label) {new : Label} (hn : new.AllKeys List.Nodup) :
    (Label.combine .appendNew (new.overlay old?) new.canonical).2.Still := by
  rw [combine_snd]
  split
  · exact Report.still_locked .label 1
  · next hlock =>
    have hlock : (new.overlay old?).locked = false := by simpa using hlock
    have h := LabelValue.rule.still_merge_map hn
      (fun v => LabelValue.key_overlay (old?.bind (·.value? v.value)) v) (fun _ => rfl)
      fun _ _ => Report.still_zero
    rw [List.map_id'] at h
    rw [values_overlay new (unlocked_of_overlay hlock)]
    exact h

theorem Metric.still_combine (old? : Option Metric) {new : Metric}
    (hn : new.AllKeys List.Nodup) :
    (Metric.combine .appendNew (new.overlay old?) new.canonical).2.Still := by
  have h := (Label.rule .appendNew).still_merge_map hn.1
    (fun l => Label.key_overlay (old?.bind (·.label? l.name)) l) Label.key_canonical
    fun l hl => Label.still_combine _ (hn.2 l hl)
  rw [← labels_overlay] at h
  exact h

theorem Component.still_combine (old? : Option Component) {new : Component}
    (hn : new.AllKeys List.Nodup) :
    (Component.combine .appendNew (new.overlay old?) new.canonical).2.Still := by
  have h := (Metric.rule .appendNew).still_merge_map hn.1
    (fun m => Metric.key_overlay (old?.bind (·.metric? m.name)) m) Metric.key_canonical
    fun m hm => Metric.still_combine _ (hn.2 m hm)
  rw [← metrics_overlay] at h
  exact h

theorem Catalog.still_reconcile (old : Catalog) {new : Catalog} (hn : new.Distinct) :
    (Catalog.reconcile .appendNew (old.overlay new) new).2.Still :=
  (Component.rule .appendNew).still_merge_map hn.1
    (fun c => Component.key_overlay (old.component? c.stem) c) Component.key_canonical
    fun c hc => Component.still_combine _ (hn.2 c hc)

/-- A second run with the same snapshot changes nothing and reports nothing
taken in, dropped or left out, whatever the catalog was. -/
theorem Catalog.updated_updated {old new : Catalog} (hn : new.Distinct) :
    updated .appendNew (updated .appendNew old new) new = updated .appendNew old new ∧
    ∀ level,
      ((reconcile .appendNew (updated .appendNew old new) new).2.tally level).admitted = 0 ∧
      ((reconcile .appendNew (updated .appendNew old new) new).2.tally level).pruned = 0 ∧
      ((reconcile .appendNew (updated .appendNew old new) new).2.tally level).skipped = 0 := by
  rw [updated_appendNew old hn, updated_appendNew _ hn]
  exact ⟨overlay_overlay old hn, still_reconcile old hn⟩

theorem Catalog.updated_sample_updated :
    observedSample.Distinct ∧
    updated .appendNew (updated .appendNew curatedSample observedSample) observedSample =
      updated .appendNew curatedSample observedSample := by
  have hn : observedSample.Distinct := by decide
  exact ⟨hn, (updated_updated hn).1⟩

end MetricCatalog
