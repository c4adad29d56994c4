import MetricCatalog.Proofs.Idempotence
import Mathlib.Data.List.DropRight
/-!
# Curation over many snapshots

A catalog that is reconciled with one snapshot after another has for each path
the curation of a single source.  The sources are the catalog that it started
as and the snapshots; the one that counts is the earliest of the last unbroken
run of sources that have the path.  Curation lives as long as its path is
observed without a gap, and a gap loses it.
-/

namespace MetricCatalog

open Keyed

/-- What the earliest source has, in the longest run of sources that ends at
the last one and in which each has it. -/
def earliest {α : Type} (at? : Catalog → Option α) (sources : List Catalog) : Option α :=
  (sources.rtakeWhile fun s => (at? s).isSome).head?.bind at?

/-- The catalog after it was reconciled with each snapshot in turn. -/
def Catalog.track (start : Catalog) (snapshots : List Catalog) : Catalog :=
  snapshots.foldl (updated .appendNew) start

variable {α β : Type} {at? : Catalog → Option α}

/-- A source that lacks the path ends every run, and one that has it extends
the run before it, or starts one. -/
theorem earliest_concat (at? : Catalog → Option α) (sources : List Catalog) (s : Catalog) :
    earliest at? (sources ++ [s]) =
      (at? s).map fun x => (earliest at? sources).getD x := by
  unfold earliest
  cases hs : at? s with
  | none => rw [List.rtakeWhile_concat_neg _ _ _ (by simp [hs])]; rfl
  | some x =>
      rw [List.rtakeWhile_concat_pos _ _ _ (by simp [hs]), List.head?_append]
      cases hr : (sources.rtakeWhile fun s => (at? s).isSome).head? with
      | none => exact hs
      | some r =>
          have hsome : (at? r).isSome :=
            List.mem_rtakeWhile_imp (p := fun s => (at? s).isSome) (List.mem_of_head? hr)
          obtain ⟨y, hy⟩ := Option.isSome_iff_exists.1 hsome
          simp [hy]

@[simp] theorem earliest_singleton (s : Catalog) : earliest at? [s] = at? s := by
  have h := earliest_concat at? [] s
  rw [List.nil_append] at h
  rw [h]
  exact Option.map_id'

/-- Nothing before a gap counts any more. -/
theorem earliest_of_gap {gap : Catalog} (h : at? gap = none) (before after : List Catalog) :
    earliest at? (before ++ gap :: after) = earliest at? after := by
  induction after using List.reverseRecOn with
  | nil => rw [earliest_concat, h]; rfl
  | append_singleton after s ih =>
      rw [← List.cons_append, ← List.append_assoc, earliest_concat, earliest_concat, ih]

/-- Without a gap the first source counts. -/
theorem earliest_of_unbroken {first : Catalog} {rest : List Catalog}
    (hfirst : (at? first).isSome) (h : ∀ s ∈ rest, (at? s).isSome) :
    earliest at? (first :: rest) = at? first := by
  induction rest using List.reverseRecOn with
  | nil => exact earliest_singleton first
  | append_singleton rest s ih =>
      obtain ⟨x, hx⟩ := Option.isSome_iff_exists.1 hfirst
      obtain ⟨y, hy⟩ := Option.isSome_iff_exists.1 (h s (by simp))
      rw [← List.cons_append, earliest_concat, ih fun t ht => h t (by simp [ht]), hx, hy]
      rfl

namespace Catalog

variable (start : Catalog) {snapshots : List Catalog}

@[simp] theorem track_nil : start.track [] = start := rfl

theorem track_concat {new : Catalog} (hn : new.Distinct) :
    start.track (snapshots ++ [new]) = (start.track snapshots).overlay new := by
  rw [track, List.foldl_concat]
  exact updated_appendNew _ hn

/-- One run: an overlay shows the same as the earliest source with the new one,
if the catalog showed the same as the earliest source without it. -/
theorem view_concat {blend : Option α → α → α} {view : α → β}
    (hview : ∀ old? new, view (blend old? new) = (old?.map view).getD (view new))
    {old? first? : Option α} (h : old?.map view = first?.map view) (new? : Option α) :
    (new?.map (blend old?)).map view = (new?.map fun x => first?.getD x).map view := by
  cases new? with
  | none => rfl
  | some x =>
      simp only [Option.map_some, hview, h, Option.some.injEq]
      cases first? <;> rfl

/-- Whatever an overlay takes from the catalog where the path is known, many
runs take from the earliest source. -/
theorem track_view (at? : Catalog → Option α) (blend : Option α → α → α) (view : α → β)
    (hat : ∀ s n : Catalog, at? (s.overlay n) = (at? n).map (blend (at? s)))
    (hview : ∀ old? new, view (blend old? new) = (old?.map view).getD (view new))
    (hd : ∀ s ∈ snapshots, s.Distinct) :
    (at? (start.track snapshots)).map view = (earliest at? (start :: snapshots)).map view := by
  induction snapshots using List.reverseRecOn with
  | nil => rw [track_nil, earliest_singleton]
  | append_singleton snapshots n ih =>
      have ih := ih fun s hs => hd s (by simp [hs])
      rw [track_concat start (hd n (by simp)), hat, ← List.cons_append, earliest_concat]
      exact view_concat hview ih (at? n)

/-- A value is described by the earliest source too, as long as its label is
not locked. -/
theorem track_valueAt? {stem metric label : String} (hd : ∀ s ∈ snapshots, s.Distinct)
    (hopen : ∀ l ∈ (start.track snapshots).labelAt? stem metric label, l.locked = false)
    (value : String) :
    ((start.track snapshots).valueAt? stem metric label value).map LabelValue.desc =
      (earliest (·.valueAt? stem metric label value) (start :: snapshots)).map
        LabelValue.desc := by
  induction snapshots using List.reverseRecOn with
  | nil => rw [track_nil, earliest_singleton]
  | append_singleton snapshots n ih =>
      rw [track_concat start (hd n (by simp)), labelAt?_overlay] at hopen
      rw [track_concat start (hd n (by simp)), ← List.cons_append, earliest_concat]
      cases hl : n.labelAt? stem metric label with
      | none => simp [valueAt?, labelAt?_overlay, hl]
      | some l =>
          -- the lock of the label is the one that the catalog had before, if any
          rw [hl, Option.map_some] at hopen
          have hbefore : ∀ l ∈ (start.track snapshots).labelAt? stem metric label,
              l.locked = false :=
            Label.unlocked_of_overlay (hopen _ rfl)
          have ih := ih (fun s hs => hd s (by simp [hs])) hbefore
          rw [valueAt?_overlay _ _ hbefore]
          exact view_concat (fun old? _ => by cases old? <;> rfl) ih _

/-- A locked label keeps the whole list of the earliest source. -/
def lockedList (l : Label) : Option (List LabelValue) :=
  if l.locked then some (sort l.values) else none

theorem lockedList_eq_some {l : Label} {values : List LabelValue}
    (h : lockedList l = some values) : sort l.values = values := by
  unfold lockedList at h
  split at h
  · exact Option.some.inj h
  · cases h

theorem lockedList_overlay (old? : Option Label) (new : Label) :
    lockedList (new.overlay old?) = (old?.map lockedList).getD (lockedList new) := by
  cases old? with
  | none => simp [lockedList, Label.overlay, Label.canonical]
  | some old => cases h : old.locked <;> simp [lockedList, Label.overlay, h]

theorem sorted_values_track {stem metric name : String} {l : Label} (hne : snapshots ≠ [])
    (hd : ∀ s ∈ snapshots, s.Distinct)
    (hl : (start.track snapshots).labelAt? stem metric name = some l) : Sorted l.values := by
  obtain ⟨before, n, rfl⟩ := (List.eq_nil_or_concat snapshots).resolve_left hne
  rw [List.concat_eq_append, track_concat start (hd n (by simp)), labelAt?_overlay] at hl
  obtain ⟨new, -, rfl⟩ := Option.map_eq_some_iff.1 hl
  exact Label.sorted_values_overlay _ new

/-- Each path of `final` has the curation that the earliest source of the last
unbroken run of sources with the path gives it. -/
structure CuratedBy (sources : List Catalog) (final : Catalog) : Prop where
  component : ∀ stem,
    (final.component? stem).map (fun c => (c.title, c.desc)) =
      (earliest (·.component? stem) sources).map fun c => (c.title, c.desc)
  metric : ∀ stem name,
    (final.metricAt? stem name).map Metric.since =
      (earliest (·.metricAt? stem name) sources).map Metric.since
  label : ∀ stem metric name,
    (final.labelAt? stem metric name).map (fun l => (l.desc, l.locked)) =
      (earliest (·.labelAt? stem metric name) sources).map fun l => (l.desc, l.locked)
  value : ∀ stem metric label l,
    final.labelAt? stem metric label = some l → l.locked = false →
    ∀ value,
      (final.valueAt? stem metric label value).map LabelValue.desc =
        (earliest (·.valueAt? stem metric label value) sources).map LabelValue.desc
  lockedValues : ∀ stem metric name first,
    earliest (·.labelAt? stem metric name) sources = some first → first.locked = true →
    ∃ l, final.labelAt? stem metric name = some l ∧ l.values = sort first.values

theorem curatedBy_track (hne : snapshots ≠ []) (hd : ∀ s ∈ snapshots, s.Distinct) :
    CuratedBy (start :: snapshots) (start.track snapshots) where
  component stem :=
    track_view start (·.component? stem) Component.overlay _
      (fun s n => component?_overlay s n stem) (fun old? _ => by cases old? <;> rfl) hd
  metric stem name :=
    track_view start (·.metricAt? stem name) Metric.overlay _
      (fun s n => metricAt?_overlay s n stem name) (fun old? _ => by cases old? <;> rfl) hd
  label stem metric name :=
    track_view start (·.labelAt? stem metric name) Label.overlay _
      (fun s n => labelAt?_overlay s n stem metric name)
      (fun old? _ => by cases old? <;> rfl) hd
  value stem metric label l hl hopen value := by
    refine track_valueAt? start hd (fun x hx => ?_) value
    obtain rfl : l = x := Option.some.inj (hl.symm.trans hx)
    exact hopen
  lockedValues stem metric name first hfirst hlock := by
    have hlist := track_view start (·.labelAt? stem metric name) Label.overlay
      lockedList (fun s n => labelAt?_overlay s n stem metric name) lockedList_overlay hd
    rw [hfirst, Option.map_some, lockedList, if_pos hlock] at hlist
    obtain ⟨l, hl, hvalues⟩ := Option.map_eq_some_iff.1 hlist
    refine ⟨l, hl, ?_⟩
    rw [← lockedList_eq_some hvalues, (sorted_values_track start hne hd hl).sort_eq]

/-- After at least one run the sources curate the catalog.  What the first
source has, and every later one too, keeps its curation; what some source lacks
has lost all curation from before that source. -/
theorem track_curation (hne : snapshots ≠ []) (hd : ∀ s ∈ snapshots, s.Distinct) :
    CuratedBy (start :: snapshots) (start.track snapshots) ∧
    (∀ (α : Type) (at? : Catalog → Option α), (∀ s ∈ start :: snapshots, (at? s).isSome) →
      earliest at? (start :: snapshots) = at? start) ∧
    (∀ (α : Type) (at? : Catalog → Option α) before gap after,
      start :: snapshots = before ++ gap :: after → at? gap = none →
      earliest at? (start :: snapshots) = earliest at? after) := by
  refine ⟨curatedBy_track start hne hd, ?_, ?_⟩
  · intro α at? h
    exact earliest_of_unbroken (h start (by simp)) fun s hs => h s (by simp [hs])
  · intro α at? before gap after hsplit hgap
    rw [hsplit, earliest_of_gap hgap]

/-- A later snapshot, in which a component is back that the one before lacked. -/
def returnedSample : Catalog where
  components := [
    { stem := "kata_shim", title := "kata_shim" },
    { stem := "go_mem", title := "go_mem", metrics := [
      { name := "go_mem_bytes", since := "2.0", labels := [{ name := "pod", fixed := true }] }] }]

theorem track_curation_sample :
    [observedSample, returnedSample] ≠ [] ∧
    (∀ s ∈ [observedSample, returnedSample], s.Distinct) ∧
    ((curatedSample.track [observedSample, returnedSample]).component? "kata_shim").map
      (fun c => (c.title, c.desc)) = some ("kata_shim", "") ∧
    ((curatedSample.track [observedSample, returnedSample]).component? "go_mem").map
      (fun c => (c.title, c.desc)) = some ("Go memory", "From the runtime.") ∧
    ((curatedSample.track [observedSample, returnedSample]).metricAt?
      "go_mem" "go_mem_bytes").map Metric.since = some "1.0" := by
  have hne : [observedSample, returnedSample] ≠ [] := by simp
  have hd : ∀ s ∈ [observedSample, returnedSample], s.Distinct := by decide
  have h := (track_curation curatedSample hne hd).1
  refine ⟨hne, hd, ?_, ?_, ?_⟩
  · exact (h.component "kata_shim").trans (by decide)
  · exact (h.component "go_mem").trans (by decide)
  · exact (h.metric "go_mem" "go_mem_bytes").trans (by decide)

end Catalog

end MetricCatalog
