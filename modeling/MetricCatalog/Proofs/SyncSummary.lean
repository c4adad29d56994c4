import MetricCatalog.Proofs.DocumentForms
import MetricCatalog.Proofs.ReconcileKeys
import MetricCatalog.Proofs.RunOutputs
/-!
# What a summary says

The summary of a synchronisation is made before anything is written, so a dry
run gives the same one.  It is about the catalog that is stored: unless the
reference is written over it, that catalog is what loads afterwards.
-/

namespace MetricCatalog

variable {σ : Type} {disk : σ → Disk}

/-! ## Catalogs that are read have unique keys -/

theorem Disk.distinct_of_load {d : Disk} {path : String} {c : Catalog}
    (h : d.load path = .ok c) : c.Distinct := by
  unfold load at h
  split at h
  · next document hread =>
    cases hparse : Catalog.parse document with
    | ok loaded =>
        rw [hparse] at h
        obtain rfl := Except.ok.inj h
        exact Catalog.distinct_of_parse hparse
    | error fault =>
        rw [hparse] at h
        cases h
  · obtain rfl := Except.ok.inj h
    exact Catalog.distinct_empty
  · cases h

namespace Run

open CommandLine (SyncOptions)

variable [Host (StateM σ)] {s : σ} {o : SyncOptions} {c : Config} {observed current : Catalog}

theorem distinct_of_observe {location : String} {observed : Catalog}
    (h : answer (observe location c).run s = .ok observed) : observed.Distinct := by
  obtain ⟨families, -, h, -⟩ := run_bind_eq_ok h
  obtain rfl := Except.ok.inj h
  exact (c.sync.normalizer.ascending_observe families).distinct

theorem distinct_reconcile (c : Config) (hcurrent : current.Distinct)
    (hobserved : observed.Distinct) : (reconcile c current observed).1.Distinct :=
  (Catalog.ascending_reconcile c.sync.tail hcurrent hobserved).distinct

theorem ReadsFrom.distinct (ht : Host.Truthful disk) (hr : ReadsFrom o c s observed current) :
    (reconcile (o.apply c) current observed).1.Distinct := by
  have hcurrent := hr.current
  rw [ht.answer_load] at hcurrent
  exact distinct_reconcile _ (Disk.distinct_of_load hcurrent) (distinct_of_observe hr.observed)

/-! ## What is stored -/

theorem allApart_outputs {d : Disk} {c : Config}
    (hapart : ∀ path ∈ c.markdown, d.FamiliesApart c.catalog path) (catalog : Catalog)
    (words : KeySet) (updated : Timestamp) : d.AllApart (outputs c catalog words updated) := by
  unfold outputs Disk.AllApart
  cases hpath : c.markdown with
  | none => simp
  | some path => simpa using hapart path hpath

theorem holds?_writeFiles (hl : Host.Lawful disk) {catalog : Catalog}
    (hok : answer (writeFiles c catalog).run s = .ok ())
    (hapart : ∀ path ∈ c.markdown, (disk s).FamiliesApart c.catalog path) :
    (disk (afterwards (writeFiles c catalog).run s)).holds? c.catalog =
      some (.file catalog.render.toUTF8) := by
  obtain ⟨words, updated, hreplaces, -⟩ := replacesAll_writeFiles hl hok
  have hall := allApart_outputs hapart catalog words updated
  exact hreplaces.target hl hall _ _ (mem_outputs c catalog words updated)

/-- After a synchronisation the catalog's path holds the catalog that it made. -/
theorem holds?_sync (hl : Host.Lawful disk) (hr : ReadsFrom o c s observed current)
    (hwet : o.dryRun = false) {summary : Summary} (hok : answer (sync o c).run s = .ok summary)
    (hapart : ∀ path ∈ (o.apply c).markdown, (disk s).FamiliesApart (o.apply c).catalog path) :
    (disk (afterwards (sync o c).run s)).holds? (o.apply c).catalog =
      some (.file (reconcile (o.apply c) current observed).1.render.toUTF8) := by
  rw [(hr.sync_eq hwet).2]
  have hsame := (same_afterReading hl o c s).changesAt []
  exact holds?_writeFiles hl (hr.sync_eq_ok hwet hok).2 fun path hpath =>
    hsame.familiesApart (hapart path hpath)

/-- A dry run gives the summary that the run itself gives.  That summary is true
of the files: the path of the catalog loads afterwards as one with its version and
its counts, which is a change just when it is not what loaded before. -/
theorem sync_summary_true (ht : Host.Truthful disk) {summary : Summary} (hwet : o.dryRun = false)
    (hok : answer (sync o c).run s = .ok summary) :
    answer (sync { o with dryRun := true } c).run s = .ok { summary with dryRun := true } ∧
    ((∀ path ∈ (o.apply c).markdown, (disk s).FamiliesApart (o.apply c).catalog path) →
      ∃ before after,
        answer (Catalog.load summary.catalog).run s = .ok before ∧
        answer (Catalog.load summary.catalog).run (afterwards (sync o c).run s) = .ok after ∧
        after.version = summary.version ∧
        after.components.length = summary.components ∧
        after.metricCount = summary.metrics ∧
        (summary.changed = true ↔ after ≠ before)) := by
  obtain ⟨observed, current, hr⟩ := exists_readsFrom hok
  obtain ⟨rfl, -⟩ := hr.sync_eq_ok hwet hok
  refine ⟨?_, fun hapart => ?_⟩
  · have hdry : ReadsFrom { o with dryRun := true } c s observed current :=
      ⟨hr.observed, hr.current⟩
    exact hdry.answer_dryRun rfl
  · have hheld := holds?_sync ht.toLawful hr hwet hok hapart
    refine ⟨current, _, ?_, ?_, rfl, rfl, rfl, decide_eq_true_iff⟩
    · rw [ht.answer_load, ← ((touches_observe ht.toLawful _ _).same s).load_eq, ← ht.answer_load]
      exact hr.current
    · rw [ht.answer_load]
      exact (Disk.load_of_text hheld).trans (by
        rw [Catalog.parse_render (hr.distinct ht)]
        rfl)

/-- A machine with nothing but a snapshot. -/
def freshMachine : Machine where
  disk := { entries := [(["up"], .file "up 1\n".toUTF8)] }

def freshOptions : SyncOptions := { source := "up", catalog := some "m", markdown := some "n" }

theorem sync_summary_freshMachine :
    ∃ summary after, answer (sync freshOptions {}).run freshMachine = .ok summary ∧
      answer (sync { freshOptions with dryRun := true } {}).run freshMachine =
        .ok { summary with dryRun := true } ∧
      answer (Catalog.load "m").run (afterwards (sync freshOptions {}).run freshMachine) =
        .ok after ∧
      after.components.length = 1 ∧ after.metricCount = 1 ∧ after ≠ .empty := by
  obtain ⟨summary, hok, hcatalog, hcomponents, hmetrics, hchanged⟩ : ∃ summary,
      answer (sync freshOptions {}).run freshMachine = .ok summary ∧ summary.catalog = "m" ∧
        summary.components = 1 ∧ summary.metrics = 1 ∧ summary.changed = true :=
    ⟨_, rfl, rfl, rfl, rfl, rfl⟩
  have hapart : ∀ path ∈ (freshOptions.apply {}).markdown,
      freshMachine.disk.FamiliesApart (freshOptions.apply {}).catalog path := by decide +kernel
  obtain ⟨hdry, htrue⟩ := sync_summary_true Machine.dependable.toTruthful rfl hok
  obtain ⟨before, after, hbefore, hafter, -, hcomponents', hmetrics', hchanged'⟩ := htrue hapart
  rw [hcatalog] at hbefore hafter
  obtain rfl : Catalog.empty = before := Except.ok.inj hbefore
  exact ⟨summary, after, hok, hdry, hafter, hcomponents'.trans hcomponents,
    hmetrics'.trans hmetrics, hchanged'.1 hchanged⟩

end Run

end MetricCatalog
