import MetricCatalog.Proofs.Idempotence
import MetricCatalog.Proofs.Membership
import MetricCatalog.Proofs.SyncSummary
/-!
# Synchronising twice

A synchronisation that went through goes through again: it reads the same
snapshot and the same words, loads the catalog that it stored, makes nothing new of
it and writes the same document.
-/

namespace MetricCatalog

variable {σ ε ε' α β : Type} {disk : σ → Disk}

/-! ## Reading the same files -/

section

variable {x : ExceptT ε (StateM σ) α} {f : α → ExceptT ε (StateM σ) β} {s s' : σ}

/-- What follows a step answers alike in two states if it does not look at them. -/
theorem answer_bind_congr (hx : answer x.run s' = answer x.run s)
    (hf : ∀ a t t', answer (f a).run t' = answer (f a).run t) :
    answer (x >>= f).run s' = answer (x >>= f).run s := by
  cases h : answer x.run s with
  | error e => rw [(run_bind_of_error h).1, (run_bind_of_error (hx.trans h)).1]
  | ok a =>
      rw [(run_bind_of_ok h).1, (run_bind_of_ok (hx.trans h)).1]
      exact hf a _ _

theorem answer_adapt_congr {g : ε → ε'} (hx : answer x.run s' = answer x.run s) :
    answer (x.adapt g).run s' = answer (x.adapt g).run s := by
  rw [answer_adapt, answer_adapt, hx]

end

section

variable [Host (StateM σ)] {s s' : σ} {path : String}

theorem answer_fetch_congr (ht : Host.Truthful disk)
    (hread : (disk s').read path = (disk s).read path) :
    answer (Source.file path).fetch.run s' = answer (Source.file path).fetch.run s := by
  unfold Source.fetch
  dsimp only
  rw [answer_run_bind, answer_run_bind, ht.answer_readText, ht.answer_readText, hread]
  cases (disk s).read path >>= decodeText <;> rfl

theorem answer_observe_congr (ht : Host.Truthful disk) {location : String} {c : Config}
    (hsource : Source.parse location = .file path)
    (hread : (disk s').read path = (disk s).read path) :
    answer (Run.observe location c).run s' = answer (Run.observe location c).run s := by
  unfold Run.observe
  rw [hsource]
  dsimp only [Source.withTimeout]
  apply answer_bind_congr
  · apply answer_adapt_congr
    apply answer_bind_congr (answer_fetch_congr ht hread)
    intro text t t'
    cases Exposition.decode text <;> rfl
  · exact fun _ _ _ => rfl

theorem answer_allEscapeWords_congr (ht : Host.Truthful disk) {c : Config}
    (hread : ∀ path ∈ c.escapeWordsFile, (disk s').read path = (disk s).read path) :
    answer c.allEscapeWords.run s' = answer c.allEscapeWords.run s := by
  unfold Config.allEscapeWords
  dsimp only
  split
  · next path hpath =>
    apply answer_bind_congr
    · unfold loadEscapeWords
      rw [answer_run_bind, answer_run_bind, ht.answer_readText, ht.answer_readText,
        hread path hpath]
      cases (disk s).read path >>= decodeText <;> rfl
    · exact fun _ _ _ => rfl
  · rfl

theorem exists_read_of_observe (ht : Host.Truthful disk) {location : String} {c : Config}
    {observed : Catalog} (hsource : Source.parse location = .file path)
    (hok : answer (Run.observe location c).run s = .ok observed) :
    ∃ contents, (disk s).read path = .ok contents := by
  unfold Run.observe at hok
  rw [hsource] at hok
  dsimp only [Source.withTimeout] at hok
  obtain ⟨families, hfamilies, -, -⟩ := run_bind_eq_ok hok
  obtain ⟨text, hfetch, -, -⟩ := run_bind_eq_ok (answer_adapt_eq_ok.1 hfamilies)
  unfold Source.fetch at hfetch
  dsimp only at hfetch
  rw [answer_run_bind, ht.answer_readText] at hfetch
  cases hread : (disk s).read path with
  | ok contents => exact ⟨contents, rfl⟩
  | error e =>
      rw [hread] at hfetch
      cases hfetch

theorem exists_read_of_allEscapeWords (ht : Host.Truthful disk) {c : Config} {words : KeySet}
    (hpath : c.escapeWordsFile = some path) (hok : answer c.allEscapeWords.run s = .ok words) :
    ∃ contents, (disk s).read path = .ok contents := by
  unfold Config.allEscapeWords at hok
  simp only [hpath] at hok
  obtain ⟨more, hload, -, -⟩ := run_bind_eq_ok hok
  unfold loadEscapeWords at hload
  rw [answer_run_bind, ht.answer_readText] at hload
  cases hread : (disk s).read path with
  | ok contents => exact ⟨contents, rfl⟩
  | error e =>
      rw [hread] at hload
      cases hload

end

/-- A file that was read reads the same where nothing has been written to it. -/
theorem Disk.ChangesAt.read_eq {d d' : Disk} {paths : List String} {path : String}
    {contents : ByteArray} (h : d.ChangesAt paths d') (hapart : ∀ p ∈ paths, d.Apart p path)
    (hread : d.read path = .ok contents) : d'.read path = d.read path := by
  rw [hread, Disk.read_eq_ok, h.holds?_eq hapart]
  exact Disk.read_eq_ok.1 hread

namespace Run

open CommandLine (SyncOptions)

/-! ## Reconciling twice -/

theorem reconcile_fst {c : Config} (current : Catalog) {observed : Catalog}
    (htail : c.sync.tail = .appendNew) (ho : observed.Distinct) :
    (reconcile c current observed).1 =
      { current with version := c.version.getD current.version }.overlay observed := by
  have hupdated := Catalog.updated_appendNew current ho
  unfold Catalog.updated at hupdated
  unfold reconcile
  dsimp only
  rw [htail, hupdated]
  rfl

/-- What a snapshot has made of a catalog stays when it is reconciled again. -/
theorem reconcile_reconcile {c : Config} (current : Catalog) {observed made : Catalog}
    (htail : c.sync.tail = .appendNew) (ho : observed.Distinct)
    (hmade : made = (reconcile c current observed).1) :
    (reconcile c made observed).1 = made ∧
      (reconcile c made observed).2.changesMembership = false := by
  have hversion : c.version.getD made.version = made.version := by
    rw [hmade]
    cases hconfigured : c.version <;> simp [reconcile, hconfigured]
  have hoverlay := reconcile_fst current htail ho
  refine ⟨?_, ?_⟩
  · rw [reconcile_fst made htail ho, hversion, hmade, hoverlay]
    exact Catalog.overlay_overlay { current with version := _ } ho
  · have hstill : (reconcile c made observed).2.Still := by
      unfold reconcile
      dsimp only
      rw [htail, hmade, hoverlay]
      exact Catalog.still_reconcile _ ho
    rw [Report.changesMembership_eq_false]
    exact ⟨fun level => ⟨(hstill level).1, (hstill level).2.1⟩, fun level => (hstill level).2.2⟩

/-! ## Running twice -/

variable [Host (StateM σ)] {s : σ} {o : SyncOptions} {c : Config}

/-- The paths that a synchronisation writes. -/
def outputPaths (c : Config) : List String :=
  withSiblings c.catalog ++ c.markdown.elim [] withSiblings

/-- A synchronisation whose outputs do not come in its own way: what it reads is
not among them, the catalog and the reference are apart, and no directory is where
a backup is made. -/
structure Repeatable (d : Disk) (o : SyncOptions) (c : Config) (source : String) : Prop where
  tail : (o.apply c).sync.tail = .appendNew
  from_file : Source.parse o.source = .file source
  source_apart : ∀ p ∈ outputPaths (o.apply c), d.Apart p source
  words_apart : ∀ words ∈ (o.apply c).escapeWordsFile, ∀ p ∈ outputPaths (o.apply c),
    d.Apart p words
  outputs_apart : ∀ path ∈ (o.apply c).markdown, d.FamiliesApart (o.apply c).catalog path
  backup : ∀ path ∈ outputFiles (o.apply c), d.holds? (backupPath path) ≠ some .directory

/-- A run goes through its writing again where its outputs can be replaced. -/
theorem answer_writeFiles (hd : Host.Dependable disk) {catalog : Catalog}
    (hwords : c.markdown.isSome → ∃ words, answer c.allEscapeWords.run s = .ok words)
    (hreplaceable : ∀ path ∈ outputFiles c, (disk s).Replaceable path)
    (hapart : ∀ path ∈ c.markdown, (disk s).FamiliesApart c.catalog path) :
    answer (writeFiles c catalog).run s = .ok () := by
  have hsame {t t' : σ} {path : String} (hsame : (disk t).Same (disk t'))
      (hr : (disk t).Replaceable path) : (disk t').Replaceable path :=
    hr.of_changesAt (hsame.changesAt []) fun _ hmem => absurd hmem List.not_mem_nil
  have hcatalog : (disk s).Replaceable c.catalog := hreplaceable _ List.mem_cons_self
  unfold writeFiles
  cases hpath : c.markdown with
  | none => exact answer_adapt_eq_ok.2 (answer_replaceFile hd hcatalog)
  | some path =>
      obtain ⟨words, hwords⟩ := hwords (by simp [hpath])
      have hmarkdown : (disk s).Replaceable path := hreplaceable _ (by simp [outputFiles, hpath])
      have hread := (touches_allEscapeWords hd.toLawful c).same s
      have hstore : answer (catalog.store c.catalog).run (afterwards c.allEscapeWords.run s) =
          .ok () := answer_replaceFile hd (hsame hread hcatalog)
      have hstored := (replaced_of_replaceFile hd.toLawful hstore).changesAt
      have hreference : (disk (afterwards (catalog.store c.catalog).run
          (afterwards c.allEscapeWords.run s))).Replaceable path :=
        (hsame hread hmarkdown).of_changesAt hstored fun p hp =>
          (hread.changesAt []).apart
            (hapart path hpath p hp path (Disk.mem_withSiblings_self path))
      dsimp only
      rw [(run_bind_of_ok (answer_adapt_eq_ok.2 hwords)).1, afterwards_adapt,
        (run_bind_of_ok (answer_adapt_eq_ok.2 hstore)).1, afterwards_adapt, answer_run_bind]
      exact answer_adapt_eq_ok.2 (answer_replaceFile hd (hsame (hd.now _) hreference))

theorem changesAt_sync (hl : Host.Lawful disk) (o : SyncOptions) (c : Config) (s : σ) :
    (disk s).ChangesAt (outputPaths (o.apply c)) (disk (afterwards (sync o c).run s)) :=
  (touches_sync_written hl o c s).mono (written_subset _ _ _)

variable {observed current : Catalog} {source : String} {summary : Summary}

/-- A second run reads the same snapshot, and the catalog that the first one made. -/
theorem ReadsFrom.again (ht : Host.Truthful disk) (hr : ReadsFrom o c s observed current)
    (hwet : o.dryRun = false) (hrepeat : Repeatable (disk s) o c source)
    (hok : answer (sync o c).run s = .ok summary) :
    ReadsFrom o c (afterwards (sync o c).run s) observed
      (reconcile (o.apply c) current observed).1 where
  observed := by
    obtain ⟨contents, hcontents⟩ :=
      exists_read_of_observe ht hrepeat.from_file hr.observed
    have hsame := (changesAt_sync ht.toLawful o c s).read_eq hrepeat.source_apart hcontents
    exact (answer_observe_congr ht hrepeat.from_file hsame).trans hr.observed
  current := by
    have hheld := holds?_sync ht.toLawful hr hwet hok hrepeat.outputs_apart
    have hsame := (touches_observe ht.toLawful o.source (o.apply c)).same
      (afterwards (sync o c).run s)
    rw [ht.answer_load, hsame.load_eq, Disk.load_of_text hheld,
      Catalog.parse_render (hr.distinct ht)]
    rfl

/-- After a run its outputs can be replaced again. -/
theorem ReadsFrom.replaceable (hl : Host.Lawful disk) (hr : ReadsFrom o c s observed current)
    (hwet : o.dryRun = false) (hrepeat : Repeatable (disk s) o c source)
    (hok : answer (sync o c).run s = .ok summary) :
    ∀ path ∈ outputFiles (o.apply c),
      (disk (afterwards (sync o c).run s)).Replaceable path := by
  have hsame := same_afterReading hl o c s
  obtain ⟨words, updated, hreplaces, -⟩ := replacesAll_writeFiles hl (hr.sync_eq_ok hwet hok).2
  have hall := allApart_outputs (fun path hpath =>
      (hsame.changesAt []).familiesApart (hrepeat.outputs_apart path hpath))
    (reconcile (o.apply c) current observed).1 words updated
  have hreplaceable := hreplaces.replaceable hl hall fun x hx => by
    rw [hsame.holds?_eq]
    apply hrepeat.backup
    rw [← map_fst_outputs (o.apply c) _ words updated]
    exact List.mem_map_of_mem hx
  intro path hpath
  rw [← map_fst_outputs (o.apply c) (reconcile (o.apply c) current observed).1 words updated]
    at hpath
  obtain ⟨x, hx, rfl⟩ := List.mem_map.1 hpath
  rw [(hr.sync_eq hwet).2]
  exact hreplaceable x hx

/-- The words that a run has read, a second run reads again. -/
theorem ReadsFrom.words_again (ht : Host.Truthful disk) (hr : ReadsFrom o c s observed current)
    (hwet : o.dryRun = false) (hrepeat : Repeatable (disk s) o c source)
    (hok : answer (sync o c).run s = .ok summary) (hmarkdown : (o.apply c).markdown.isSome) :
    ∃ words, answer (o.apply c).allEscapeWords.run
      (afterReading o c (afterwards (sync o c).run s)) = .ok words := by
  have hl := ht.toLawful
  obtain ⟨words, updated, -, hwords⟩ := replacesAll_writeFiles hl (hr.sync_eq_ok hwet hok).2
  refine ⟨words, (answer_allEscapeWords_congr ht fun path hpath => ?_).trans (hwords hmarkdown)⟩
  obtain ⟨contents, hcontents⟩ := exists_read_of_allEscapeWords ht hpath (hwords hmarkdown)
  rw [(same_afterReading hl o c s).read_eq] at hcontents
  rw [(same_afterReading hl o c _).read_eq, (same_afterReading hl o c s).read_eq]
  exact (changesAt_sync hl o c s).read_eq (hrepeat.words_apart path hpath) hcontents

/-- A synchronisation that succeeded succeeds when it is run again right after.
The second run changes nothing, reports that no entry came, went or was left out,
tells the same version and counts, and leaves the catalog's file as it is. -/
theorem sync_sync (hd : Host.Dependable disk) {first : Summary}
    (hwet : o.dryRun = false) (hrepeat : Repeatable (disk s) o c source)
    (hok : answer (sync o c).run s = .ok first) :
    let between := afterwards (sync o c).run s
    let after := afterwards (sync o c).run between
    ∃ second, answer (sync o c).run between = .ok second ∧
      second.changed = false ∧
      second.report.changesMembership = false ∧
      second.version = first.version ∧
      second.components = first.components ∧
      second.metrics = first.metrics ∧
      (disk after).holds? first.catalog = (disk between).holds? first.catalog := by
  intro between after
  obtain ⟨observed, current, hr⟩ := exists_readsFrom hok
  obtain ⟨rfl, -⟩ := hr.sync_eq_ok hwet hok
  have ht := hd.toTruthful
  have hl := ht.toLawful
  have hchanges : (disk s).ChangesAt _ (disk (afterReading o c between)) :=
    (changesAt_sync hl o c s).trans ((same_afterReading hl o c between).changesAt _)
  have hapart {d : Disk} (h : (disk s).ChangesAt (outputPaths (o.apply c)) d) :
      ∀ path ∈ (o.apply c).markdown, d.FamiliesApart (o.apply c).catalog path :=
    fun path hpath => h.familiesApart (hrepeat.outputs_apart path hpath)
  have hheld := holds?_sync hl hr hwet hok hrepeat.outputs_apart
  have hr' : ReadsFrom o c between observed _ := hr.again ht hwet hrepeat hok
  obtain ⟨hmade, hmembership⟩ :=
    reconcile_reconcile current hrepeat.tail (distinct_of_observe hr.observed) rfl
  have hreplaceable : ∀ path ∈ outputFiles (o.apply c),
      (disk (afterReading o c between)).Replaceable path := fun path hpath =>
    (hr.replaceable hl hwet hrepeat hok path hpath).of_changesAt
      ((same_afterReading hl o c between).changesAt []) fun _ hmem => absurd hmem List.not_mem_nil
  have hwrite : answer (writeFiles (o.apply c) (reconcile (o.apply c)
      (reconcile (o.apply c) current observed).1 observed).1).run (afterReading o c between) =
      .ok () := answer_writeFiles hd (hr.words_again ht hwet hrepeat hok) hreplaceable
    (hapart hchanges)
  have hok' := (hr'.sync_eq hwet).1
  rw [hwrite] at hok'
  have hheld' := holds?_sync hl hr' hwet hok' (hapart (changesAt_sync hl o c s))
  rw [hmade] at hheld'
  refine ⟨_, hok', ?_, hmembership, ?_, ?_, ?_, hheld'.trans hheld.symm⟩
  · exact decide_eq_false (not_not_intro hmade)
  · exact congrArg (·.version) hmade
  · exact congrArg (·.components.length) hmade
  · exact congrArg (·.metricCount) hmade

theorem repeatable_freshMachine : Repeatable freshMachine.disk freshOptions {} "up" where
  tail := rfl
  from_file := rfl
  source_apart := by decide +kernel
  words_apart := by decide +kernel
  outputs_apart := by decide +kernel
  backup path hpath := by
    have hpath : path ∈ ["m", "n"] := hpath
    obtain rfl | rfl : path = "m" ∨ path = "n" := by simpa using hpath
    all_goals
      intro h
      cases h

theorem sync_sync_freshMachine :
    ∃ first second, answer (sync freshOptions {}).run freshMachine = .ok first ∧
      first.changed = true ∧ first.metrics = 1 ∧
      answer (sync freshOptions {}).run (afterwards (sync freshOptions {}).run freshMachine) =
        .ok second ∧
      second.changed = false ∧ second.metrics = 1 := by
  obtain ⟨first, hok, hchanged, hmetrics⟩ : ∃ first,
      answer (sync freshOptions {}).run freshMachine = .ok first ∧ first.changed = true ∧
        first.metrics = 1 := ⟨_, rfl, rfl, rfl⟩
  obtain ⟨second, hagain, hunchanged, -, -, -, hsame, -⟩ :=
    sync_sync Machine.dependable rfl repeatable_freshMachine hok
  exact ⟨first, second, hok, hchanged, hmetrics, hagain, hunchanged, hsame.trans hmetrics⟩

end Run

end MetricCatalog
