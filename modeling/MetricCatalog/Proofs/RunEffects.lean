import MetricCatalog.Proofs.Replacement
import MetricCatalog.Run.Command
/-!
# What the commands change on the disk

A computation is described by the paths where it may have written, given its
answer.  Steps that read touch nothing, so a command that fails before its first
replacement leaves the disk as it was, and each replacement adds its file and
the two siblings.
-/

namespace MetricCatalog

variable {σ ε ε' α β : Type} {disk : σ → Disk}

/-! ## Computations that touch few paths -/

/-- A step changes nothing on the disk. -/
def Reads (disk : σ → Disk) (x : StateM σ α) : Prop := ∀ s, (disk s).Same (disk (afterwards x s))

/-- With each answer, at most the places of some paths have changed. -/
def Touches (disk : σ → Disk) (x : ExceptT ε (StateM σ) α) (paths : Except ε α → List String) :
    Prop :=
  ∀ s, (disk s).ChangesAt (paths (answer x.run s)) (disk (afterwards x.run s))

section

variable {x : ExceptT ε (StateM σ) α} {f : α → ExceptT ε (StateM σ) β} {s : σ}
  {paths : Except ε β → List String}

theorem run_bind_of_ok {a : α} (h : answer x.run s = .ok a) :
    answer (x >>= f).run s = answer (f a).run (afterwards x.run s) ∧
      afterwards (x >>= f).run s = afterwards (f a).run (afterwards x.run s) := by
  have hrun : (x >>= f).run.run s =
      (ExceptT.bindCont f (answer x.run s)).run (afterwards x.run s) := rfl
  rw [h] at hrun
  exact ⟨congrArg Prod.fst hrun, congrArg Prod.snd hrun⟩

theorem run_bind_of_error {e : ε} (h : answer x.run s = .error e) :
    answer (x >>= f).run s = .error e ∧ afterwards (x >>= f).run s = afterwards x.run s := by
  have hrun : (x >>= f).run.run s =
      (ExceptT.bindCont f (answer x.run s)).run (afterwards x.run s) := rfl
  rw [h] at hrun
  exact ⟨congrArg Prod.fst hrun, congrArg Prod.snd hrun⟩

theorem answer_adapt (g : ε → ε') : answer (x.adapt g).run s = (answer x.run s).mapError g := rfl

theorem touches_pure (a : α) (paths : Except ε α → List String) :
    Touches disk (pure a) paths := fun s => (Disk.Same.refl (disk s)).changesAt _

theorem touches_throw (e : ε) (paths : Except ε α → List String) :
    Touches disk (throw e) paths := fun s => (Disk.Same.refl (disk s)).changesAt _

theorem Touches.mono {paths paths' : Except ε α → List String} (h : Touches disk x paths)
    (hsub : ∀ r, paths r ⊆ paths' r) : Touches disk x paths' :=
  fun s => (h s).mono (hsub _)

theorem Touches.same (h : Touches disk x fun _ => []) (s : σ) :
    (disk s).Same (disk (afterwards x.run s)) := Disk.changesAt_nil.1 (h s)

theorem Touches.adapt {g : ε → ε'} {paths : Except ε' α → List String}
    (hx : Touches disk x fun r => paths (r.mapError g)) : Touches disk (x.adapt g) paths := hx

/-- Of two computations in sequence the second may not run, and ends as it
does in the other case. -/
theorem Touches.seq {paths₁ : Except ε α → List String} {paths₂ : Except ε β → List String}
    (hx : Touches disk x paths₁) (hf : ∀ a, Touches disk (f a) paths₂)
    (herror : ∀ e, paths₁ (.error e) ⊆ paths (.error e))
    (hok : ∀ a s, paths₁ (.ok a) ++ paths₂ (answer (f a).run s) ⊆ paths (answer (f a).run s)) :
    Touches disk (x >>= f) paths := by
  intro s
  have hchanges := hx s
  cases h : answer x.run s with
  | error e =>
      obtain ⟨hanswer, hstate⟩ := run_bind_of_error (f := f) h
      rw [hanswer, hstate]
      rw [h] at hchanges
      exact hchanges.mono (herror e)
  | ok a =>
      obtain ⟨hanswer, hstate⟩ := run_bind_of_ok (f := f) h
      obtain ⟨hfirst, hsecond⟩ := List.append_subset.1 (hok a (afterwards x.run s))
      rw [hanswer, hstate]
      rw [h] at hchanges
      exact (hchanges.mono hfirst).trans ((hf a _).mono hsecond)

/-- What is read first adds nothing to what is touched. -/
theorem Touches.bind (hx : Touches disk x fun _ => []) (hf : ∀ a, Touches disk (f a) paths) :
    Touches disk (x >>= f) paths :=
  hx.seq hf (fun _ => List.nil_subset _) fun _ _ => List.Subset.refl _

theorem Reads.bind {y : StateM σ α} (hy : Reads disk y) (hf : ∀ a, Touches disk (f a) paths) :
    Touches disk (liftM y >>= f) paths :=
  fun s => ((hy s).changesAt _).trans (hf (answer y s) (afterwards y s))

theorem Touches.bind_pure (g : α → β) (hx : Touches disk x fun r => paths (r.map g)) :
    Touches disk (x >>= fun a => pure (g a)) paths :=
  hx.seq (fun a => touches_pure (g a) fun _ => []) (fun _ => List.Subset.refl _)
    fun _ _ => List.append_subset.2 ⟨List.Subset.refl _, List.nil_subset _⟩

end

/-! ## How runs end -/

/-- A failure before anything is written: a configuration, a snapshot, a catalog
or a list of words cannot be read, or there is nowhere to write to. -/
inductive Failure.WhileReading : Failure → Prop
  | config {fault : ConfigFault} : WhileReading (.config fault)
  | snapshot {location : String} {fault : SourceFault} : WhileReading (.snapshot location fault)
  | load {path : String} {fault : StoreFault} : WhileReading (.load path fault)
  | escapeWords {fault : FileFault} : WhileReading (.escapeWords fault)
  | noMarkdown : WhileReading .noMarkdown

namespace Run

/-- The paths where a run that ends so may have written its outputs. -/
def written (catalog markdown : Option String) : Except Failure α → List String
  | .ok _ => catalog.elim [] withSiblings ++ markdown.elim [] withSiblings
  | .error (.store _) => catalog.elim [] siblings
  | .error (.publish _) => catalog.elim [] withSiblings ++ markdown.elim [] siblings
  | .error _ => []

@[simp] theorem written_map (catalog markdown : Option String) (r : Except Failure α) (g : α → β) :
    written catalog markdown (r.map g) = written catalog markdown r := by
  cases r with
  | ok a => rfl
  | error failure => cases failure <;> rfl

theorem written_subset (catalog markdown : Option String) (r : Except Failure α) :
    written catalog markdown r ⊆ catalog.elim [] withSiblings ++ markdown.elim [] withSiblings := by
  have hsiblings (path : Option String) : path.elim [] siblings ⊆ path.elim [] withSiblings := by
    cases path with
    | none => exact List.Subset.refl _
    | some path => exact List.subset_cons_self path (siblings path)
  cases r with
  | ok a => exact List.Subset.refl _
  | error failure =>
      cases failure with
      | store fault => exact List.Subset.trans (hsiblings catalog) (List.subset_append_left _ _)
      | publish fault => exact List.append_subset.2 ⟨List.subset_append_left _ _,
          List.Subset.trans (hsiblings markdown) (List.subset_append_right _ _)⟩
      | _ => exact List.nil_subset _

theorem same_of_reading {catalog markdown : Option String} {x : ExceptT Failure (StateM σ) α}
    (h : Touches disk x (written catalog markdown)) {s : σ} {failure : Failure}
    (hanswer : answer x.run s = .error failure)
    (hreading : failure.WhileReading) :
    (disk s).Same (disk (afterwards x.run s)) := by
  have hchanges := h s
  rw [hanswer] at hchanges
  apply Disk.changesAt_nil.1
  cases hreading <;> exact hchanges

end Run

section

variable [Host (StateM σ)]

/-! ## Reading -/

theorem reads_readText (hl : Host.Lawful disk) (path : String) :
    Reads disk (readText path) := hl.readFile path

theorem touches_load (hl : Host.Lawful disk) (path : String) :
    Touches disk (Catalog.load path) fun _ => [] := by
  apply (reads_readText hl path).bind
  intro text
  split
  · split
    · exact touches_pure _ _
    · exact touches_throw _ _
  · exact touches_pure _ _
  · exact touches_throw _ _

theorem touches_loadEscapeWords (hl : Host.Lawful disk) (path : String) :
    Touches disk (loadEscapeWords path) fun _ => [] := by
  apply (reads_readText hl path).bind
  intro text
  split
  · exact touches_pure _ _
  · exact touches_throw _ _

theorem touches_allEscapeWords (hl : Host.Lawful disk) (c : Config) :
    Touches disk c.allEscapeWords fun _ => [] := by
  unfold Config.allEscapeWords
  dsimp only
  split
  · next path hpath => exact (touches_loadEscapeWords hl path).bind_pure _
  · exact touches_pure _ _

theorem touches_fetch (hl : Host.Lawful disk) (source : Source) :
    Touches disk source.fetch fun _ => [] := by
  cases source with
  | server url timeout =>
      apply Reads.bind (hl.request url timeout)
      intro text
      split
      · exact touches_pure _ _
      · exact touches_throw _ _
  | file path =>
      apply (reads_readText hl path).bind
      intro text
      split
      · exact touches_pure _ _
      · exact touches_throw _ _
  | input =>
      apply Reads.bind hl.readInput
      intro text
      split
      · exact touches_pure _ _
      · exact touches_throw _ _

theorem touches_families (hl : Host.Lawful disk) (source : Source) :
    Touches disk source.families fun _ => [] := by
  apply (touches_fetch hl source).bind
  intro text
  split
  · exact touches_pure _ _
  · exact touches_throw _ _

theorem touches_observe (hl : Host.Lawful disk) (location : String) (c : Config) :
    Touches disk (Run.observe location c) fun _ => [] :=
  (touches_families hl _).adapt.bind_pure _

/-! ## Writing -/

theorem touches_replaceFile (hl : Host.Lawful disk) (path : String) (contents : ByteArray) :
    Touches disk (replaceFile path contents) fun
      | .ok _ => withSiblings path
      | .error _ => siblings path := by
  intro s
  have hrun := replacing_replaceFile path contents s
  cases h : answer (replaceFile path contents).run s with
  | ok u => exact (replaced_of_replaceFile hl h).changesAt
  | error fault =>
      rw [h] at hrun
      exact hrun.changesAt_of_error hl

namespace Run

open CommandLine (SyncOptions RenderOptions InspectOptions)

theorem touches_publish (hl : Host.Lawful disk) (catalog : Catalog) (path : String)
    (words : KeySet) (updated : Timestamp) :
    Touches disk ((catalog.publish path words updated).adapt .publish)
      (written none (some path)) := by
  apply Touches.adapt
  apply (touches_replaceFile hl path _).mono
  intro r
  cases r with
  | ok u => exact List.Subset.refl _
  | error fault => exact List.Subset.refl _

theorem touches_store (hl : Host.Lawful disk) (catalog : Catalog) (path : String) :
    Touches disk ((catalog.store path).adapt .store) (written (some path) none) := by
  apply Touches.adapt
  apply (touches_replaceFile hl path _).mono
  intro r
  cases r with
  | ok u => exact List.subset_append_left _ _
  | error fault => exact List.Subset.refl _

theorem touches_writeFiles (hl : Host.Lawful disk) (c : Config) (catalog : Catalog) :
    Touches disk (writeFiles c catalog) (written (some c.catalog) c.markdown) := by
  unfold writeFiles
  split
  · next hnone =>
    rw [hnone]
    exact touches_store hl catalog c.catalog
  · next path hpath =>
    rw [hpath]
    apply (touches_allEscapeWords hl c).adapt.bind
    intro words
    apply (touches_store hl catalog c.catalog).seq
      (fun _ => Reads.bind hl.now fun updated => touches_publish hl catalog path words updated)
    · intro failure
      cases failure <;> simp [written]
    · intro _ s
      have hjoin (paths : List String) :
          withSiblings c.catalog ++ [] ++ paths ⊆ withSiblings c.catalog ++ paths := by
        rw [List.append_nil]
        exact List.Subset.refl _
      rw [answer_run_bind, answer_adapt]
      -- once the catalog is stored, the only failure is that of the reference
      cases answer (catalog.publish path words (answer Host.now s)).run (afterwards Host.now s) with
      | ok u => exact hjoin _
      | error fault => exact hjoin _

theorem touches_sync (hl : Host.Lawful disk) (o : SyncOptions) (c : Config) :
    Touches disk (sync o c) (if o.dryRun then fun _ => []
      else written (some (o.apply c).catalog) (o.apply c).markdown) := by
  unfold sync
  dsimp only
  apply (touches_observe hl o.source (o.apply c)).bind
  intro observed
  apply (touches_load hl (o.apply c).catalog).adapt.bind
  intro current
  split
  · next hwrite =>
    have hdry : o.dryRun = false := by simpa using hwrite
    apply Touches.bind_pure
    simpa [hdry] using touches_writeFiles hl (o.apply c) _
  · next hwrite =>
    exact touches_pure _ _

theorem touches_render (hl : Host.Lawful disk) (o : RenderOptions) (c : Config) :
    Touches disk (render o c) (written none (o.apply c).markdown) := by
  unfold render
  dsimp only
  split
  · exact touches_throw _ _
  · next path hpath =>
    apply (touches_load hl (o.apply c).catalog).adapt.bind
    intro catalog
    apply (touches_allEscapeWords hl _).adapt.bind
    intro words
    apply Reads.bind hl.now
    intro updated
    rw [hpath]
    apply Touches.bind_pure
    simpa only [written_map] using touches_publish hl catalog path words updated

/-! ## All outcomes -/

theorem sync_same_of_dryRun (hl : Host.Lawful disk) {o : SyncOptions} (hdry : o.dryRun = true)
    (c : Config) (s : σ) : (disk s).Same (disk (afterwards (sync o c).run s)) := by
  have htouches := touches_sync hl o c
  rw [if_pos hdry] at htouches
  exact htouches.same s

theorem touches_sync_written (hl : Host.Lawful disk) (o : SyncOptions) (c : Config) :
    Touches disk (sync o c) (written (some (o.apply c).catalog) (o.apply c).markdown) := by
  cases hdry : o.dryRun with
  | false => simpa [hdry] using touches_sync hl o c
  | true => exact fun s => (sync_same_of_dryRun hl hdry c s).changesAt _

/-- An `inspect` or a dry run changes nothing, and neither does a command that
fails while it reads; a `sync` that fails to store keeps the catalog; and no
command changes anything but its outputs and their siblings. -/
theorem commands_change_outputs_only (hl : Host.Lawful disk) (c : Config) (s : σ) :
    (∀ o : InspectOptions, (disk s).Same (disk (afterwards (inspect o c).run s))) ∧
    (∀ o : SyncOptions,
      let catalog := (o.apply c).catalog
      let markdown := (o.apply c).markdown
      let after := disk (afterwards (sync o c).run s)
      (o.dryRun = true → (disk s).Same after) ∧
      (∀ failure, answer (sync o c).run s = .error failure → failure.WhileReading →
        (disk s).Same after) ∧
      (∀ fault, answer (sync o c).run s = .error (.store fault) →
        after.holds? catalog = (disk s).holds? catalog ∧
          (disk s).ChangesAt (siblings catalog) after) ∧
      (disk s).ChangesAt (withSiblings catalog ++ markdown.elim [] withSiblings) after) ∧
    (∀ o : RenderOptions,
      let markdown := (o.apply c).markdown
      let after := disk (afterwards (render o c).run s)
      (∀ failure, answer (render o c).run s = .error failure → failure.WhileReading →
        (disk s).Same after) ∧
      (disk s).ChangesAt (markdown.elim [] withSiblings) after) := by
  refine ⟨fun o => ?_, fun o => ⟨?_, ?_, ?_, ?_⟩, fun o => ⟨?_, ?_⟩⟩
  · exact (touches_observe hl o.source (o.observe.apply c)).same s
  · intro hdry
    exact sync_same_of_dryRun hl hdry c s
  · intro failure hanswer hreading
    exact same_of_reading (touches_sync_written hl o c) hanswer hreading
  · intro fault hanswer
    have hchanges := touches_sync_written hl o c s
    rw [hanswer] at hchanges
    exact ⟨Disk.ChangesAt.holds?_of_siblings hchanges, hchanges⟩
  · exact (touches_sync_written hl o c s).mono (written_subset _ _ _)
  · intro failure hanswer hreading
    exact same_of_reading (touches_render hl o c) hanswer hreading
  · exact (touches_render hl o c s).mono (written_subset _ _ _)

/-- A machine on which no catalog can be staged. -/
def blockedMachine : Machine where
  disk := { entries := [(["metrics.yaml.tmp"], .directory)] }

theorem commands_on_blockedMachine :
    (answer (sync { source := "-" } {}).run blockedMachine =
        .error (.store { path := "metrics.yaml.tmp", cause := .isDirectory }) ∧
      blockedMachine.disk.ChangesAt ["metrics.yaml.bak", "metrics.yaml.tmp"]
        (afterwards (sync { source := "-" } {}).run blockedMachine).disk) ∧
    answer (render {} {}).run blockedMachine = .error .noMarkdown ∧
      blockedMachine.disk.Same (afterwards (render {} {}).run blockedMachine).disk := by
  have hstore : answer (sync { source := "-" } {}).run blockedMachine =
      .error (.store { path := "metrics.yaml.tmp", cause := .isDirectory }) := rfl
  have hmarkdown : answer (render {} {}).run blockedMachine = .error .noMarkdown := rfl
  obtain ⟨-, hsync, hrender⟩ := commands_change_outputs_only Machine.lawful {} blockedMachine
  exact ⟨⟨hstore, ((hsync { source := "-" }).2.2.1 _ hstore).2⟩,
    hmarkdown, (hrender {}).1 _ hmarkdown .noMarkdown⟩

end Run

end

end MetricCatalog
