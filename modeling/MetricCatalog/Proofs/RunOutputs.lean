import MetricCatalog.Proofs.Replaceable
import MetricCatalog.Proofs.RunEffects
/-!
# What a synchronisation writes

A run that succeeds has gone through all its steps, so its outputs have been
replaced, the catalog first and the reference after it.
-/

namespace MetricCatalog

variable {σ ε ε' α β : Type} {disk : σ → Disk}

/-! ## Steps of a run that succeeds -/

section

variable {x : ExceptT ε (StateM σ) α} {f : α → ExceptT ε (StateM σ) β} {s : σ}

theorem run_bind_eq_ok {b : β} (h : answer (x >>= f).run s = .ok b) :
    ∃ a, answer x.run s = .ok a ∧ answer (f a).run (afterwards x.run s) = .ok b ∧
      afterwards (x >>= f).run s = afterwards (f a).run (afterwards x.run s) := by
  cases hx : answer x.run s with
  | error e =>
      rw [(run_bind_of_error (f := f) hx).1] at h
      cases h
  | ok a =>
      obtain ⟨hanswer, hstate⟩ := run_bind_of_ok (f := f) hx
      exact ⟨a, rfl, hanswer.symm.trans h, hstate⟩

theorem afterwards_adapt (g : ε → ε') : afterwards (x.adapt g).run s = afterwards x.run s := rfl

theorem answer_adapt_eq_ok {g : ε → ε'} {a : α} :
    answer (x.adapt g).run s = .ok a ↔ answer x.run s = .ok a := by
  rw [answer_adapt]
  cases answer x.run s <;> constructor <;> rintro ⟨⟩ <;> rfl

end

/-! ## Files replaced in a row -/

/-- Files are replaced one after the other, and nothing else happens. -/
inductive ReplacesAll [Host (StateM σ)] (disk : σ → Disk) :
    σ → List (String × ByteArray) → σ → Prop
  | nil {s s' : σ} (hsame : (disk s).Same (disk s')) : ReplacesAll disk s [] s'
  | cons {s s₁ s' : σ} {path : String} {contents : ByteArray} {rest : List (String × ByteArray)}
      (hsame : (disk s).Same (disk s₁))
      (hok : answer (replaceFile path contents).run s₁ = .ok ())
      (hrest : ReplacesAll disk (afterwards (replaceFile path contents).run s₁) rest s') :
      ReplacesAll disk s ((path, contents) :: rest) s'

/-- No two of the files, with their siblings, are at one place. -/
def Disk.AllApart (d : Disk) (outputs : List (String × ByteArray)) : Prop :=
  outputs.Pairwise fun o o' => d.FamiliesApart o.1 o'.1

namespace ReplacesAll

variable [Host (StateM σ)] {s s' : σ} {outputs : List (String × ByteArray)}

theorem changesAt (hl : Host.Lawful disk) (h : ReplacesAll disk s outputs s') :
    (disk s).ChangesAt (outputs.flatMap fun o => withSiblings o.1) (disk s') := by
  induction h with
  | nil hsame => exact hsame.changesAt _
  | cons hsame hok hrest ih =>
      have hfirst := (replaced_of_replaceFile hl hok).changesAt
      rw [List.flatMap_cons]
      exact ((hsame.changesAt _).trans (hfirst.mono (List.subset_append_left _ _))).trans
        (ih.mono (List.subset_append_right _ _))

/-- What a replacement leaves stays, if the files after it are elsewhere. -/
theorem apart_rest {d d' : Disk} {paths : List String} {path p : String}
    (hchanges : d.ChangesAt paths d') (hp : p ∈ withSiblings path)
    (hapart : ∀ o ∈ outputs, d.FamiliesApart path o.1) :
    ∀ q ∈ outputs.flatMap fun o => withSiblings o.1, d'.Apart q p := by
  intro q hq
  obtain ⟨o, ho, hq⟩ := List.mem_flatMap.1 hq
  exact hchanges.apart (hapart o ho p hp q hq).symm

theorem target (hl : Host.Lawful disk) (h : ReplacesAll disk s outputs s')
    (hapart : (disk s).AllApart outputs) :
    ∀ path contents, (path, contents) ∈ outputs →
      (disk s').holds? path = some (.file contents) := by
  induction h with
  | nil hsame => exact fun _ _ ho => absurd ho List.not_mem_nil
  | cons hsame hok hrest ih =>
      have hreplaced := replaced_of_replaceFile hl hok
      have hchanges := (hsame.changesAt _).trans hreplaced.changesAt
      obtain ⟨hfirst, hothers⟩ := List.pairwise_cons.1 hapart
      intro path contents ho
      rcases List.mem_cons.1 ho with heq | ho
      · obtain ⟨rfl, rfl⟩ := Prod.mk.inj heq
        refine ((hrest.changesAt hl).holds?_eq ?_).trans hreplaced.target
        exact apart_rest hchanges (Disk.mem_withSiblings_self _) hfirst
      · exact ih (hothers.imp fun h => hchanges.familiesApart h) path contents ho

theorem replaceable (hl : Host.Lawful disk) (h : ReplacesAll disk s outputs s')
    (hapart : (disk s).AllApart outputs)
    (hfile : ∀ o ∈ outputs, (disk s).holds? (backupPath o.1) ≠ some .directory) :
    ∀ o ∈ outputs, (disk s').Replaceable o.1 := by
  induction h with
  | nil hsame => exact fun o ho => absurd ho List.not_mem_nil
  | cons hsame hok hrest ih =>
      have hreplaced := replaced_of_replaceFile hl hok
      have hchanges := (hsame.changesAt _).trans hreplaced.changesAt
      obtain ⟨hfirst, hothers⟩ := List.pairwise_cons.1 hapart
      intro o ho
      rcases List.mem_cons.1 ho with rfl | ho
      · have hbackup := hfile _ List.mem_cons_self
        rw [← hsame.holds?_eq] at hbackup
        refine (replaceable_of_replaceFile hl hok hbackup).of_changesAt (hrest.changesAt hl) ?_
        exact apart_rest hchanges (Disk.mem_withSiblings_self _) hfirst
      · refine ih (hothers.imp fun h => hchanges.familiesApart h) (fun x hx hdir => ?_) o ho
        exact hfile x (List.mem_cons_of_mem _ hx) (hchanges.holds?_directory.1 hdir)

end ReplacesAll

/-! ## A synchronisation -/

namespace Run

open CommandLine (SyncOptions)

variable [Host (StateM σ)] {s : σ}

/-- The outputs for a catalog, in the order in which they are written. -/
def outputs (c : Config) (catalog : Catalog) (words : KeySet) (updated : Timestamp) :
    List (String × ByteArray) :=
  (c.catalog, catalog.render.toUTF8) ::
    (c.markdown.map fun path => (path, (catalog.toMarkdown words updated).toUTF8)).toList

/-- The files that are written, without the siblings that help to write them. -/
def outputFiles (c : Config) : List String := c.catalog :: c.markdown.toList

theorem map_fst_outputs (c : Config) (catalog : Catalog) (words : KeySet) (updated : Timestamp) :
    (outputs c catalog words updated).map Prod.fst = outputFiles c := by
  unfold outputs outputFiles
  cases c.markdown <;> rfl

theorem mem_outputs (c : Config) (catalog : Catalog) (words : KeySet) (updated : Timestamp) :
    (c.catalog, catalog.render.toUTF8) ∈ outputs c catalog words updated := List.mem_cons_self

theorem replacesAll_writeFiles (hl : Host.Lawful disk) {c : Config} {catalog : Catalog}
    (hok : answer (writeFiles c catalog).run s = .ok ()) :
    ∃ words updated, ReplacesAll disk s (outputs c catalog words updated)
        (afterwards (writeFiles c catalog).run s) ∧
      (c.markdown.isSome → answer c.allEscapeWords.run s = .ok words) := by
  unfold writeFiles outputs at *
  cases hpath : c.markdown with
  | none =>
      simp only [hpath] at hok ⊢
      exact ⟨.empty, answer Host.now s,
        .cons (.refl _) (answer_adapt_eq_ok.1 hok) (.nil (.refl _)), by simp⟩
  | some path =>
      simp only [hpath] at hok ⊢
      obtain ⟨words, hwords, hok, hread⟩ := run_bind_eq_ok hok
      obtain ⟨⟨⟩, hstored, hok, hstate⟩ := run_bind_eq_ok hok
      rw [answer_run_bind] at hok
      rw [hread, hstate, afterwards_run_bind]
      have hsame := (touches_allEscapeWords hl c).same s
      exact ⟨words, _, .cons hsame (answer_adapt_eq_ok.1 hstored)
        (.cons (hl.now _) (answer_adapt_eq_ok.1 hok) (.nil (.refl _))),
        fun _ => answer_adapt_eq_ok.1 hwords⟩

/-- What is told of a synchronisation that made this catalog out of another. -/
def summaryOf (o : SyncOptions) (c : Config) (current : Catalog) (made : Catalog × Report) :
    Summary where
  source := o.source
  catalog := c.catalog
  markdown := c.markdown
  dryRun := o.dryRun
  changed := made.1 ≠ current
  version := made.1.version
  components := made.1.components.length
  metrics := made.1.metricCount
  report := made.2

/-- The state when a synchronisation has read its snapshot and its catalog. -/
def afterReading (o : SyncOptions) (c : Config) (s : σ) : σ :=
  afterwards (Catalog.load (o.apply c).catalog).run
    (afterwards (observe o.source (o.apply c)).run s)

/-- What a synchronisation reads. -/
structure ReadsFrom (o : SyncOptions) (c : Config) (s : σ) (observed current : Catalog) :
    Prop where
  observed : answer (observe o.source (o.apply c)).run s = .ok observed
  current : answer (Catalog.load (o.apply c).catalog).run
    (afterwards (observe o.source (o.apply c)).run s) = .ok current

variable {o : SyncOptions} {c : Config} {observed current : Catalog}

theorem same_afterReading (hl : Host.Lawful disk) (o : SyncOptions) (c : Config) (s : σ) :
    (disk s).Same (disk (afterReading o c s)) :=
  ((touches_observe hl o.source (o.apply c)).same s).trans ((touches_load hl _).same _)

theorem exists_readsFrom {summary : Summary} (hok : answer (sync o c).run s = .ok summary) :
    ∃ observed current, ReadsFrom o c s observed current := by
  unfold sync at hok
  obtain ⟨observed, hobserved, hok, -⟩ := run_bind_eq_ok hok
  obtain ⟨current, hcurrent, -, -⟩ := run_bind_eq_ok hok
  exact ⟨observed, current, hobserved, answer_adapt_eq_ok.1 hcurrent⟩

/-- Once it has read, a dry run only tells what it would do. -/
theorem ReadsFrom.answer_dryRun (hr : ReadsFrom o c s observed current) (hdry : o.dryRun = true) :
    answer (sync o c).run s =
      .ok (summaryOf o (o.apply c) current (reconcile (o.apply c) current observed)) := by
  unfold sync
  dsimp only
  rw [(run_bind_of_ok hr.observed).1, (run_bind_of_ok (answer_adapt_eq_ok.2 hr.current)).1,
    if_neg (by simp [hdry])]
  rfl

theorem ReadsFrom.sync_eq (hr : ReadsFrom o c s observed current) (hwet : o.dryRun = false) :
    answer (sync o c).run s =
      (answer (writeFiles (o.apply c) (reconcile (o.apply c) current observed).1).run
        (afterReading o c s)).map (fun _ =>
          summaryOf o (o.apply c) current (reconcile (o.apply c) current observed)) ∧
    afterwards (sync o c).run s =
      afterwards (writeFiles (o.apply c) (reconcile (o.apply c) current observed).1).run
        (afterReading o c s) := by
  have hcurrent : answer ((Catalog.load (o.apply c).catalog).adapt
      (Failure.load (o.apply c).catalog)).run
      (afterwards (observe o.source (o.apply c)).run s) = .ok current :=
    answer_adapt_eq_ok.2 hr.current
  unfold sync
  dsimp only
  rw [(run_bind_of_ok hr.observed).1, (run_bind_of_ok hr.observed).2,
    (run_bind_of_ok hcurrent).1, (run_bind_of_ok hcurrent).2, if_pos (by simp [hwet])]
  cases hwrite : answer (writeFiles (o.apply c) (reconcile (o.apply c) current observed).1).run
      (afterReading o c s) with
  | ok u =>
      obtain ⟨hanswer, hstate⟩ := run_bind_of_ok hwrite
      exact ⟨hanswer, hstate⟩
  | error e =>
      obtain ⟨hanswer, hstate⟩ := run_bind_of_error hwrite
      exact ⟨hanswer, hstate⟩

theorem ReadsFrom.sync_eq_ok (hr : ReadsFrom o c s observed current) (hwet : o.dryRun = false)
    {summary : Summary} (hok : answer (sync o c).run s = .ok summary) :
    summary = summaryOf o (o.apply c) current (reconcile (o.apply c) current observed) ∧
    answer (writeFiles (o.apply c) (reconcile (o.apply c) current observed).1).run
      (afterReading o c s) = .ok () := by
  have hanswer := (hr.sync_eq hwet).1
  rw [hok] at hanswer
  cases hwrite : answer (writeFiles (o.apply c) (reconcile (o.apply c) current observed).1).run
      (afterReading o c s) with
  | ok u =>
      rw [hwrite] at hanswer
      exact ⟨Except.ok.inj hanswer, rfl⟩
  | error e =>
      rw [hwrite] at hanswer
      cases hanswer

end Run

end MetricCatalog
