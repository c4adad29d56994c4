import MetricCatalog.Proofs.DependableMachine
import MetricCatalog.Proofs.DocumentForms
import Mathlib.Data.List.Induction
/-!
# A catalog file over its whole life

Catalogs are stored on one path, one after the other, and any of the calls may
fail.  What a call leaves depends on the file alone, so two facts are carried
along: which document the path holds since the last call that succeeded, and,
as long as none has, that the path reads as it did at the start.
-/

namespace MetricCatalog

variable {σ : Type} {disk : σ → Disk} {path : String} {contents : ByteArray}

namespace Disk

variable {d d' : Disk}

/-! ## Where only siblings change -/

/-- A path and its siblings are looked up through the same parents, so what the
siblings become does not show at the path, not even in an error. -/
theorem ChangesAt.locate_eq_of_siblings (h : d.ChangesAt (siblings path) d') :
    d'.locate path = d.locate path := by
  obtain ⟨parents, last, hnames, happend⟩ := exists_names path
  by_cases hdir : ∃ dir, d.follow [] parents = .ok dir ∧ d.at? dir = some .directory
  · obtain ⟨dir, hparents, hentry⟩ := hdir
    have hfollow : d'.follow [] (names path) = d.follow [] (names path) := by
      rw [hnames, follow_append, follow_append, hparents, h.follow_eq_ok.2 hparents]
      simp only [Except.bind, follow_cons, hentry, (h.directory_iff dir).2 hentry]
      rfl
    simp only [locate, hfollow]
  · have hnowhere (suffix : String) (hsuffix : IsSuffix suffix) (l : Location) :
        d.locate (path ++ suffix) ≠ .ok l := fun hl => by
      obtain ⟨-, dir, hparents, hentry, -⟩ :=
        (locate_eq_ok_of_names (happend suffix hsuffix)).1 hl
      exact hdir ⟨dir, hparents, hentry⟩
    have hsame : d.Same d' := fun l => h.elsewhere l fun sibling hmem => by
      obtain rfl | rfl : sibling = backupPath path ∨ sibling = stagingPath path := by
        simpa [siblings] using hmem
      · exact hnowhere ".bak" isSuffix_bak l
      · exact hnowhere ".tmp" isSuffix_tmp l
    exact hsame.locate_eq

theorem ChangesAt.read_eq_of_siblings (h : d.ChangesAt (siblings path) d') :
    d'.read path = d.read path := by
  unfold read
  rw [h.locate_eq_of_siblings]
  cases hlocate : d.locate path with
  | error e => rfl
  | ok l =>
      have hheld := h.holds?_of_siblings
      rw [holds?_of_locate hlocate, holds?_of_locate (h.locate_eq_ok.2 hlocate)] at hheld
      simp only [bind, Except.bind, hheld]

end Disk

variable [Host (StateM σ)] {s s' : σ}

/-- Where there is nothing to back up, a replacement that fails keeps the backup. -/
theorem Replacing.backup_of_error (ht : Host.Truthful disk) {fault : FileFault}
    (h : Replacing path contents s (.error fault) s')
    (hnone : ∀ c, (disk s).holds? path ≠ some (.file c)) :
    (disk s').holds? (backupPath path) = (disk s).holds? (backupPath path) := by
  have hbackup : (disk s).Same (disk (backedUp path s)) := ht.same_copyFile path _ s hnone
  have hstaged : (disk s).ChangesAt [stagingPath path] (disk (staged path contents s)) :=
    (hbackup.changesAt _).trans ht.changesAt_writeFile
  have hchanges : (disk s).ChangesAt [stagingPath path] (disk s') := by
    cases h with
    | backupFailed hcopy hcause => exact hbackup.changesAt _
    | stagingFailed hmade hwrite => exact hstaged.trans ht.changesAt_removeFile
    | moveFailed hmade hwrite hmove =>
        have hsame : (disk (staged path contents s)).Same (disk (moved path contents s)) :=
          (ht.renameFile _ _ _ _ (ht.holds?_writeFile hwrite)).of_error hmove
        exact (hstaged.trans (hsame.changesAt _)).trans ht.changesAt_removeFile
  refine hchanges.holds?_eq fun other hmem => ?_
  obtain rfl := List.mem_singleton.1 hmem
  exact (Disk.apart_backupPath_stagingPath _ path).symm

namespace Catalog

/-! ## Histories -/

/-- How far a history has come: the state of the machine and the catalog of the
last call that succeeded. -/
structure Stored (σ : Type) where
  state : σ
  last : Option Catalog := none

/-- Stores one more catalog. -/
def Stored.next (path : String) (h : Stored σ) (c : Catalog) : Stored σ where
  state := afterwards (c.store path).run h.state
  last :=
    match answer (c.store path).run h.state with
    | .ok () => some c
    | .error _ => h.last

/-- Catalogs stored one after the other, whatever becomes of each call. -/
def storeAll (path : String) (catalogs : List Catalog) (s : σ) : Stored σ :=
  catalogs.foldl (Stored.next path) { state := s }

@[simp] theorem storeAll_nil : storeAll path [] s = { state := s } := rfl

theorem storeAll_concat (catalogs : List Catalog) (c : Catalog) :
    storeAll path (catalogs ++ [c]) s = (storeAll path catalogs s).next path c := by
  rw [storeAll, List.foldl_append]
  rfl

/-! ## What is on the disk -/

/-- What a history that began with one disk and has come so far leaves there. -/
structure Keeps (disk : σ → Disk) (path : String) (start : Disk) (h : Stored σ) : Prop where
  held : ∀ c, h.last = some c →
    (disk h.state).holds? path = some (.file c.render.toUTF8)
  siblings : h.last = none → start.ChangesAt (siblings path) (disk h.state)
  /-- While there is no file, there is nothing to back up. -/
  backup : h.last = none → (∀ c, start.holds? path ≠ some (.file c)) →
    (disk h.state).holds? (backupPath path) = start.holds? (backupPath path)

theorem Keeps.next (ht : Host.Truthful disk) {start : Disk} {h : Stored σ}
    (hk : Keeps disk path start h) (c : Catalog) : Keeps disk path start (h.next path c) := by
  have hrun := replacing_replaceFile path c.render.toUTF8 h.state
  cases hanswer : answer (c.store path).run h.state with
  | ok u =>
      have hlast : (h.next path c).last = some c := by simp only [Stored.next, hanswer]
      have hreplaced := replaced_of_replaceFile ht.toLawful hanswer
      exact {
        held := fun x hx => by
          obtain rfl : c = x := Option.some.inj (hlast.symm.trans hx)
          exact hreplaced.target
        siblings := fun hnone => by simp [hlast] at hnone
        backup := fun hnone => by simp [hlast] at hnone }
  | error fault =>
      have hlast : (h.next path c).last = h.last := by simp only [Stored.next, hanswer]
      have hfailed : Replacing path c.render.toUTF8 h.state (.error fault)
          (h.next path c).state := hanswer ▸ hrun
      have hchanges := hfailed.changesAt_of_error ht.toLawful
      exact {
        held := fun x hx =>
          hchanges.holds?_of_siblings.trans (hk.held x (hlast.symm.trans hx))
        siblings := fun hnone => (hk.siblings (hlast.symm.trans hnone)).trans hchanges
        backup := fun hnone hempty => by
          have hnone := hlast.symm.trans hnone
          have hkept := hfailed.backup_of_error ht fun c hheld =>
            hempty c ((hk.siblings hnone).holds?_of_siblings.symm.trans hheld)
          exact hkept.trans (hk.backup hnone hempty) }

theorem keeps_storeAll (ht : Host.Truthful disk) (path : String) (catalogs : List Catalog)
    (s : σ) : Keeps disk path (disk s) (storeAll path catalogs s) := by
  induction catalogs using List.reverseRecOn with
  | nil =>
      exact {
        held := fun _ h => nomatch h
        siblings := fun _ => (Disk.Same.refl (disk s)).changesAt _
        backup := fun _ _ => rfl }
  | append_singleton catalogs c ih =>
      rw [storeAll_concat]
      exact ih.next ht c

/-- The last catalog stored is one of those that were to be stored. -/
theorem mem_of_last {catalogs : List Catalog} {c : Catalog}
    (h : (storeAll path catalogs s).last = some c) : c ∈ catalogs := by
  induction catalogs using List.reverseRecOn with
  | nil => cases h
  | append_singleton catalogs x ih =>
      rw [storeAll_concat, Stored.next] at h
      dsimp only at h
      split at h
      · obtain rfl := Option.some.inj h
        exact List.mem_concat_self
      · exact List.mem_append_left _ (ih h)

/-! ## What loads -/

theorem load_of_held (ht : Host.Truthful disk) {c : Catalog} (hd : c.Distinct)
    (hheld : (disk s).holds? path = some (.file c.render.toUTF8)) :
    answer (load path).run s = .ok c := by
  rw [ht.answer_load, Disk.load_of_text hheld, parse_render hd]
  rfl

theorem answer_load_congr (ht : Host.Truthful disk)
    (h : (disk s').read path = (disk s).read path) :
    answer (load path).run s' = answer (load path).run s := by
  rw [ht.answer_load, ht.answer_load, Disk.load_congr h]

omit [Host (StateM σ)] in
/-- The backup has the document of the last call that succeeded, or else what
the path held at the start. -/
theorem Keeps.saved {start d : Disk} {h : Stored σ} (hk : Keeps disk path start h)
    (hsaved : (disk h.state).Saved path d) :
    match h.last with
    | some previous => d.holds? (backupPath path) = some (.file previous.render.toUTF8)
    | none => start.Saved path d := by
  split
  · next previous hlast =>
    have hheld := hk.held previous hlast
    cases hsaved with
    | copied hcopied hbackup =>
        rw [hbackup, ← hcopied, hheld]
    | nothing hnothing hbackup =>
        rw [hheld] at hnothing
        cases hnothing
  · next hlast =>
    have hheld := (hk.siblings hlast).holds?_of_siblings
    cases hsaved with
    | copied hcopied hbackup => exact .copied (hheld.symm.trans hcopied) hbackup
    | nothing hnothing hbackup =>
        have hnothing := hheld.symm.trans hnothing
        exact .nothing hnothing
          (hbackup.trans (hk.backup hlast fun c hc => by rw [hnothing] at hc; cases hc))

/-- After any calls, some of which fail, the path loads as the catalog of the
last call that succeeded, or as it did at the start if none has.  One more call
either fails and does not show when the path is loaded, or it succeeds: then its
catalog loads, and the backup has the document of the call before that succeeded;
for the first one, what the path held at the start, if it held anything. -/
theorem storeAll_loads_and_backs_up (ht : Host.Truthful disk) (path : String)
    (catalogs : List Catalog) (c : Catalog) (hd : ∀ x ∈ c :: catalogs, x.Distinct) (s : σ) :
    let before := storeAll path catalogs s
    let after := before.next path c
    answer (load path).run before.state =
      before.last.elim (answer (load path).run s) .ok ∧
    match answer (c.store path).run before.state with
    | .ok () =>
      answer (load path).run after.state = .ok c ∧
      match before.last with
      | some previous =>
        (disk after.state).holds? (backupPath path) = some (.file previous.render.toUTF8)
      | none => (disk s).Saved path (disk after.state)
    | .error _ => answer (load path).run after.state = answer (load path).run before.state := by
  intro before after
  have hbefore : Keeps disk path (disk s) before := keeps_storeAll ht path catalogs s
  have hafter : Keeps disk path (disk s) after := hbefore.next ht c
  have hrun := replacing_replaceFile path c.render.toUTF8 before.state
  refine ⟨?_, ?_⟩
  · cases hlast : before.last with
    | none => exact answer_load_congr ht (hbefore.siblings hlast).read_eq_of_siblings
    | some x =>
        have hmem : x ∈ c :: catalogs := List.mem_cons_of_mem c (mem_of_last hlast)
        exact load_of_held ht (hd x hmem) (hbefore.held x hlast)
  · split
    · next hok =>
      have hreplaced := replaced_of_replaceFile ht.toLawful hok
      have hmem : c ∈ c :: catalogs := List.mem_cons_self
      exact ⟨load_of_held ht (hd c hmem) hreplaced.target,
        hbefore.saved hreplaced.backup⟩
    · next fault herror =>
      have hfailed : Replacing path c.render.toUTF8 before.state (.error fault) after.state :=
        herror ▸ hrun
      exact answer_load_congr ht (hfailed.changesAt_of_error ht.toLawful).read_eq_of_siblings

/-- Two catalogs stored where a file was, each at the second attempt. -/
theorem storeAll_tightMachine :
    let first : Catalog := {
      version := "1"
      components := [.uncurated "jvm_threads" [{
        name := "jvm_threads_state"
        kind := .gauge
        labels := [.enumerated "state" ["blocked", "runnable"], .openEnded "pool"] }]] }
    let second : Catalog := { first with version := "2" }
    let start : TightMachine := { machine := crowdedMachine, room := [false, true, false] }
    let full : FileFault :=
      { path := "m.tmp", cause := .other "No space left on device (os error 28)" }
    let refused := storeAll "m" [first] start
    let stored := storeAll "m" [first, first] start
    let kept := storeAll "m" [first, first, second] start
    let replaced := storeAll "m" [first, first, second, second] start
    answer (first.store "m").run start = .error full ∧
      answer (load "m").run refused.state = answer (load "m").run start ∧
      answer (load "m").run stored.state = .ok first ∧
      start.files.Saved "m" stored.state.files ∧
      answer (second.store "m").run stored.state = .error full ∧
      answer (load "m").run kept.state = .ok first ∧
      answer (load "m").run replaced.state = .ok second ∧
      replaced.state.files.holds? "m.bak" = some (.file first.render.toUTF8) := by
  intro first second start full refused stored kept replaced
  have hfirst : first.Distinct := by decide
  have hsecond : second.Distinct := by decide
  have hrefused : answer (first.store "m").run start = .error full := by decide +kernel
  have hstored : answer (first.store "m").run (storeAll "m" [first] start).state = .ok () := by
    decide +kernel
  have hkept : answer (second.store "m").run stored.state = .error full := by decide +kernel
  have hreplaced : answer (second.store "m").run
      (storeAll "m" [first, first, second] start).state = .ok () := by
    decide +kernel
  have hnone : (storeAll "m" [first] start).last = none := by decide +kernel
  have hlast : (storeAll "m" [first, first, second] start).last = some first := by
    decide +kernel
  -- from here on only these facts matter, not how they came about
  clear_value first second start full
  have ht := TightMachine.truthful
  have hunchanged := storeAll_loads_and_backs_up ht "m" [] first (by simp [hfirst]) start
  have hloads := storeAll_loads_and_backs_up ht "m" [first] first (by simp [hfirst]) start
  have hrotated := storeAll_loads_and_backs_up ht "m" [first, first, second] second
    (by simp [hfirst, hsecond]) start
  simp only [storeAll_nil, hrefused] at hunchanged
  simp only [hstored, hnone] at hloads
  simp only [hreplaced, hlast] at hrotated
  exact ⟨hrefused, hunchanged.2, hloads.2.1, hloads.2.2, hkept, hrotated⟩

end Catalog

end MetricCatalog
