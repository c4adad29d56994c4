import MetricCatalog.Proofs.HostFiles
import MetricCatalog.Proofs.SiblingPaths
/-!
# Replacing a file on a machine that may fail

A replacement ends in one of four ways, each with the state that its last step
leaves.  What every step changes is known of the machine, so each end is
followed back to the disk at the start.
-/

namespace MetricCatalog

variable {σ : Type} [Host (StateM σ)] {disk : σ → Disk} {path : String} {contents : ByteArray}
  {s : σ}

/-! ## The steps -/

/-- The state when the old contents have been copied, if that can be done. -/
def backedUp (path : String) (s : σ) : σ :=
  afterwards (Host.copyFile path (backupPath path)) s

def staged (path : String) (contents : ByteArray) (s : σ) : σ :=
  afterwards (Host.writeFile (stagingPath path) contents) (backedUp path s)

def moved (path : String) (contents : ByteArray) (s : σ) : σ :=
  afterwards (Host.renameFile (stagingPath path) path) (staged path contents s)

/-- There is a backup of what there was, or there was nothing. -/
def BackupMade (path : String) (s : σ) : Prop :=
  answer (Host.copyFile path (backupPath path)) s = .ok () ∨
    answer (Host.copyFile path (backupPath path)) s = .error .missing

/-- How a replacement ends, and where it leaves the machine. -/
inductive Replacing (path : String) (contents : ByteArray) (s : σ) :
    Except FileFault Unit → σ → Prop
  | backupFailed {cause : FileError}
      (hcopy : answer (Host.copyFile path (backupPath path)) s = .error cause)
      (hcause : cause ≠ .missing) :
      Replacing path contents s (.error { path := backupPath path, cause }) (backedUp path s)
  | stagingFailed {cause : FileError} (hbackup : BackupMade path s)
      (hwrite : answer (Host.writeFile (stagingPath path) contents) (backedUp path s) =
        .error cause) :
      Replacing path contents s (.error { path := stagingPath path, cause })
        (afterwards (Host.removeFile (stagingPath path)) (staged path contents s))
  | moveFailed {cause : FileError} (hbackup : BackupMade path s)
      (hwrite : answer (Host.writeFile (stagingPath path) contents) (backedUp path s) = .ok ())
      (hmove : answer (Host.renameFile (stagingPath path) path) (staged path contents s) =
        .error cause) :
      Replacing path contents s (.error { path, cause })
        (afterwards (Host.removeFile (stagingPath path)) (moved path contents s))
  | replaced (hbackup : BackupMade path s)
      (hwrite : answer (Host.writeFile (stagingPath path) contents) (backedUp path s) = .ok ())
      (hmove : answer (Host.renameFile (stagingPath path) path) (staged path contents s) = .ok ()) :
      Replacing path contents s (.ok ()) (moved path contents s)

theorem eq_ok_of_forall_ne_error {ε : Type} {r : Except ε Unit} (h : ∀ e, r = .error e → False) :
    r = .ok () := by
  cases r with
  | ok u => rfl
  | error e => exact (h e rfl).elim

theorem replacing_replaceFile (path : String) (contents : ByteArray) (s : σ) :
    Replacing path contents s (answer (replaceFile path contents).run s)
      (afterwards (replaceFile path contents).run s) := by
  unfold replaceFile
  rw [answer_run_bind, afterwards_run_bind]
  split
  case h_3 cause hcause hcopy => exact .backupFailed hcopy hcause
  -- a backup that is made and one that is not needed go on alike
  all_goals
    next hcopy =>
    have hbackup : BackupMade path s := by simp [BackupMade, hcopy]
    dsimp only
    rw [answer_run_bind, afterwards_run_bind]
    split
    · next cause hwrite => exact .stagingFailed hbackup hwrite
    · next hwrite =>
      have hwrite : answer (Host.writeFile (stagingPath path) contents) (backedUp path s) =
          .ok () := eq_ok_of_forall_ne_error hwrite
      rw [answer_run_bind, afterwards_run_bind]
      split
      · next cause hmove => exact .moveFailed hbackup hwrite hmove
      · next hmove => exact .replaced hbackup hwrite (eq_ok_of_forall_ne_error hmove)

/-! ## What each step leaves -/

def siblings (path : String) : List String := [backupPath path, stagingPath path]

def withSiblings (path : String) : List String := path :: siblings path

namespace Disk

variable {d d' d'' : Disk}

/-- What a path held is at its backup; if it held nothing, the backup is as it
was. -/
inductive Saved (d : Disk) (path : String) (d' : Disk) : Prop
  | copied {old : ByteArray} (hheld : d.holds? path = some (.file old))
      (hbackup : d'.holds? (backupPath path) = some (.file old))
  | nothing (hheld : d.holds? path = none)
      (hbackup : d'.holds? (backupPath path) = d.holds? (backupPath path))

theorem Saved.of_holds?_eq (h : d.Saved path d')
    (hbackup : d''.holds? (backupPath path) = d'.holds? (backupPath path)) :
    d.Saved path d'' := by
  cases h with
  | copied hheld hcopied => exact .copied hheld (hbackup.trans hcopied)
  | nothing hheld hkept => exact .nothing hheld (hbackup.trans hkept)

/-- A path holds new contents, its backup the old ones, and nothing is left of
the way there. -/
structure Replaced (d : Disk) (path : String) (contents : ByteArray) (d' : Disk) : Prop where
  target : d'.holds? path = some (.file contents)
  backup : d.Saved path d'
  staging : d'.holds? (stagingPath path) = none
  changesAt : d.ChangesAt (withSiblings path) d'

/-- A file is not at the place of either of its siblings. -/
theorem ChangesAt.holds?_of_siblings (h : d.ChangesAt (siblings path) d') :
    d'.holds? path = d.holds? path :=
  h.holds?_eq fun sibling hmem => by
    obtain rfl | rfl : sibling = backupPath path ∨ sibling = stagingPath path := by
      simpa [siblings] using hmem
    · exact (d.apart_backupPath path).symm
    · exact (d.apart_stagingPath path).symm

end Disk

theorem saved_backedUp (hl : Host.Lawful disk) (hbackup : BackupMade path s) :
    (disk s).Saved path (disk (backedUp path s)) := by
  rcases hbackup with hcopied | hmissing
  · obtain ⟨old, hheld, hcopy⟩ := hl.holds?_copyFile hcopied
    exact .copied hheld hcopy
  · obtain ⟨hcopy, hsame⟩ := hl.copyFile_missing path (backupPath path) s hmissing
    exact .nothing (Disk.holds?_of_copy_missing hcopy) hsame.holds?_eq

theorem changesAt_staged (hl : Host.Lawful disk) (path : String) (contents : ByteArray) (s : σ) :
    (disk s).ChangesAt (siblings path) (disk (staged path contents s)) := by
  have hbackup : (disk s).ChangesAt (siblings path) (disk (backedUp path s)) :=
    hl.changesAt_copyFile.mono (by simp [siblings])
  have hstaging : (disk (backedUp path s)).ChangesAt (siblings path)
      (disk (staged path contents s)) :=
    hl.changesAt_writeFile.mono (by simp [siblings])
  exact hbackup.trans hstaging

/-- A staging file that is not left over: it is gone, or it could not be removed
once the contents had been staged. -/
inductive Unstaged (disk : σ → Disk) (path : String) (contents : ByteArray) (s s' : σ) : Prop
  | gone (hgone : (disk s').holds? (stagingPath path) = none)
  | stuck {before : σ} {cause : FileError}
      (hbefore : before = staged path contents s ∨ before = moved path contents s)
      (hremove : answer (Host.removeFile (stagingPath path)) before = .error cause)
      (hafter : s' = afterwards (Host.removeFile (stagingPath path)) before)

theorem unstaged_removeFile (hl : Host.Lawful disk) {before : σ}
    (hbefore : before = staged path contents s ∨ before = moved path contents s) :
    Unstaged disk path contents s (afterwards (Host.removeFile (stagingPath path)) before) := by
  cases hremove : answer (Host.removeFile (stagingPath path)) before with
  | ok u => exact .gone (hl.holds?_removeFile hremove)
  | error cause => exact .stuck hbefore hremove rfl

/-! ## The whole replacement -/

theorem replaced_moved (hl : Host.Lawful disk) (hbackup : BackupMade path s)
    (hwrite : answer (Host.writeFile (stagingPath path) contents) (backedUp path s) = .ok ())
    (hmove : answer (Host.renameFile (stagingPath path) path) (staged path contents s) = .ok ()) :
    (disk s).Replaced path contents (disk (moved path contents s)) := by
  have hstaged : (disk (staged path contents s)).holds? (stagingPath path) =
      some (.file contents) := hl.holds?_writeFile hwrite
  obtain ⟨htarget, hgone, hmoved⟩ :=
    hl.renameFile_spec hstaged (Disk.apart_stagingPath _ path).symm hmove
  have hwritten : (disk (backedUp path s)).ChangesAt [stagingPath path, path]
      (disk (staged path contents s)) := hl.changesAt_writeFile.mono (by simp)
  have hkept : (disk (moved path contents s)).holds? (backupPath path) =
      (disk (backedUp path s)).holds? (backupPath path) := by
    apply (hwritten.trans hmoved).holds?_eq
    intro other hmem
    obtain rfl | rfl : other = stagingPath path ∨ other = path := by simpa using hmem
    · exact (Disk.apart_backupPath_stagingPath _ path).symm
    · exact Disk.apart_backupPath _ other
  exact {
    target := htarget
    backup := (saved_backedUp hl hbackup).of_holds?_eq hkept
    staging := hgone
    changesAt := ((changesAt_staged hl path contents s).mono (by simp [withSiblings])).trans
      (hmoved.mono (by simp [withSiblings, siblings])) }

theorem Replacing.replaced_of_ok (hl : Host.Lawful disk) {s' : σ}
    (h : Replacing path contents s (.ok ()) s') : (disk s).Replaced path contents (disk s') := by
  cases h with
  | replaced hbackup hwrite hmove => exact replaced_moved hl hbackup hwrite hmove

theorem Replacing.changesAt_of_error (hl : Host.Lawful disk) {fault : FileFault} {s' : σ}
    (h : Replacing path contents s (.error fault) s') :
    (disk s).ChangesAt (siblings path) (disk s') := by
  have hremove (before : σ) : (disk before).ChangesAt (siblings path)
      (disk (afterwards (Host.removeFile (stagingPath path)) before)) :=
    hl.changesAt_removeFile.mono (by simp [siblings])
  cases h with
  | backupFailed hcopy hcause => exact hl.changesAt_copyFile.mono (by simp [siblings])
  | stagingFailed hbackup hwrite =>
      exact (changesAt_staged hl path contents s).trans (hremove _)
  | moveFailed hbackup hwrite hmove =>
      have hsame : (disk (staged path contents s)).Same (disk (moved path contents s)) :=
        (hl.renameFile _ _ _ _ (hl.holds?_writeFile hwrite)).of_error hmove
      exact ((changesAt_staged hl path contents s).trans (hsame.changesAt _)).trans (hremove _)

theorem Replacing.unstaged_of_error (hl : Host.Lawful disk) {fault : FileFault} {s' : σ}
    (h : Replacing path contents s (.error fault) s') :
    (fault.path = backupPath path ∧
      (disk s').holds? (stagingPath path) = (disk s).holds? (stagingPath path)) ∨
    Unstaged disk path contents s s' := by
  cases h with
  | backupFailed hcopy hcause =>
      refine .inl ⟨rfl, hl.changesAt_copyFile.holds?_eq fun other hmem => ?_⟩
      obtain rfl := List.mem_singleton.1 hmem
      exact Disk.apart_backupPath_stagingPath _ path
  | stagingFailed hbackup hwrite => exact .inr (unstaged_removeFile hl (.inl rfl))
  | moveFailed hbackup hwrite hmove => exact .inr (unstaged_removeFile hl (.inr rfl))

theorem replaced_of_replaceFile (hl : Host.Lawful disk)
    (hok : answer (replaceFile path contents).run s = .ok ()) :
    (disk s).Replaced path contents (disk (afterwards (replaceFile path contents).run s)) := by
  have hrun := replacing_replaceFile path contents s
  rw [hok] at hrun
  exact hrun.replaced_of_ok hl

/-- A replacement fails at a step that fails.  One that succeeds is complete, and
one that fails keeps the file, changes nothing but its siblings and leaves nothing
staged that can be removed. -/
theorem replaceFile_replaces_or_keeps (hl : Host.Lawful disk) (path : String)
    (contents : ByteArray) (s : σ) :
    Replacing path contents s (answer (replaceFile path contents).run s)
      (afterwards (replaceFile path contents).run s) ∧
    match answer (replaceFile path contents).run s,
      afterwards (replaceFile path contents).run s with
    | .ok (), s' => (disk s).Replaced path contents (disk s')
    | .error fault, s' =>
      (disk s').holds? path = (disk s).holds? path ∧
      (disk s).ChangesAt (siblings path) (disk s') ∧
      ((fault.path = backupPath path ∧
          (disk s').holds? (stagingPath path) = (disk s).holds? (stagingPath path)) ∨
        Unstaged disk path contents s s') := by
  have hrun := replacing_replaceFile path contents s
  refine ⟨hrun, ?_⟩
  split
  · next hok => exact replaced_of_replaceFile hl hok
  · next fault herror =>
    rw [herror] at hrun
    have hchanges := hrun.changesAt_of_error hl
    exact ⟨hchanges.holds?_of_siblings, hchanges, hrun.unstaged_of_error hl⟩

/-- A file, and a directory where another would be staged. -/
def crowdedMachine : Machine where
  disk := { entries := [(["m"], .file "old".toUTF8), (["n.tmp"], .directory)] }

theorem replaceFile_crowdedMachine :
    (answer (replaceFile "m" "new".toUTF8).run crowdedMachine = .ok () ∧
      crowdedMachine.disk.Replaced "m" "new".toUTF8
        (afterwards (replaceFile "m" "new".toUTF8).run crowdedMachine).disk) ∧
    answer (replaceFile "n" "new".toUTF8).run crowdedMachine =
        .error { path := "n.tmp", cause := .isDirectory } ∧
      crowdedMachine.disk.ChangesAt ["n.bak", "n.tmp"]
        (afterwards (replaceFile "n" "new".toUTF8).run crowdedMachine).disk := by
  have hdone : answer (replaceFile "m" "new".toUTF8).run crowdedMachine = .ok () := rfl
  have hstuck : answer (replaceFile "n" "new".toUTF8).run crowdedMachine =
      .error { path := "n.tmp", cause := .isDirectory } := rfl
  obtain ⟨-, hreplaced⟩ :=
    replaceFile_replaces_or_keeps Machine.lawful "m" "new".toUTF8 crowdedMachine
  obtain ⟨-, hkept⟩ :=
    replaceFile_replaces_or_keeps Machine.lawful "n" "new".toUTF8 crowdedMachine
  rw [hdone] at hreplaced
  rw [hstuck] at hkept
  exact ⟨⟨hdone, hreplaced⟩, hstuck, hkept.2.1⟩

end MetricCatalog
