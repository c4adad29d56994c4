import MetricCatalog.Proofs.DiskChanges
/-!
# Machines that may fail

What is relied on of a machine, whatever else it does: its files are those of a
disk, an operation on files does its work or reports an error, a copy or a
write that fails changes at most the file it was to write, and a move or a
removal that fails changes nothing.  Reading, asking and telling the time change
nothing at all.  A machine whose disk is a value behaves like this.
-/

namespace MetricCatalog

variable {σ ε α β : Type}

/-! ## Runs from a state -/

/-- What a computation answers when it starts in a state. -/
def answer (x : StateM σ α) (s : σ) : α := (x.run s).run.1

/-- The state that a computation leaves. -/
def afterwards (x : StateM σ α) (s : σ) : σ := (x.run s).run.2

/-- A step that cannot fail hands on what it answers and the state it leaves. -/
theorem answer_run_bind (x : StateM σ α) (f : α → ExceptT ε (StateM σ) β) (s : σ) :
    answer (liftM x >>= f : ExceptT ε (StateM σ) β).run s =
      answer (f (answer x s)).run (afterwards x s) := rfl

theorem afterwards_run_bind (x : StateM σ α) (f : α → ExceptT ε (StateM σ) β) (s : σ) :
    afterwards (liftM x >>= f : ExceptT ε (StateM σ) β).run s =
      afterwards (f (answer x s)).run (afterwards x s) := rfl

/-! ## How operations end -/

namespace Disk

/-- An operation ends with its work done, or with an error and a disk that the
failure may leave. -/
inductive Ends (intended : Except FileError Disk) (left : Disk → Prop) :
    Except FileError Unit → Disk → Prop
  | done {d d' : Disk} (hdone : intended = .ok d) (hsame : d.Same d') :
      Ends intended left (.ok ()) d'
  | failed {e : FileError} {d' : Disk} (hleft : left d') : Ends intended left (.error e) d'

variable {intended : Except FileError Disk} {left : Disk → Prop} {result : Except FileError Unit}
  {d d' : Disk}

theorem Ends.of_ok (h : Ends intended left result d') (hok : result = .ok ()) :
    ∃ d, intended = .ok d ∧ d.Same d' := by
  cases h with
  | done hdone hsame => exact ⟨_, hdone, hsame⟩
  | failed hleft => cases hok

theorem Ends.of_error {e : FileError} (h : Ends intended left result d')
    (herror : result = .error e) : left d' := by
  cases h with
  | done hdone hsame => cases herror
  | failed hleft => exact hleft

theorem Ends.changesAt {paths : List String} (h : Ends intended left result d')
    (hdone : ∀ d'', intended = .ok d'' → d.ChangesAt paths d'')
    (hleft : left d' → d.ChangesAt paths d') : d.ChangesAt paths d' := by
  cases h with
  | done heq hsame => exact (hdone _ heq).trans (hsame.changesAt paths)
  | failed h => exact hleft h

end Disk

/-- The files of a machine with states `σ` are those of a disk. -/
structure Host.Lawful [Host (StateM σ)] (disk : σ → Disk) : Prop where
  readFile : ∀ path s, (disk s).Same (disk (afterwards (Host.readFile path) s))
  readInput : ∀ s, (disk s).Same (disk (afterwards Host.readInput s))
  request : ∀ url timeout s, (disk s).Same (disk (afterwards (Host.request url timeout) s))
  now : ∀ s, (disk s).Same (disk (afterwards Host.now s))
  copyFile : ∀ source target s,
    Disk.Ends ((disk s).copy source target) ((disk s).ChangesAt [target])
      (answer (Host.copyFile source target) s) (disk (afterwards (Host.copyFile source target) s))
  /-- Nothing is said to be missing but what is. -/
  copyFile_missing : ∀ source target s, answer (Host.copyFile source target) s = .error .missing →
    (disk s).copy source target = .error .missing ∧
      (disk s).Same (disk (afterwards (Host.copyFile source target) s))
  writeFile : ∀ path contents s,
    Disk.Ends ((disk s).write path contents) ((disk s).ChangesAt [path])
      (answer (Host.writeFile path contents) s) (disk (afterwards (Host.writeFile path contents) s))
  /-- Of directories, which are never moved, nothing is asked. -/
  renameFile : ∀ source target s c, (disk s).holds? source = some (.file c) →
    Disk.Ends ((disk s).rename source target) (disk s).Same
      (answer (Host.renameFile source target) s)
      (disk (afterwards (Host.renameFile source target) s))
  removeFile : ∀ path s,
    Disk.Ends ((disk s).remove path) (disk s).Same
      (answer (Host.removeFile path) s) (disk (afterwards (Host.removeFile path) s))

namespace Host.Lawful

variable [Host (StateM σ)] {disk : σ → Disk} {source target path : String} {contents : ByteArray}
  {s : σ}

/-! ## What each operation leaves -/

theorem changesAt_copyFile (hl : Host.Lawful disk) :
    (disk s).ChangesAt [target] (disk (afterwards (Host.copyFile source target) s)) :=
  (hl.copyFile source target s).changesAt
    (fun _ hcopy => (Disk.copy_spec hcopy).choose_spec.2.2) id

theorem holds?_copyFile (hl : Host.Lawful disk)
    (hok : answer (Host.copyFile source target) s = .ok ()) :
    ∃ c, (disk s).holds? source = some (.file c) ∧
      (disk (afterwards (Host.copyFile source target) s)).holds? target = some (.file c) := by
  obtain ⟨d, hcopy, hsame⟩ := (hl.copyFile source target s).of_ok hok
  obtain ⟨c, hsource, htarget, -⟩ := Disk.copy_spec hcopy
  exact ⟨c, hsource, hsame.holds?_eq.trans htarget⟩

theorem changesAt_writeFile (hl : Host.Lawful disk) :
    (disk s).ChangesAt [path] (disk (afterwards (Host.writeFile path contents) s)) :=
  (hl.writeFile path contents s).changesAt (fun _ hwrite => (Disk.write_spec hwrite).2) id

theorem holds?_writeFile (hl : Host.Lawful disk)
    (hok : answer (Host.writeFile path contents) s = .ok ()) :
    (disk (afterwards (Host.writeFile path contents) s)).holds? path = some (.file contents) := by
  obtain ⟨d, hwrite, hsame⟩ := (hl.writeFile path contents s).of_ok hok
  exact hsame.holds?_eq.trans (Disk.write_spec hwrite).1

theorem renameFile_spec (hl : Host.Lawful disk) {c : ByteArray}
    (hsource : (disk s).holds? source = some (.file c)) (hapart : (disk s).Apart source target)
    (hok : answer (Host.renameFile source target) s = .ok ()) :
    (disk (afterwards (Host.renameFile source target) s)).holds? target = some (.file c) ∧
      (disk (afterwards (Host.renameFile source target) s)).holds? source = none ∧
      (disk s).ChangesAt [source, target]
        (disk (afterwards (Host.renameFile source target) s)) := by
  obtain ⟨d, hrename, hsame⟩ := (hl.renameFile source target s c hsource).of_ok hok
  obtain ⟨htarget, hgone, hchanges⟩ := Disk.rename_spec hapart hrename
  exact ⟨hsame.holds?_eq.trans (htarget.trans hsource), hsame.holds?_eq.trans hgone,
    hchanges.trans (hsame.changesAt _)⟩

theorem changesAt_removeFile (hl : Host.Lawful disk) :
    (disk s).ChangesAt [path] (disk (afterwards (Host.removeFile path) s)) :=
  (hl.removeFile path s).changesAt (fun _ hremove => (Disk.remove_spec hremove).2)
    (·.changesAt [path])

theorem holds?_removeFile (hl : Host.Lawful disk)
    (hok : answer (Host.removeFile path) s = .ok ()) :
    (disk (afterwards (Host.removeFile path) s)).holds? path = none := by
  obtain ⟨d, hremove, hsame⟩ := (hl.removeFile path s).of_ok hok
  exact hsame.holds?_eq.trans (Disk.remove_spec hremove).1

end Host.Lawful

namespace Machine

/-! ## A machine whose disk is a value -/

theorem answer_onDisk (change : Disk → Except FileError Disk) (m : Machine) :
    answer (onDisk change) m = (change m.disk).map fun _ => () := by
  unfold answer onDisk
  simp only [StateT.run]
  cases change m.disk <;> rfl

theorem disk_afterwards_onDisk (change : Disk → Except FileError Disk) (m : Machine) :
    (afterwards (onDisk change) m).disk = (change m.disk).toOption.getD m.disk := by
  unfold afterwards onDisk
  simp only [StateT.run]
  cases change m.disk <;> rfl

theorem ends_onDisk (change : Disk → Except FileError Disk) {left : Disk → Disk → Prop}
    (hleft : ∀ d, left d d) (m : Machine) :
    Disk.Ends (change m.disk) (left m.disk) (answer (onDisk change) m)
      (afterwards (onDisk change) m).disk := by
  rw [answer_onDisk, disk_afterwards_onDisk]
  cases change m.disk with
  | ok d => exact .done rfl (.refl d)
  | error e => exact .failed (hleft m.disk)

theorem same_of_onDisk_error {change : Disk → Except FileError Disk} {m : Machine}
    {e : FileError} (h : answer (onDisk change) m = .error e) :
    change m.disk = .error e ∧ m.disk.Same (afterwards (onDisk change) m).disk := by
  rw [answer_onDisk] at h
  rw [disk_afterwards_onDisk]
  cases hchange : change m.disk with
  | ok d =>
      rw [hchange] at h
      cases h
  | error e' =>
      rw [hchange] at h
      exact ⟨congrArg Except.error (Except.error.inj h), .refl m.disk⟩

/-- A disk that is a value fails only where it has to. -/
theorem lawful : Host.Lawful Machine.disk where
  readFile _ _ := .refl _
  readInput _ := .refl _
  request _ _ _ := .refl _
  now _ := .refl _
  copyFile source target m :=
    ends_onDisk (·.copy source target) (fun d => (Disk.Same.refl d).changesAt [target]) m
  copyFile_missing _ _ _ h := same_of_onDisk_error h
  writeFile path contents m :=
    ends_onDisk (·.write path contents) (fun d => (Disk.Same.refl d).changesAt [path]) m
  renameFile source target m _ _ := ends_onDisk (·.rename source target) Disk.Same.refl m
  removeFile path m := ends_onDisk (·.remove path) Disk.Same.refl m

end Machine

end MetricCatalog
