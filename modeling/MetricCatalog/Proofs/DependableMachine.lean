import MetricCatalog.Catalog.Document
import MetricCatalog.Proofs.Replacement
import MetricCatalog.Store.Catalog
/-!
# Machines that can be depended on

A truthful machine reads what its disk holds, and copies nothing where there is
nothing to copy; it may still fail to write.  A dependable one also does what
its disk allows.  A machine whose disk is a value is both; one whose disk may be
full is truthful only.
-/

namespace MetricCatalog

variable {σ : Type} {disk : σ → Disk}

namespace Disk

variable {d d' : Disk} {path : String} {c : ByteArray}

/-! ## Reading a disk -/

theorem read_eq_ok : d.read path = .ok c ↔ d.holds? path = some (.file c) := by
  unfold read holds?
  cases d.locate path with
  | error e => simp [bind, Except.bind]
  | ok l =>
      simp only [bind, Except.bind]
      split <;> simp_all [pure, Except.pure]

theorem Same.follow_eq (h : d.Same d') {here : Location} {names : List String} :
    d'.follow here names = d.follow here names := by
  induction names generalizing here with
  | nil => rfl
  | cons name names ih => simp only [follow_cons, h here, ih]

theorem Same.locate_eq (h : d.Same d') : d'.locate path = d.locate path := by
  simp only [locate, h.follow_eq]

theorem Same.read_eq (h : d.Same d') : d'.read path = d.read path := by
  unfold read
  rw [h.locate_eq]
  cases d.locate path with
  | error e => rfl
  | ok l => simp only [bind, Except.bind, h l]

/-- The catalog that a path loads as. -/
def load (d : Disk) (path : String) : Except StoreFault Catalog :=
  match d.read path >>= decodeText with
  | .ok document => (Catalog.parse document).mapError (.catalog path)
  | .error .missing => .ok .empty
  | .error cause => .error (.file { path, cause })

theorem Same.load_eq (h : d.Same d') : d'.load path = d.load path := by
  simp only [load, h.read_eq]

/-- A file of text loads as what the text says. -/
theorem load_of_text {document : String}
    (hheld : d.holds? path = some (.file document.toUTF8)) :
    d.load path = (Catalog.parse document).mapError (.catalog path) := by
  have hdecode : decodeText document.toUTF8 = .ok document := by
    unfold decodeText String.fromUTF8?
    rw [String.toUTF8_eq_toByteArray, dif_pos document.isValidUTF8]
    rfl
  have hread : d.read path >>= decodeText = .ok document := by
    rw [read_eq_ok.2 hheld]
    exact hdecode
  rw [load, hread]

theorem load_congr (h : d'.read path = d.read path) : d'.load path = d.load path := by
  simp only [load, h]

end Disk

/-- What a machine answers when it reads, and when there is nothing to copy, is
as its disk has it. -/
structure Host.Truthful [Host (StateM σ)] (disk : σ → Disk) : Prop extends Host.Lawful disk where
  answer_readFile : ∀ path s, answer (Host.readFile path) s = (disk s).read path
  /-- A file is opened before its copy is made. -/
  same_copyFile : ∀ source target s, (∀ c, (disk s).holds? source ≠ some (.file c)) →
    (disk s).Same (disk (afterwards (Host.copyFile source target) s))

/-- What a disk allows is done. -/
structure Host.Dependable [Host (StateM σ)] (disk : σ → Disk) : Prop
    extends Host.Truthful disk where
  answer_copyFile : ∀ source target s d, (disk s).copy source target = .ok d →
    answer (Host.copyFile source target) s = .ok ()
  answer_writeFile : ∀ path contents s d, (disk s).write path contents = .ok d →
    answer (Host.writeFile path contents) s = .ok ()
  answer_renameFile : ∀ source target s d, (disk s).rename source target = .ok d →
    answer (Host.renameFile source target) s = .ok ()

namespace Host.Truthful

variable [Host (StateM σ)] {path : String} {s s' : σ}

theorem answer_readText (ht : Host.Truthful disk) (path : String) (s : σ) :
    answer (readText path) s = (disk s).read path >>= decodeText := by
  rw [← ht.answer_readFile path s]
  rfl

theorem answer_load (ht : Host.Truthful disk) (path : String) (s : σ) :
    answer (Catalog.load path).run s = (disk s).load path := by
  unfold Catalog.load
  rw [answer_run_bind, ht.answer_readText, Disk.load]
  cases (disk s).read path >>= decodeText with
  | ok document =>
      dsimp only
      cases Catalog.parse document <;> rfl
  | error cause => cases cause <;> rfl

end Host.Truthful

namespace Machine

theorem copy_ne_ok {d : Disk} {source target : String}
    (h : ∀ c, d.holds? source ≠ some (.file c)) : ∀ d', d.copy source target ≠ .ok d' := by
  intro d' hcopy
  obtain ⟨c, hheld, -⟩ := Disk.copy_eq_ok.1 hcopy
  exact h c hheld

theorem answer_onDisk_of_ok (change : Disk → Except FileError Disk) {m : Machine} {d : Disk}
    (h : change m.disk = .ok d) : answer (onDisk change) m = .ok () := by
  rw [answer_onDisk, h]
  rfl

theorem dependable : Host.Dependable Machine.disk where
  toLawful := lawful
  answer_readFile _ _ := rfl
  same_copyFile source target m h := by
    have hcopy : ∀ e, m.disk.copy source target = .error e →
        m.disk.Same (afterwards (onDisk (·.copy source target)) m).disk := fun e he => by
      rw [disk_afterwards_onDisk, he]
      exact .refl _
    cases hcases : m.disk.copy source target with
    | ok d => exact absurd hcases (copy_ne_ok h d)
    | error e => exact hcopy e hcases
  answer_copyFile source target m _ := answer_onDisk_of_ok (·.copy source target)
  answer_writeFile path contents m _ := answer_onDisk_of_ok (·.write path contents)
  answer_renameFile source target m _ := answer_onDisk_of_ok (·.rename source target)

end Machine

/-- A machine that may find its disk full when it writes a file. -/
structure TightMachine where
  machine : Machine
  /-- Whether there is room, for each write to come; after these there always is. -/
  room : List Bool := []

namespace TightMachine

/-! ## A disk that may be full -/

def files (t : TightMachine) : Disk := t.machine.disk

def inside {α : Type} (x : StateM Machine α) : StateM TightMachine α := fun t =>
  (answer x t.machine, { t with machine := afterwards x t.machine })

/-- Without room the file is made, but nothing gets into it. -/
def writeFile (path : String) (contents : ByteArray) :
    StateM TightMachine (Except FileError Unit) := fun t =>
  match t.room with
  | false :: room =>
    (.error (.other "No space left on device (os error 28)"),
      { machine := afterwards (Host.writeFile path .empty) t.machine, room })
  | room =>
    (answer (Host.writeFile path contents) t.machine,
      { machine := afterwards (Host.writeFile path contents) t.machine, room := room.tail })

instance : Host (StateM TightMachine) where
  readFile path := inside (Host.readFile path)
  copyFile source target := inside (Host.copyFile source target)
  writeFile := writeFile
  renameFile source target := inside (Host.renameFile source target)
  removeFile path := inside (Host.removeFile path)
  readInput := inside Host.readInput
  request url timeoutMillis := inside (Host.request url timeoutMillis)
  now := inside Host.now

theorem lawful : Host.Lawful files where
  readFile path t := Machine.lawful.readFile path t.machine
  readInput t := Machine.lawful.readInput t.machine
  request url timeoutMillis t := Machine.lawful.request url timeoutMillis t.machine
  now t := Machine.lawful.now t.machine
  copyFile source target t := Machine.lawful.copyFile source target t.machine
  copyFile_missing source target t := Machine.lawful.copyFile_missing source target t.machine
  writeFile path contents t := by
    obtain ⟨machine, room⟩ := t
    match room with
    | false :: room => exact .failed Machine.lawful.changesAt_writeFile
    | true :: room => exact Machine.lawful.writeFile path contents machine
    | [] => exact Machine.lawful.writeFile path contents machine
  renameFile source target t := Machine.lawful.renameFile source target t.machine
  removeFile path t := Machine.lawful.removeFile path t.machine

theorem truthful : Host.Truthful files where
  toLawful := lawful
  answer_readFile path t := Machine.dependable.answer_readFile path t.machine
  same_copyFile source target t := Machine.dependable.same_copyFile source target t.machine

end TightMachine

end MetricCatalog
