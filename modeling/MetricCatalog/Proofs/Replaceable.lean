import MetricCatalog.Proofs.DependableMachine
/-!
# Files that can be replaced

A replacement that went through goes through again, as long as nothing but a
file comes to stand where its backup is made.  What it needs are a file and two
places beside it, and directories stay as they are.
-/

namespace MetricCatalog

variable {σ : Type} {disk : σ → Disk}

namespace Disk

variable {d d' : Disk} {path path' : String} {paths : List String} {contents : ByteArray}

theorem ChangesAt.holds?_directory (h : d.ChangesAt paths d') :
    d'.holds? path = some .directory ↔ d.holds? path = some .directory := by
  have hdirectory (d : Disk) : d.holds? path = some .directory ↔
      ∃ l, d.locate path = .ok l ∧ d.at? l = some .directory := by
    unfold holds?
    cases d.locate path <;> simp
  rw [hdirectory, hdirectory]
  simp only [h.locate_eq_ok, h.directory_iff]

/-- A file can be put where the path leads. -/
def Writable (d : Disk) (path : String) : Prop :=
  ∃ l, d.locate path = .ok l ∧ d.at? l ≠ some .directory

/-- Directories stay, so what is writable does. -/
theorem ChangesAt.writable (h : d.ChangesAt paths d') (hw : d.Writable path) :
    d'.Writable path := by
  obtain ⟨l, hlocate, hfile⟩ := hw
  exact ⟨l, h.locate_eq_ok.2 hlocate, fun hdir => hfile ((h.directory_iff l).1 hdir)⟩

theorem Writable.write (hw : d.Writable path) (contents : ByteArray) :
    ∃ d', d.write path contents = .ok d' := by
  obtain ⟨l, hlocate, hfile⟩ := hw
  exact ⟨_, write_eq_ok.2 ⟨l, hlocate, hfile, rfl⟩⟩

theorem writable_of_write (h : d.write path contents = .ok d') : d.Writable path := by
  obtain ⟨l, hlocate, hfile, -⟩ := write_eq_ok.1 h
  exact ⟨l, hlocate, hfile⟩

theorem writable_of_holds? (h : d.holds? path = some (.file contents)) : d.Writable path := by
  unfold holds? at h
  split at h
  · next l hlocate => exact ⟨l, hlocate, by simp [h]⟩
  · cases h

/-- A path leads somewhere if that of its other sibling does, whose name is no
shorter. -/
theorem writable_backupPath (hw : d.Writable (stagingPath path))
    (hfile : d.holds? (backupPath path) ≠ some .directory) : d.Writable (backupPath path) := by
  obtain ⟨l, hlocate, -⟩ := hw
  obtain ⟨parents, last, -, happend⟩ := exists_names path
  obtain ⟨⟨hnul, hlength, -⟩, dir, hdir, hentry, henter⟩ :=
    (locate_eq_ok_of_names (happend _ isSuffix_tmp)).1 hlocate
  have hwellformed : Wellformed (backupPath path) := by
    refine ⟨?_, ?_, isSuffix_bak.append_ne path (by decide)⟩
    · rw [String.toList_append, List.mem_append, not_or] at hnul
      rw [backupPath, String.toList_append, List.mem_append, not_or]
      exact ⟨hnul.1, by decide⟩
    · rw [String.utf8ByteSize_append] at hlength
      rw [backupPath, String.utf8ByteSize_append]
      exact hlength
  have hlast : enter dir (last ++ ".bak") = .ok (dir ++ [last ++ ".bak"]) := by
    rw [enter_append isSuffix_tmp] at henter
    rw [enter_append isSuffix_bak, if_neg]
    intro hlong
    have hlong : 255 < (last ++ ".tmp").utf8ByteSize := by
      rwa [String.utf8ByteSize_append] at hlong ⊢
    rw [if_pos hlong] at henter
    cases henter
  have hbackup : d.locate (backupPath path) = .ok (dir ++ [last ++ ".bak"]) :=
    (locate_eq_ok_of_names (happend _ isSuffix_bak)).2 ⟨hwellformed, dir, hdir, hentry, hlast⟩
  exact ⟨_, hbackup, fun h => hfile ((holds?_of_locate hbackup).trans h)⟩

/-- The files at two paths, with their siblings, are all at different places. -/
def FamiliesApart (d : Disk) (path path' : String) : Prop :=
  ∀ p ∈ withSiblings path, ∀ p' ∈ withSiblings path', d.Apart p p'

instance (d : Disk) (path path' : String) : Decidable (d.FamiliesApart path path') :=
  inferInstanceAs (Decidable (∀ p ∈ withSiblings path, ∀ p' ∈ withSiblings path', d.Apart p p'))

theorem ChangesAt.familiesApart (h : d.ChangesAt paths d') (hapart : d.FamiliesApart path path') :
    d'.FamiliesApart path path' :=
  fun p hp p' hp' => h.apart (hapart p hp p' hp')

theorem mem_withSiblings_self (path : String) : path ∈ withSiblings path := List.mem_cons_self

/-- There is a file, and it can be replaced. -/
structure Replaceable (d : Disk) (path : String) : Prop where
  held : ∃ contents, d.holds? path = some (.file contents)
  backup : d.Writable (backupPath path)
  staging : d.Writable (stagingPath path)

theorem Replaceable.of_changesAt (hr : d.Replaceable path) (h : d.ChangesAt paths d')
    (hapart : ∀ p ∈ paths, d.Apart p path) : d'.Replaceable path where
  held := by
    obtain ⟨contents, hheld⟩ := hr.held
    exact ⟨contents, (h.holds?_eq hapart).trans hheld⟩
  backup := h.writable hr.backup
  staging := h.writable hr.staging

end Disk

section

variable [Host (StateM σ)] {path : String} {contents : ByteArray} {s s' : σ}

theorem writable_stagingPath (hl : Host.Lawful disk)
    (hok : answer (replaceFile path contents).run s = .ok ()) :
    (disk s).Writable (stagingPath path) := by
  have hrun := replacing_replaceFile path contents s
  rw [hok] at hrun
  generalize afterwards (replaceFile path contents).run s = after at hrun
  cases hrun with
  | replaced hbackup hwrite hmove =>
      obtain ⟨d, hstage, -⟩ := (hl.writeFile _ _ _).of_ok hwrite
      obtain ⟨l, hlocate, hfile⟩ := Disk.writable_of_write hstage
      have hcopy : (disk s).ChangesAt [backupPath path] (disk (backedUp path s)) :=
        hl.changesAt_copyFile
      exact ⟨l, hcopy.locate_eq_ok.1 hlocate, fun hdir => hfile ((hcopy.directory_iff l).2 hdir)⟩

/-- What a replacement leaves can be replaced again. -/
theorem replaceable_of_replaceFile (hl : Host.Lawful disk)
    (hok : answer (replaceFile path contents).run s = .ok ())
    (hfile : (disk s).holds? (backupPath path) ≠ some .directory) :
    (disk (afterwards (replaceFile path contents).run s)).Replaceable path := by
  have hreplaced := replaced_of_replaceFile hl hok
  have hstaging := writable_stagingPath hl hok
  exact {
    held := ⟨contents, hreplaced.target⟩
    backup := hreplaced.changesAt.writable (Disk.writable_backupPath hstaging hfile)
    staging := hreplaced.changesAt.writable hstaging }

/-- On a machine that does what its disk allows, a file that can be replaced is. -/
theorem answer_replaceFile (hd : Host.Dependable disk) (hr : (disk s).Replaceable path) :
    answer (replaceFile path contents).run s = .ok () := by
  obtain ⟨old, hheld⟩ := hr.held
  obtain ⟨d, hbackup⟩ := hr.backup.write old
  have hcopy : answer (Host.copyFile path (backupPath path)) s = .ok () :=
    hd.answer_copyFile _ _ s d (Disk.copy_eq_ok.2 ⟨old, hheld, hbackup⟩)
  have hcopied : (disk s).ChangesAt [backupPath path] (disk (backedUp path s)) :=
    hd.changesAt_copyFile
  obtain ⟨d, hstage⟩ := (hcopied.writable hr.staging).write contents
  have hwrite : answer (Host.writeFile (stagingPath path) contents) (backedUp path s) = .ok () :=
    hd.answer_writeFile _ _ _ d hstage
  have hstaged := changesAt_staged hd.toLawful path contents s
  have hnew : (disk (staged path contents s)).holds? (stagingPath path) =
      some (.file contents) := hd.holds?_writeFile hwrite
  obtain ⟨l, hlocate, -⟩ := Disk.writable_of_holds? hnew
  have hfile : (disk (staged path contents s)).at? l = some (.file contents) :=
    (Disk.holds?_of_locate hlocate).symm.trans hnew
  have htarget : ((disk (staged path contents s)).erase l).Writable path :=
    (Disk.erase_spec hlocate hfile).2.writable
      (hstaged.writable (Disk.writable_of_holds? hheld))
  obtain ⟨d, hplace⟩ := htarget.write contents
  have hmove : answer (Host.renameFile (stagingPath path) path) (staged path contents s) =
      .ok () :=
    hd.answer_renameFile _ _ _ d (Disk.rename_eq_ok.2 ⟨l, contents, hlocate, hfile, hplace⟩)
  have hrun := replacing_replaceFile path contents s
  generalize answer (replaceFile path contents).run s = result at hrun
  generalize afterwards (replaceFile path contents).run s = after at hrun
  cases hrun with
  | backupFailed hfailed hcause => cases hcopy.symm.trans hfailed
  | stagingFailed hmade hfailed => cases hwrite.symm.trans hfailed
  | moveFailed hmade hwrite hfailed => cases hmove.symm.trans hfailed
  | replaced hmade hwrite hmove => rfl

end

end MetricCatalog
