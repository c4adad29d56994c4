import MetricCatalog.Host.Disk
/-!
# What changes on a disk

A disk is seen through what it holds at each place.  Operations on files leave
directories as they are, so every path goes on leading to the same place, and
each operation is described by the paths whose places it may change.
-/

namespace MetricCatalog

namespace Disk

variable {d d' d'' : Disk} {l l' here : Location} {path : String} {paths : List String}

/-! ## Entries -/

@[simp] theorem at?_root (d : Disk) : d.at? [] = some .directory := by
  rw [at?, if_pos rfl]

theorem lookup_cons_eq_ite {e : Entry} {es : List (Location × Entry)} :
    ((l, e) :: es).lookup l' = if l' = l then some e else es.lookup l' := by
  rw [List.lookup_cons]
  by_cases h : l' = l
  · simp [h]
  · rw [beq_false_of_ne h, if_neg h]

theorem lookup_filter_ne (es : List (Location × Entry)) :
    (es.filter (·.1 ≠ l)).lookup l' = if l' = l then none else es.lookup l' := by
  induction es with
  | nil => simp
  | cons e es ih =>
      obtain ⟨k, x⟩ := e
      rw [lookup_cons_eq_ite]
      by_cases hk : k = l
      · rw [List.filter_cons_of_neg (by simpa using hk), ih, hk]
        by_cases hl : l' = l <;> simp [hl]
      · rw [List.filter_cons_of_pos (by simpa using hk), lookup_cons_eq_ite, ih]
        by_cases hl : l' = l
        · rw [if_pos hl, if_pos hl, if_neg fun hlk => hk (hlk.symm.trans hl)]
        · rw [if_neg hl, if_neg hl]

theorem at?_erase (hl : l ≠ []) :
    (d.erase l).at? l' = if l' = l then none else d.at? l' := by
  by_cases hroot : l' = []
  · rw [hroot, at?_root, at?_root, if_neg (Ne.symm hl)]
  · rw [at?, at?, if_neg hroot, if_neg hroot, erase, lookup_filter_ne]

theorem at?_set {e : Entry} (hl : l ≠ []) :
    (d.set l e).at? l' = if l' = l then some e else d.at? l' := by
  by_cases hroot : l' = []
  · rw [hroot, at?_root, at?_root, if_neg (Ne.symm hl)]
  · rw [at?, at?, if_neg hroot, if_neg hroot, set, lookup_cons_eq_ite, erase, lookup_filter_ne]
    by_cases h : l' = l <;> simp [h]

/-! ## Following paths -/

/-- Where a name leads from a directory, whatever is there. -/
def enter (here : Location) (name : String) : Except FileError Location :=
  if name = "" || name = "." then .ok here
  else if name = ".." then .ok here.dropLast
  else if 255 < name.utf8ByteSize then .error .nameTooLong
  else .ok (here ++ [name])

theorem follow_cons {name : String} {names : List String} :
    d.follow here (name :: names) =
      match d.at? here with
      | none => .error .missing
      | some (.file _) => .error .notDirectory
      | some .directory => (enter here name).bind (d.follow · names) := by
  rw [follow]
  cases d.at? here with
  | none => rfl
  | some e =>
      cases e with
      | file contents => rfl
      | directory =>
          simp only [enter]
          split
          · rfl
          · split
            · rfl
            · split <;> rfl

theorem follow_append {names names' : List String} :
    d.follow here (names ++ names') = (d.follow here names).bind (d.follow · names') := by
  induction names generalizing here with
  | nil => rfl
  | cons name names ih =>
      rw [List.cons_append, follow_cons, follow_cons]
      cases d.at? here with
      | none => rfl
      | some e =>
          cases e with
          | file contents => rfl
          | directory =>
              simp only
              cases enter here name with
              | error e => rfl
              | ok there => exact ih

theorem follow_cons_eq_ok {name : String} {names : List String} :
    d.follow here (name :: names) = .ok l ↔
      d.at? here = some .directory ∧
        ∃ there, enter here name = .ok there ∧ d.follow there names = .ok l := by
  rw [follow_cons]
  cases d.at? here with
  | none => simp
  | some e =>
      cases e with
      | file contents => simp
      | directory => cases enter here name <;> simp [Except.bind]

/-- The length and the characters of a path are in order. -/
def Wellformed (path : String) : Prop :=
  '\x00' ∉ path.toList ∧ path.utf8ByteSize < 4096 ∧ path ≠ ""

theorem locate_eq_ok :
    d.locate path = .ok l ↔ Wellformed path ∧ d.follow [] (names path) = .ok l := by
  unfold locate Wellformed
  split
  · next hnul =>
    rw [List.contains_iff_mem] at hnul
    simp [hnul]
  · next hnul =>
    rw [List.contains_iff_mem] at hnul
    split
    · next hlong => simp [Nat.not_lt.2 hlong]
    · next hshort =>
      split
      · next hempty => simp [hempty]
      · next hnonempty =>
        simp [hnul, Nat.not_le.1 hshort, hnonempty]

/-- What a path leads to: a file, a directory or nothing. -/
def holds? (d : Disk) (path : String) : Option Entry :=
  match d.locate path with
  | .ok l => d.at? l
  | .error _ => none

theorem holds?_of_locate (h : d.locate path = .ok l) : d.holds? path = d.at? l := by
  rw [holds?, h]

theorem ne_root_of_not_directory (h : d.at? l ≠ some .directory) : l ≠ [] := by
  rintro rfl
  exact h d.at?_root

/-! ## Changes -/

/-- The disks hold the same everywhere. -/
def Same (d d' : Disk) : Prop := ∀ l, d'.at? l = d.at? l

/-- At most the files at the places of these paths have come, gone or changed.
No directory has come or gone. -/
structure ChangesAt (d : Disk) (paths : List String) (d' : Disk) : Prop where
  directory_iff : ∀ l, d'.at? l = some .directory ↔ d.at? l = some .directory
  elsewhere : ∀ l, (∀ path ∈ paths, d.locate path ≠ .ok l) → d'.at? l = d.at? l

theorem Same.refl (d : Disk) : d.Same d := fun _ => rfl

theorem Same.trans (h : d.Same d') (h' : d'.Same d'') : d.Same d'' := fun l => (h' l).trans (h l)

theorem Same.changesAt (h : d.Same d') (paths : List String) : d.ChangesAt paths d' where
  directory_iff l := by rw [h l]
  elsewhere l _ := h l

theorem changesAt_nil : d.ChangesAt [] d' ↔ d.Same d' :=
  ⟨fun h l => h.elsewhere l fun _ hmem => absurd hmem List.not_mem_nil, fun h => h.changesAt []⟩

theorem ChangesAt.mono {paths' : List String} (h : d.ChangesAt paths d') (hsub : paths ⊆ paths') :
    d.ChangesAt paths' d' where
  directory_iff := h.directory_iff
  elsewhere l hl := h.elsewhere l fun path hmem => hl path (hsub hmem)

/-- Paths lead on along directories only. -/
theorem ChangesAt.follow_eq_ok (h : d.ChangesAt paths d') {names : List String} :
    d'.follow here names = .ok l ↔ d.follow here names = .ok l := by
  induction names generalizing here with
  | nil => simp [follow]
  | cons name names ih => simp only [follow_cons_eq_ok, h.directory_iff, ih]

theorem ChangesAt.locate_eq_ok (h : d.ChangesAt paths d') :
    d'.locate path = .ok l ↔ d.locate path = .ok l := by
  rw [Disk.locate_eq_ok, Disk.locate_eq_ok, h.follow_eq_ok]

theorem ChangesAt.trans (h : d.ChangesAt paths d') (h' : d'.ChangesAt paths d'') :
    d.ChangesAt paths d'' where
  directory_iff l := (h'.directory_iff l).trans (h.directory_iff l)
  elsewhere l hl := by
    have hl' : ∀ path ∈ paths, d'.locate path ≠ .ok l := fun path hmem hlocate =>
      hl path hmem (h.locate_eq_ok.1 hlocate)
    exact (h'.elsewhere l hl').trans (h.elsewhere l hl)

/-- The paths lead to different places, as far as they lead anywhere. -/
def Apart (d : Disk) (path path' : String) : Prop :=
  ∀ l, d.locate path = .ok l → d.locate path' ≠ .ok l

instance (d : Disk) (path path' : String) : Decidable (d.Apart path path') :=
  match hlocate : d.locate path, hlocate' : d.locate path' with
  | .ok l, .ok l' => decidable_of_iff (l ≠ l') (by simp [Apart, hlocate, hlocate', eq_comm])
  | .ok _, .error _ => isTrue (by simp [Apart, hlocate'])
  | .error _, _ => isTrue (by simp [Apart, hlocate])

theorem Apart.symm {path' : String} (h : d.Apart path path') : d.Apart path' path :=
  fun l hl' hl => h l hl hl'

/-- A path that leads elsewhere holds what it held. -/
theorem ChangesAt.holds?_eq (h : d.ChangesAt paths d') (hapart : ∀ p ∈ paths, d.Apart p path) :
    d'.holds? path = d.holds? path := by
  cases hlocate : d.locate path with
  | error e =>
      have hnot : ∀ l, d'.locate path ≠ .ok l := fun l hl => by
        rw [h.locate_eq_ok, hlocate] at hl
        cases hl
      unfold holds?
      rw [hlocate]
      split
      · next l hl => exact absurd hl (hnot l)
      · rfl
  | ok l =>
      rw [holds?_of_locate (h.locate_eq_ok.2 hlocate), holds?_of_locate hlocate]
      exact h.elsewhere l fun p hp hl => hapart p hp l hl hlocate

theorem Same.holds?_eq (h : d.Same d') : d'.holds? path = d.holds? path :=
  (h.changesAt []).holds?_eq fun _ hmem => absurd hmem List.not_mem_nil

/-! ## What the operations change -/

theorem changesAt_of_eq_ite {f : Option Entry} (hlocate : d.locate path = .ok l)
    (hfile : d.at? l ≠ some .directory) (hf : f ≠ some .directory)
    (h : ∀ l', d'.at? l' = if l' = l then f else d.at? l') : d.ChangesAt [path] d' where
  directory_iff l' := by
    rw [h l']
    split
    · next heq => simp [heq, hfile, hf]
    · rfl
  elsewhere l' hl' := by
    have hne : l' ≠ l := fun heq => hl' path (List.mem_singleton_self path) (heq ▸ hlocate)
    rw [h l', if_neg hne]

theorem write_eq_ok {contents : ByteArray} :
    d.write path contents = .ok d' ↔
      ∃ l, d.locate path = .ok l ∧ d.at? l ≠ some .directory ∧ d' = d.set l (.file contents) := by
  unfold write
  cases d.locate path with
  | error e => simp [bind, Except.bind]
  | ok l =>
      simp only [bind, Except.bind]
      split
      · next hdir => simp [hdir]
      · next hfile =>
        refine ⟨fun h => ⟨l, rfl, hfile, (Except.ok.inj h).symm⟩, ?_⟩
        rintro ⟨l, ⟨⟩, -, rfl⟩
        rfl

theorem locate_of_write_missing {contents : ByteArray}
    (h : d.write path contents = .error .missing) : d.locate path = .error .missing := by
  unfold write at h
  cases hlocate : d.locate path with
  | error e =>
      rw [hlocate] at h
      exact congrArg Except.error (Except.error.inj h)
  | ok l =>
      rw [hlocate] at h
      simp only [bind, Except.bind] at h
      split at h <;> cases h

theorem copy_eq_ok {source target : String} :
    d.copy source target = .ok d' ↔
      ∃ c, d.holds? source = some (.file c) ∧ d.write target c = .ok d' := by
  unfold copy holds?
  cases d.locate source with
  | error e => simp [bind, Except.bind]
  | ok l =>
      simp only [bind, Except.bind]
      split <;> simp_all

theorem remove_eq_ok :
    d.remove path = .ok d' ↔
      ∃ l c, d.locate path = .ok l ∧ d.at? l = some (.file c) ∧ d' = d.erase l := by
  unfold remove
  cases d.locate path with
  | error e => simp [bind, Except.bind]
  | ok l =>
      simp only [bind, Except.bind]
      split
      · next hfile => simp [hfile, pure, Except.pure, eq_comm]
      · next hdir => simp [hdir]
      · next hnone => simp [hnone]

theorem rename_eq_ok {source target : String} :
    d.rename source target = .ok d' ↔
      ∃ l c, d.locate source = .ok l ∧ d.at? l = some (.file c) ∧
        (d.erase l).write target c = .ok d' := by
  unfold rename
  cases d.locate source with
  | error e => simp [bind, Except.bind]
  | ok l =>
      simp only [bind, Except.bind]
      split <;> simp_all

theorem write_spec {contents : ByteArray} (h : d.write path contents = .ok d') :
    d'.holds? path = some (.file contents) ∧ d.ChangesAt [path] d' := by
  obtain ⟨l, hlocate, hfile, rfl⟩ := write_eq_ok.1 h
  have hat (l' : Location) : (d.set l (.file contents)).at? l' =
      if l' = l then some (.file contents) else d.at? l' :=
    at?_set (ne_root_of_not_directory hfile)
  have hchanges := changesAt_of_eq_ite hlocate hfile (by simp) hat
  refine ⟨?_, hchanges⟩
  rw [holds?_of_locate (hchanges.locate_eq_ok.2 hlocate), hat, if_pos rfl]

theorem copy_spec {source target : String} (h : d.copy source target = .ok d') :
    ∃ c, d.holds? source = some (.file c) ∧ d'.holds? target = some (.file c) ∧
      d.ChangesAt [target] d' := by
  obtain ⟨c, hsource, hwrite⟩ := copy_eq_ok.1 h
  exact ⟨c, hsource, write_spec hwrite⟩

theorem erase_spec {c : ByteArray} (hlocate : d.locate path = .ok l)
    (hfile : d.at? l = some (.file c)) :
    (d.erase l).holds? path = none ∧ d.ChangesAt [path] (d.erase l) := by
  have hdir : d.at? l ≠ some .directory := by simp [hfile]
  have hat (l' : Location) : (d.erase l).at? l' = if l' = l then none else d.at? l' :=
    at?_erase (ne_root_of_not_directory hdir)
  have hchanges := changesAt_of_eq_ite hlocate hdir (by simp) hat
  refine ⟨?_, hchanges⟩
  rw [holds?_of_locate (hchanges.locate_eq_ok.2 hlocate), hat, if_pos rfl]

theorem remove_spec (h : d.remove path = .ok d') :
    d'.holds? path = none ∧ d.ChangesAt [path] d' := by
  obtain ⟨l, c, hlocate, hfile, rfl⟩ := remove_eq_ok.1 h
  exact erase_spec hlocate hfile

theorem ChangesAt.apart (h : d.ChangesAt paths d') {path' : String} (hapart : d.Apart path path') :
    d'.Apart path path' := fun l hl hl' =>
  hapart l (h.locate_eq_ok.1 hl) (h.locate_eq_ok.1 hl')

/-- A file moves to another place as it is. -/
theorem rename_spec {source target : String} (hapart : d.Apart source target)
    (h : d.rename source target = .ok d') :
    d'.holds? target = d.holds? source ∧ d'.holds? source = none ∧
      d.ChangesAt [source, target] d' := by
  obtain ⟨l, c, hlocate, hfile, hwrite⟩ := rename_eq_ok.1 h
  obtain ⟨hgone, herase⟩ := erase_spec hlocate hfile
  obtain ⟨hplaced, hplace⟩ := write_spec hwrite
  have hsource : d'.holds? source = (d.erase l).holds? source :=
    hplace.holds?_eq fun p hp => by
      obtain rfl := List.mem_singleton.1 hp
      exact (herase.apart hapart).symm
  refine ⟨?_, hsource.trans hgone, ?_⟩
  · rw [hplaced, holds?_of_locate hlocate, hfile]
  · exact (herase.mono (by simp)).trans (hplace.mono (by simp))

end Disk

end MetricCatalog
