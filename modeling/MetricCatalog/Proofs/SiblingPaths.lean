import MetricCatalog.Proofs.DiskChanges
import MetricCatalog.Store.Replace
/-!
# Siblings of a path

A backup and a staging file are named by adding to the path of a file.  What is
added lengthens the last name only, so a file and its two siblings are looked
up in one directory, under three names.
-/

namespace MetricCatalog

namespace Disk

variable {d d' : Disk} {l l' : Location} {path suffix suffix' : String}

/-! ## The last name of a path -/

theorem splitOnP_append {p : Char → Bool} (cs : List Char) :
    ∃ parents last, cs.splitOnP p = parents ++ [last] ∧
      ∀ suffix : List Char, (∀ c ∈ suffix, p c = false) →
        (cs ++ suffix).splitOnP p = parents ++ [last ++ suffix] := by
  induction cs with
  | nil => exact ⟨[], [], rfl, fun suffix h => List.splitOnP_eq_singleton h⟩
  | cons c cs ih =>
      obtain ⟨parents, last, hcs, happend⟩ := ih
      by_cases hc : p c = true
      · refine ⟨[] :: parents, last, ?_, fun suffix h => ?_⟩
        · simp [List.splitOnP_cons_eq_if_modifyHead, hc, hcs]
        · simp [List.splitOnP_cons_eq_if_modifyHead, hc, happend suffix h]
      · cases parents with
        | nil =>
            refine ⟨[], c :: last, ?_, fun suffix h => ?_⟩
            · simp [List.splitOnP_cons_eq_if_modifyHead, hc, hcs]
            · simp [List.splitOnP_cons_eq_if_modifyHead, hc, happend suffix h]
        | cons parent parents =>
            refine ⟨(c :: parent) :: parents, last, ?_, fun suffix h => ?_⟩
            · simp [List.splitOnP_cons_eq_if_modifyHead, hc, hcs]
            · simp [List.splitOnP_cons_eq_if_modifyHead, hc, happend suffix h]

/-- What can be added to a path to name a sibling. -/
structure IsSuffix (suffix : String) : Prop where
  no_slash : '/' ∉ suffix.toList
  /-- No name that ends in it is empty or made of dots alone. -/
  length_le : 3 ≤ suffix.toList.length

theorem IsSuffix.append_ne (h : IsSuffix suffix) (name : String) {short : String}
    (hshort : short.toList.length < 3) : name ++ suffix ≠ short := by
  rintro rfl
  have hsuffix := h.length_le
  rw [String.toList_append, List.length_append] at hshort
  omega

theorem exists_names (path : String) :
    ∃ parents last, names path = parents ++ [last] ∧
      ∀ suffix : String, IsSuffix suffix →
        names (path ++ suffix) = parents ++ [last ++ suffix] := by
  obtain ⟨parents, last, hpath, happend⟩ := splitOnP_append (p := (· = '/')) path.toList
  refine ⟨parents.map String.ofList, String.ofList last, ?_, fun suffix h => ?_⟩
  · rw [names, hpath, List.map_append, List.map_singleton]
  · have hslash : ∀ c ∈ suffix.toList, decide (c = '/') = false := fun c hc =>
      decide_eq_false fun heq => h.no_slash (heq ▸ hc)
    rw [names, String.toList_append, happend _ hslash, List.map_append, List.map_singleton,
      String.ofList_append, String.ofList_toList]

theorem enter_append {here : Location} {name : String} (h : IsSuffix suffix) :
    enter here (name ++ suffix) =
      if 255 < (name ++ suffix).utf8ByteSize then .error .nameTooLong
      else .ok (here ++ [name ++ suffix]) := by
  have hempty : name ++ suffix ≠ "" := h.append_ne name (by decide)
  have hdot : name ++ suffix ≠ "." := h.append_ne name (by decide)
  have hdots : name ++ suffix ≠ ".." := h.append_ne name (by decide)
  rw [enter, if_neg (by simp [hempty, hdot]), if_neg hdots]

theorem enter_cases {here : Location} {name : String} (h : enter here name = .ok l) :
    l = here ∨ l = here.dropLast ∨ l = here ++ [name] := by
  unfold enter at h
  split at h
  · exact .inl (Except.ok.inj h).symm
  · split at h
    · exact .inr (.inl (Except.ok.inj h).symm)
    · split at h
      · cases h
      · exact .inr (.inr (Except.ok.inj h).symm)

/-! ## The directory of a path -/

theorem locate_eq_ok_of_names {parents : List String} {last : String}
    (hnames : names path = parents ++ [last]) :
    d.locate path = .ok l ↔
      Wellformed path ∧ ∃ dir, d.follow [] parents = .ok dir ∧ d.at? dir = some .directory ∧
        enter dir last = .ok l := by
  rw [locate_eq_ok, hnames, follow_append]
  cases d.follow [] parents with
  | error e => simp [Except.bind]
  | ok dir =>
      have hlast : d.follow dir [last] = .ok l ↔
          d.at? dir = some .directory ∧ enter dir last = .ok l := by
        rw [follow_cons_eq_ok]
        simp [follow]
      simp [Except.bind, hlast]

/-- A file and its siblings are looked up in one directory. -/
theorem exists_directory (d : Disk) (path : String) :
    ∃ dir last,
      (∀ l, d.locate path = .ok l → l = dir ∨ l = dir.dropLast ∨ l = dir ++ [last]) ∧
      ∀ suffix, IsSuffix suffix → ∀ l, d.locate (path ++ suffix) = .ok l →
        l = dir ++ [last ++ suffix] := by
  obtain ⟨parents, last, hnames, happend⟩ := exists_names path
  cases hparents : d.follow [] parents with
  | error e =>
      refine ⟨[], last, fun l hl => ?_, fun suffix hsuffix l hl => ?_⟩
      · obtain ⟨-, dir, hdir, -⟩ := (locate_eq_ok_of_names hnames).1 hl
        cases hparents.symm.trans hdir
      · obtain ⟨-, dir, hdir, -⟩ := (locate_eq_ok_of_names (happend suffix hsuffix)).1 hl
        cases hparents.symm.trans hdir
  | ok dir =>
      refine ⟨dir, last, fun l hl => ?_, fun suffix hsuffix l hl => ?_⟩
      · obtain ⟨-, dir', hdir, -, henter⟩ := (locate_eq_ok_of_names hnames).1 hl
        obtain rfl : dir = dir' := Except.ok.inj (hparents.symm.trans hdir)
        exact enter_cases henter
      · obtain ⟨-, dir', hdir, -, henter⟩ := (locate_eq_ok_of_names (happend suffix hsuffix)).1 hl
        obtain rfl : dir = dir' := Except.ok.inj (hparents.symm.trans hdir)
        rw [enter_append hsuffix] at henter
        split at henter
        · cases henter
        · exact (Except.ok.inj henter).symm

theorem apart_append (d : Disk) (path : String) (h : IsSuffix suffix) :
    d.Apart path (path ++ suffix) := by
  intro l hl hl'
  obtain ⟨dir, last, hpath, hsibling⟩ := d.exists_directory path
  have heq := hsibling suffix h l hl'
  rcases hpath l hl with rfl | rfl | rfl
  · simpa using congrArg List.length heq
  · have hlength := congrArg List.length heq
    rw [List.length_dropLast, List.length_append, List.length_singleton] at hlength
    omega
  · have hname : last = last ++ suffix := by simpa using heq
    have hlength := congrArg (·.toList.length) hname
    have hsuffix := h.length_le
    simp only [String.toList_append, List.length_append] at hlength
    omega

theorem apart_append_append (d : Disk) (path : String) (h : IsSuffix suffix)
    (h' : IsSuffix suffix') (hne : suffix ≠ suffix') :
    d.Apart (path ++ suffix) (path ++ suffix') := by
  intro l hl hl'
  obtain ⟨dir, last, -, hsibling⟩ := d.exists_directory path
  have heq := (hsibling suffix h l hl).symm.trans (hsibling suffix' h' l hl')
  have hname : last ++ suffix = last ++ suffix' := by simpa using heq
  have hchars := congrArg String.toList hname
  rw [String.toList_append, String.toList_append] at hchars
  exact hne (String.toList_inj.1 (List.append_cancel_left hchars))

/-- Where a path leads somewhere, the directory of its siblings is there. -/
theorem locate_append_ne_missing (h : IsSuffix suffix) (hl : d.locate path = .ok l) :
    d.locate (path ++ suffix) ≠ .error .missing := by
  obtain ⟨parents, last, hnames, happend⟩ := exists_names path
  obtain ⟨-, dir, hdir, hentry, -⟩ := (locate_eq_ok_of_names hnames).1 hl
  have hlast : d.follow dir [last ++ suffix] ≠ .error .missing := by
    rw [follow_cons, hentry, enter_append h]
    dsimp only
    split <;> simp [Except.bind, follow]
  unfold locate
  split
  · simp
  · split
    · simp
    · rw [if_neg (h.append_ne path (by decide)), happend suffix h, follow_append, hdir]
      exact hlast

/-! ## Backup and staging file -/

theorem isSuffix_bak : IsSuffix ".bak" := ⟨by decide, by decide⟩

theorem isSuffix_tmp : IsSuffix ".tmp" := ⟨by decide, by decide⟩

theorem apart_backupPath (d : Disk) (path : String) : d.Apart path (backupPath path) :=
  d.apart_append path isSuffix_bak

theorem apart_stagingPath (d : Disk) (path : String) : d.Apart path (stagingPath path) :=
  d.apart_append path isSuffix_tmp

theorem apart_backupPath_stagingPath (d : Disk) (path : String) :
    d.Apart (backupPath path) (stagingPath path) :=
  d.apart_append_append path isSuffix_bak isSuffix_tmp (by decide)

/-- A copy to the backup misses nothing but the file itself. -/
theorem holds?_of_copy_missing (h : d.copy path (backupPath path) = .error .missing) :
    d.holds? path = none := by
  cases hlocate : d.locate path with
  | error e => rw [holds?, hlocate]
  | ok l =>
      rw [holds?_of_locate hlocate]
      unfold copy at h
      simp only [hlocate, bind, Except.bind] at h
      split at h
      · next c hfile =>
        exact absurd (locate_of_write_missing h) (locate_append_ne_missing isSuffix_bak hlocate)
      · cases h
      · next hnone => exact hnone

end Disk

end MetricCatalog
