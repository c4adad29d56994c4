import MetricCatalog.Proofs.LineByLine
/-!
# Attribution of samples

A series belongs to the family of its name, or else to the family that lends it
the name: its own name with a suffix that its kind allows.  At most one family
lends a name, and a family that a sample starts lends none.  So taking in samples
never changes what a series belongs to.
-/

namespace MetricCatalog

/-- The suffixes of the series that a family has besides that of its name. -/
def Kind.suffixes : Kind → List String
  | .histogram => ["_bucket", "_sum", "_count"]
  | .summary => ["_sum", "_count"]
  | .gaugeHistogram => ["_bucket", "_gsum", "_gcount"]
  | _ => []

namespace Exposition

/-- Every suffix that some kind of family allows. -/
def allSuffixes : List String := ["_bucket", "_sum", "_count", "_gsum", "_gcount"]

theorem mem_allSuffixes {kind : Kind} {suffix : String} (h : suffix ∈ kind.suffixes) :
    suffix ∈ allSuffixes := by
  revert suffix
  cases kind <;> decide

/-- The table of suffixes and the suffixes of a kind say the same. -/
theorem contains_kind_iff (kind : Kind) :
    ∀ p ∈ seriesSuffixes, p.2.contains kind = true ↔ p.1 ∈ kind.suffixes := by
  cases kind <;> decide

theorem mem_suffixes_iff {kind : Kind} {suffix : String} :
    suffix ∈ kind.suffixes ↔
      ∃ kinds, (suffix, kinds) ∈ seriesSuffixes ∧ kinds.contains kind = true := by
  constructor
  · intro h
    have hlisted : suffix ∈ seriesSuffixes.map Prod.fst := mem_allSuffixes h
    obtain ⟨p, hp, rfl⟩ := List.mem_map.1 hlisted
    exact ⟨p.2, hp, (contains_kind_iff kind p hp).2 h⟩
  · rintro ⟨kinds, hmem, hkind⟩
    exact (contains_kind_iff kind _ hmem).1 hkind

/-- No suffix ends in another. -/
theorem eq_of_append_suffix {name name' suffix suffix' : String} (hs : suffix ∈ allSuffixes)
    (hs' : suffix' ∈ allSuffixes) (h : name ++ suffix = name' ++ suffix') :
    name = name' ∧ suffix = suffix' := by
  have hlist : name.toList ++ suffix.toList = name'.toList ++ suffix'.toList := by
    rw [← String.toList_append, h, String.toList_append]
  have hfree : ∀ s ∈ allSuffixes, ∀ s' ∈ allSuffixes, s.toList <:+ s'.toList → s = s' := by
    decide
  have hsuffix : suffix = suffix' := by
    rcases List.suffix_or_suffix_of_suffix (List.suffix_append name.toList suffix.toList)
      (hlist ▸ List.suffix_append name'.toList suffix'.toList) with hle | hle
    · exact hfree suffix hs suffix' hs' hle
    · exact (hfree suffix' hs' suffix hs hle).symm
  subst hsuffix
  exact ⟨String.toList_injective (List.append_cancel_right hlist), rfl⟩

theorem stem?_eq_some {suffix series name : String} :
    stem? suffix series = some name ↔ series = name ++ suffix := by
  rw [stem?, Option.map_eq_some_iff]
  simp only [Text.dropLead?_eq_some_iff]
  constructor
  · rintro ⟨cs, hcs, rfl⟩
    refine String.toList_injective ?_
    rw [String.toList_append, String.toList_ofList, ← List.reverse_inj, hcs]
    simp
  · rintro rfl
    exact ⟨name.toList.reverse, by simp, by simp⟩

theorem isSome_stem? {suffix series : String} :
    (stem? suffix series).isSome = true ↔ suffix.toList <:+ series.toList := by
  rw [Option.isSome_iff_exists]
  constructor
  · rintro ⟨name, h⟩
    rw [stem?_eq_some.1 h, String.toList_append]
    exact List.suffix_append ..
  · rintro ⟨cs, h⟩
    refine ⟨String.ofList cs, stem?_eq_some.2 (String.toList_injective ?_)⟩
    rw [String.toList_append, String.toList_ofList, h]

namespace Draft

variable {d : Draft} {name name' series : String}

/-- The series is named for a family of the draft, with a suffix that the
family's kind allows. -/
def Lends (d : Draft) (name series : String) : Prop :=
  ∃ entry, d.families.find? name = some entry ∧
    ∃ suffix ∈ entry.kind.suffixes, series = name ++ suffix

theorem Lends.eq (h : d.Lends name series) (h' : d.Lends name' series) : name = name' := by
  obtain ⟨_, _, suffix, hs, hseries⟩ := h
  obtain ⟨_, _, suffix', hs', hseries'⟩ := h'
  exact (eq_of_append_suffix (mem_allSuffixes hs) (mem_allSuffixes hs')
    (hseries.symm.trans hseries')).1

theorem Lends.contains (h : d.Lends name series) : d.families.contains name = true := by
  obtain ⟨entry, hentry, -⟩ := h
  rw [KeyMap.contains, hentry]
  rfl

/-- The family of a sample whose series names none itself. -/
private def lender? (d : Draft) (series : String) : Option String :=
  seriesSuffixes.findSome? fun (suffix, kinds) =>
    (stem? suffix series).filter fun name =>
      (d.families.find? name).any fun entry => kinds.contains entry.kind

private theorem lender_eq_some (h : d.lender? series = some name) : d.Lends name series := by
  obtain ⟨⟨suffix, kinds⟩, hmem, hfilter⟩ := List.exists_of_findSome?_eq_some h
  obtain ⟨hstem, hany⟩ := Option.filter_eq_some_iff.1 hfilter
  obtain ⟨entry, hentry, hkind⟩ := (Option.any_eq_true ..).1 hany
  exact ⟨entry, hentry, suffix, mem_suffixes_iff.2 ⟨kinds, hmem, hkind⟩, stem?_eq_some.1 hstem⟩

private theorem lender_eq_none (h : d.lender? series = none) : ¬ d.Lends name series := by
  rintro ⟨entry, hentry, suffix, hsuffix, rfl⟩
  obtain ⟨kinds, hmem, hkind⟩ := mem_suffixes_iff.1 hsuffix
  have hnone := List.findSome?_eq_none_iff.1 h (suffix, kinds) hmem
  dsimp only at hnone
  rw [stem?_eq_some.2 rfl, Option.filter_some, hentry, Option.any_some, if_pos hkind] at hnone
  cases hnone

theorem owner_of_contains (h : d.families.contains series = true) : d.owner series = series := by
  rw [owner, if_pos h]

theorem owner_of_lends (h : d.families.contains series = false) (hl : d.Lends name series) :
    d.owner series = name := by
  have howner : d.owner series = (d.lender? series).getD series := by
    rw [owner, h]
    rfl
  cases hfind : d.lender? series with
  | none => exact absurd hl (lender_eq_none hfind)
  | some name' => rw [howner, hfind, Option.getD_some, (lender_eq_some hfind).eq hl]

theorem owner_of_not_lends (h : ∀ name, ¬ d.Lends name series) : d.owner series = series := by
  by_cases hc : d.families.contains series = true
  · exact owner_of_contains hc
  · have howner : d.owner series = (d.lender? series).getD series := by
      rw [owner, if_neg hc]
      rfl
    cases hfind : d.lender? series with
    | none => rw [howner, hfind, Option.getD_none]
    | some name => exact absurd (lender_eq_some hfind) (h name)

/-- A series that does not own itself belongs to a family that lends it its name. -/
theorem owner_cases (d : Draft) (series : String) :
    d.owner series = series ∨
      d.families.contains series = false ∧ d.Lends (d.owner series) series := by
  by_cases hc : d.families.contains series = true
  · exact .inl (owner_of_contains hc)
  · by_cases hl : ∃ name, d.Lends name series
    · obtain ⟨name, hl⟩ := hl
      rw [Bool.not_eq_true] at hc
      rw [owner_of_lends hc hl]
      exact .inr ⟨hc, hl⟩
    · exact .inl (owner_of_not_lends fun name h => hl ⟨name, h⟩)

/-! ## Taking in a sample -/

/-- What a sample does to the entry of its family. -/
def addToEntry (family series : String) (labels : KeyMap String) (value : Double)
    (entry : Entry) : Entry :=
  { entry with
    samples := entry.samples ++ [{ labels := metricLabels family entry.kind series labels, value }] }

/-- Takes in a sample. -/
def addSample (d : Draft) (series : String) (labels : KeyMap String) (value : Double) : Draft :=
  d.modify (d.owner series) (addToEntry (d.owner series) series labels value)

variable {labels : KeyMap String} {value : Double}

theorem addLine_sample :
    d.addLine (.sample series labels value) = .ok (d.addSample series labels value) := rfl

theorem find?_modify {f : Entry → Entry} {a : String} :
    (d.modify name f).families.find? a =
      if a = name then some (f ((d.families.find? name).getD {})) else d.families.find? a :=
  KeyMap.find?_alter

theorem contains_modify {f : Entry → Entry} {a : String} :
    (d.modify name f).families.contains a = true ↔
      a = name ∨ d.families.contains a = true := by
  simp only [KeyMap.contains, find?_modify]
  by_cases h : a = name <;> simp [h]

/-- A sample keeps the kinds of all families, and starts none that lends a name. -/
theorem lends_addSample {a : String} :
    (d.addSample series labels value).Lends name a ↔ d.Lends name a := by
  simp only [Lends, addSample, find?_modify]
  by_cases h : name = d.owner series
  · subst h
    cases hentry : d.families.find? (d.owner series) with
    | none => simp [addToEntry, Kind.suffixes]
    | some entry => simp [addToEntry]
  · simp only [if_neg h]

theorem owner_addSample {a : String} :
    (d.addSample series labels value).owner a = d.owner a := by
  by_cases hc : d.families.contains a = true
  · have hc' : (d.addSample series labels value).families.contains a = true :=
      contains_modify.2 (.inr hc)
    rw [owner_of_contains hc, owner_of_contains hc']
  · by_cases hl : ∃ name, d.Lends name a
    · obtain ⟨name, hl⟩ := hl
      have hnot : d.families.contains a = false := Bool.not_eq_true _ ▸ hc
      have hne : a ≠ d.owner series := by
        -- else the sample started a family of the name `a`, which is lent
        intro ha
        rcases owner_cases d series with hself | ⟨-, hlends⟩
        · have hsame : d.owner a = a := by rw [ha, hself, hself]
          have hname : name = a := (owner_of_lends hnot hl).symm.trans hsame
          exact hc (hname ▸ hl.contains)
        · exact hc (ha ▸ hlends.contains)
      have hnot' : (d.addSample series labels value).families.contains a = false := by
        rw [← Bool.not_eq_true, addSample, contains_modify]
        exact not_or.2 ⟨hne, hc⟩
      rw [owner_of_lends hnot' (lends_addSample.2 hl), owner_of_lends hnot hl]
    · rw [owner_of_not_lends fun name h => hl ⟨name, h⟩,
        owner_of_not_lends fun name h => hl ⟨name, lends_addSample.1 h⟩]

end Draft

end Exposition

end MetricCatalog
