import MetricCatalog.Proofs.Attribution
import MetricCatalog.Proofs.KeyLookup
import Mathlib.Data.List.Basic
import Mathlib.Data.List.Induction
import Mathlib.Data.List.Pairwise
/-!
# The declarative reading of a snapshot

When each declaration stands above the samples that it may concern, the families
can be told from the lines without going through them in order: which names are
declared, what was said of each name last, and whose each series is.  Decoding,
which resolves each sample as it comes, gives the same families.
-/

namespace MetricCatalog.Exposition

namespace Line

/-- The name that a line declares something of. -/
def declared? : Line → Option String
  | .help name _ => some name
  | .kind name _ => some name
  | _ => none

def series? : Line → Option String
  | .sample series _ _ => some series
  | _ => none

def kindFor? (name : String) : Line → Option Kind
  | .kind declared declaredKind => if declared = name then some declaredKind else none
  | _ => none

def helpFor? (name : String) : Line → Option String
  | .help declared text => if declared = name then some text else none
  | _ => none

end Line

/-! ## The reading -/

section

variable (ls : List Line)

def declaredNames : List String := ls.filterMap Line.declared?

def sampledSeries : List String := ls.filterMap Line.series?

def kindOf (name : String) : Kind := (ls.filterMap (Line.kindFor? name)).getLast?.getD .untyped

def helpOf (name : String) : String := (ls.filterMap (Line.helpFor? name)).getLast?.getD ""

/-- The series of a family: that of its name, and those undeclared that are its
name with a suffix for its kind. -/
def Owns (name series : String) : Prop :=
  series = name ∨
    series ∉ declaredNames ls ∧ ∃ suffix ∈ (kindOf ls name).suffixes, series = name ++ suffix

instance (name series : String) : Decidable (Owns ls name series) :=
  inferInstanceAs (Decidable (_ ∨ _ ∧ _))

/-- The series that no declared family owns. -/
def orphans : List String :=
  (sampledSeries ls).filter fun series => ∀ name ∈ declaredNames ls, ¬ Owns ls name series

/-- The labels of a sample but for a bucket bound or a quantile. -/
def keptLabels (kind : Kind) (family series : String) (labels : KeyMap String) : KeyMap String :=
  if (kind = .histogram ∨ kind = .gaugeHistogram) ∧ "_bucket".toList <:+ series.toList then
    labels.erase "le"
  else if kind = .summary ∧ series = family then labels.erase "quantile"
  else labels

def sampleFor? (name : String) : Line → Option Sample
  | .sample series labels value =>
    if Owns ls name series then
      some { labels := keptLabels (kindOf ls name) name series labels, value }
    else none
  | _ => none

def samplesOf (name : String) : List Sample := ls.filterMap (sampleFor? ls name)

/-- The families that the lines declare or sample, ascending by name. -/
def reading : List Family :=
  (KeySet.ofList (declaredNames ls ++ orphans ls)).toList.map fun name =>
    { name, kind := kindOf ls name, help := helpOf ls name, samples := samplesOf ls name }

/-- No family of the name has the series, whatever its kind. -/
def Apart (name series : String) : Prop :=
  series ≠ name ∧ ∀ suffix ∈ allSuffixes, series ≠ name ++ suffix

instance (name series : String) : Decidable (Apart name series) :=
  inferInstanceAs (Decidable (_ ∧ _))

/-- No line declares a name below a sample that a family of the name could have. -/
def DeclaredFirst : Prop :=
  ls.Pairwise fun above below =>
    ∀ series ∈ above.series?, ∀ name ∈ below.declared?, Apart name series

instance : Decidable (DeclaredFirst ls) :=
  inferInstanceAs (Decidable (List.Pairwise _ ls))

end

/-- The lines of a text, as they read. -/
def statements (text : String) : List Line :=
  (lines text).filterMap fun cs => (Line.parse cs).toOption

theorem Reads.statements_eq {text : String} {ls : List Line} (h : Reads (lines text) ls) :
    statements text = ls := by
  rw [statements, ← Function.comp_def Except.toOption, ← List.filterMap_map, h,
    List.filterMap_map]
  exact List.filterMap_some ..

theorem metricLabels_eq (family series : String) (kind : Kind) (labels : KeyMap String) :
    metricLabels family kind series labels = keptLabels kind family series labels := by
  cases kind <;>
    simp only [metricLabels, keptLabels, isSome_stem?, reduceCtorEq, or_true, or_false, true_and,
      false_and, if_false]

/-! ## One more line -/

section

variable {ls : List Line} {line : Line} {name series : String}

theorem mem_sampledSeries : series ∈ sampledSeries ls ↔ ∃ line ∈ ls, line.series? = some series :=
  List.mem_filterMap

/-- Only a line that declares something of the name says its kind. -/
theorem kindOf_eq_untyped (h : name ∉ declaredNames ls) : kindOf ls name = .untyped := by
  have hnone : ls.filterMap (Line.kindFor? name) = [] := by
    refine List.filterMap_eq_nil_iff.2 fun line hline => ?_
    cases line with
    | kind declared k =>
        refine if_neg fun heq => h (List.mem_filterMap.2 ⟨_, hline, ?_⟩)
        exact congrArg some heq
    | _ => rfl
  rw [kindOf, hnone]
  rfl

theorem helpOf_eq_empty (h : name ∉ declaredNames ls) : helpOf ls name = "" := by
  have hnone : ls.filterMap (Line.helpFor? name) = [] := by
    refine List.filterMap_eq_nil_iff.2 fun line hline => ?_
    cases line with
    | help declared text =>
        refine if_neg fun heq => h (List.mem_filterMap.2 ⟨_, hline, ?_⟩)
        exact congrArg some heq
    | _ => rfl
  rw [helpOf, hnone]
  rfl

theorem mem_declaredNames_of_suffix {suffix : String} (h : suffix ∈ (kindOf ls name).suffixes) :
    name ∈ declaredNames ls :=
  Decidable.byContradiction fun hnot => by
    rw [kindOf_eq_untyped hnot] at h
    cases h

theorem samplesOf_eq_nil (h : ∀ series ∈ sampledSeries ls, ¬ Owns ls name series) :
    samplesOf ls name = [] := by
  refine List.filterMap_eq_nil_iff.2 fun line hline => ?_
  cases line with
  | sample series labels value =>
      exact if_neg (h series (mem_sampledSeries.2 ⟨_, hline, rfl⟩))
  | _ => rfl

theorem not_owns_of_mem_orphans (h : series ∈ orphans ls) :
    ∀ name ∈ declaredNames ls, ¬ Owns ls name series :=
  of_decide_eq_true (List.mem_filter.1 h).2

/-- What the lines say together of a name. -/
def entryOf (ls : List Line) (name : String) : Entry where
  kind := kindOf ls name
  help := helpOf ls name
  samples := samplesOf ls name

theorem entryOf_eq_empty (hd : name ∉ declaredNames ls) (hs : name ∉ sampledSeries ls) :
    entryOf ls name = {} := by
  have hnone : samplesOf ls name = [] := by
    refine samplesOf_eq_nil fun series hseries hown => ?_
    rcases hown with rfl | ⟨-, suffix, hsuffix, -⟩
    · exact hs hseries
    · exact hd (mem_declaredNames_of_suffix hsuffix)
  rw [entryOf, kindOf_eq_untyped hd, helpOf_eq_empty hd, hnone]

theorem Apart.not_owns (h : Apart name series) (ls : List Line) : ¬ Owns ls name series := by
  rintro (rfl | ⟨-, suffix, hsuffix, heq⟩)
  · exact h.1 rfl
  · exact h.2 suffix (mem_allSuffixes hsuffix) heq

theorem DeclaredFirst.concat (h : DeclaredFirst (ls ++ [line])) :
    DeclaredFirst ls ∧ ∀ series ∈ sampledSeries ls, ∀ name ∈ line.declared?, Apart name series := by
  obtain ⟨hls, -, hline⟩ := List.pairwise_append.1 h
  refine ⟨hls, fun series hseries name hname => ?_⟩
  obtain ⟨above, habove, hsome⟩ := mem_sampledSeries.1 hseries
  exact hline above habove line (List.mem_singleton_self _) series hsome name hname

theorem kindOf_concat : kindOf (ls ++ [line]) name = (line.kindFor? name).getD (kindOf ls name) := by
  cases h : line.kindFor? name <;> simp [kindOf, h]

theorem helpOf_concat : helpOf (ls ++ [line]) name = (line.helpFor? name).getD (helpOf ls name) := by
  cases h : line.helpFor? name <;> simp [helpOf, h]

end

/-- The reading has a family of the name. -/
def Held (ls : List Line) (name : String) : Prop := name ∈ declaredNames ls ∨ name ∈ orphans ls

instance (ls : List Line) (name : String) : Decidable (Held ls name) :=
  inferInstanceAs (Decidable (_ ∨ _))

/-- The draft holds the families of the reading. -/
def Draft.Agrees (d : Draft) (ls : List Line) : Prop :=
  ∀ name, d.families.find? name = if Held ls name then some (entryOf ls name) else none

/-- A family that a draft has yet to start is empty in the reading too. -/
theorem Draft.Agrees.getD_find? {d : Draft} {ls : List Line} {name : String} (h : d.Agrees ls)
    (hname : name ∈ sampledSeries ls → Held ls name) :
    (d.families.find? name).getD {} = entryOf ls name := by
  rw [h name]
  split
  · rfl
  · next hno =>
    have hd : name ∉ declaredNames ls := fun hmem => hno (.inl hmem)
    exact (entryOf_eq_empty hd (mt hname hno)).symm

/-! ### A declaration -/

section

variable {ls : List Line} {line : Line} {name declared : String}
  (hdecl : line.declared? = some declared)

include hdecl

theorem series?_of_declared? : line.series? = none := by
  cases line <;> first | rfl | cases hdecl

theorem declaredNames_concat : declaredNames (ls ++ [line]) = declaredNames ls ++ [declared] := by
  rw [declaredNames, List.filterMap_append, List.filterMap_cons_some hdecl, List.filterMap_nil]
  rfl

theorem sampledSeries_concat : sampledSeries (ls ++ [line]) = sampledSeries ls := by
  rw [sampledSeries, List.filterMap_append, List.filterMap_cons_none (series?_of_declared? hdecl),
    List.filterMap_nil, List.append_nil]
  rfl

theorem kindOf_concat_of_ne (hne : name ≠ declared) :
    kindOf (ls ++ [line]) name = kindOf ls name := by
  rw [kindOf_concat]
  cases line with
  | kind n k =>
      cases hdecl
      rw [Line.kindFor?, if_neg hne.symm]
      rfl
  | _ => rfl

theorem helpOf_concat_of_ne (hne : name ≠ declared) :
    helpOf (ls ++ [line]) name = helpOf ls name := by
  rw [helpOf_concat]
  cases line with
  | help n text =>
      cases hdecl
      rw [Line.helpFor?, if_neg hne.symm]
      rfl
  | _ => rfl

theorem owns_concat {series : String} (hapart : Apart declared series) :
    Owns (ls ++ [line]) name series ↔ Owns ls name series := by
  by_cases hname : name = declared
  · subst hname
    exact iff_of_false (hapart.not_owns _) (hapart.not_owns _)
  · simp [Owns, kindOf_concat_of_ne hdecl hname, declaredNames_concat hdecl, hapart.1]

variable (hapart : ∀ series ∈ sampledSeries ls, Apart declared series)

include hapart

theorem orphans_concat : orphans (ls ++ [line]) = orphans ls := by
  rw [orphans, orphans, sampledSeries_concat hdecl, declaredNames_concat hdecl]
  refine List.filter_congr fun series hseries => decide_eq_decide.2 ?_
  have hnot : ¬ Owns ls declared series := (hapart series hseries).not_owns ls
  simp [or_imp, forall_and, hnot, owns_concat hdecl (hapart series hseries)]

theorem samplesOf_concat : samplesOf (ls ++ [line]) name = samplesOf ls name := by
  have hlast : sampleFor? (ls ++ [line]) name line = none := by
    cases line <;> first | rfl | cases hdecl
  rw [samplesOf, samplesOf, List.filterMap_append, List.filterMap_cons_none hlast,
    List.filterMap_nil, List.append_nil]
  refine List.filterMap_congr fun line' hline' => ?_
  cases line' with
  | sample series labels value =>
      have hseries := hapart series (mem_sampledSeries.2 ⟨_, hline', rfl⟩)
      by_cases hown : Owns ls name series
      · have hne : name ≠ declared := fun h => hseries.not_owns ls (h ▸ hown)
        simp [sampleFor?, owns_concat hdecl hseries, kindOf_concat_of_ne hdecl hne]
      · simp [sampleFor?, owns_concat hdecl hseries, hown]
  | _ => rfl

/-- Declaring something of a name changes its entry alone. -/
theorem Draft.Agrees.modify {d : Draft} (h : d.Agrees ls) {f : Entry → Entry}
    (hf : f (entryOf ls declared) = entryOf (ls ++ [line]) declared) :
    (d.modify declared f).Agrees (ls ++ [line]) := by
  intro name
  have hheld : Held (ls ++ [line]) name ↔ Held ls name ∨ name = declared := by
    rw [Held, Held, declaredNames_concat hdecl, orphans_concat hdecl hapart, List.mem_append,
      List.mem_singleton, or_right_comm]
  rw [find?_modify]
  by_cases hname : name = declared
  · subst hname
    have hnot : name ∉ sampledSeries ls := fun hmem => (hapart name hmem).1 rfl
    rw [if_pos rfl, if_pos (hheld.2 (.inr rfl)), h.getD_find? fun hmem => absurd hmem hnot, hf]
  · have hsame : entryOf (ls ++ [line]) name = entryOf ls name := by
      rw [entryOf, kindOf_concat_of_ne hdecl hname, helpOf_concat_of_ne hdecl hname,
        samplesOf_concat hdecl hapart]
      rfl
    rw [if_neg hname, h name, hsame]
    simp only [hheld, hname, or_false]

end

/-! ### Any other line -/

section

variable {ls : List Line} {line : Line} {name : String} (hdecl : line.declared? = none)

include hdecl

theorem declaredNames_concat_of_none : declaredNames (ls ++ [line]) = declaredNames ls := by
  rw [declaredNames, List.filterMap_append, List.filterMap_cons_none hdecl, List.filterMap_nil,
    List.append_nil]
  rfl

theorem kindOf_concat_of_none : kindOf (ls ++ [line]) name = kindOf ls name := by
  rw [kindOf_concat]
  cases line <;> first | rfl | cases hdecl

theorem helpOf_concat_of_none : helpOf (ls ++ [line]) name = helpOf ls name := by
  rw [helpOf_concat]
  cases line <;> first | rfl | cases hdecl

theorem owns_concat_of_none {series : String} :
    Owns (ls ++ [line]) name series ↔ Owns ls name series := by
  rw [Owns, Owns, declaredNames_concat_of_none hdecl, kindOf_concat_of_none hdecl]

theorem mem_orphans_concat {series : String} :
    series ∈ orphans (ls ++ [line]) ↔
      series ∈ orphans ls ∨
        line.series? = some series ∧ ∀ name ∈ declaredNames ls, ¬ Owns ls name series := by
  have hsampled : series ∈ sampledSeries (ls ++ [line]) ↔
      series ∈ sampledSeries ls ∨ line.series? = some series := by
    cases h : line.series? <;> simp [sampledSeries, h, eq_comm]
  simp only [orphans, List.mem_filter, declaredNames_concat_of_none hdecl,
    owns_concat_of_none hdecl, decide_eq_true_eq, hsampled, or_and_right]

theorem samplesOf_concat_of_none :
    samplesOf (ls ++ [line]) name = samplesOf ls name ++ (sampleFor? ls name line).toList := by
  have hsame : sampleFor? (ls ++ [line]) name = sampleFor? ls name := by
    funext line'
    cases line' with
    | sample series labels value =>
        simp only [sampleFor?, owns_concat_of_none hdecl, kindOf_concat_of_none hdecl]
    | _ => rfl
  rw [samplesOf, samplesOf, List.filterMap_append, hsame]
  cases h : sampleFor? ls name line <;> simp [h]

theorem entryOf_concat_of_none :
    entryOf (ls ++ [line]) name =
      { entryOf ls name with
        samples := samplesOf ls name ++ (sampleFor? ls name line).toList } := by
  rw [entryOf, kindOf_concat_of_none hdecl, helpOf_concat_of_none hdecl,
    samplesOf_concat_of_none hdecl]
  rfl

end

theorem Draft.Agrees.silent {d : Draft} {ls : List Line} (h : d.Agrees ls) :
    d.Agrees (ls ++ [.silent]) := by
  intro name
  have hdecl : Line.silent.declared? = none := rfl
  have hheld : Held (ls ++ [.silent]) name ↔ Held ls name := by
    rw [Held, Held, declaredNames_concat_of_none hdecl, mem_orphans_concat hdecl]
    simp [Line.series?]
  have hentry : entryOf (ls ++ [.silent]) name = entryOf ls name := by
    rw [entryOf_concat_of_none hdecl]
    simp [sampleFor?, entryOf]
  rw [h name, hentry]
  simp only [hheld]

/-! ### A sample -/

section

variable {ls : List Line} {name series : String} {labels : KeyMap String} {value : Double}

theorem entryOf_concat_sample_of_owns (h : Owns ls name series) :
    entryOf (ls ++ [.sample series labels value]) name =
      Draft.addToEntry name series labels value (entryOf ls name) := by
  rw [entryOf_concat_of_none rfl, sampleFor?, if_pos h, Draft.addToEntry, metricLabels_eq]
  rfl

theorem entryOf_concat_sample_of_not_owns (h : ¬ Owns ls name series) :
    entryOf (ls ++ [.sample series labels value]) name = entryOf ls name := by
  rw [entryOf_concat_of_none rfl, sampleFor?, if_neg h]
  simp [entryOf]

namespace Draft

variable {d : Draft}

theorem Agrees.contains_iff (h : d.Agrees ls) :
    d.families.contains name = true ↔ Held ls name := by
  rw [KeyMap.contains, h name]
  split <;> simp_all

theorem Agrees.lends_iff (h : d.Agrees ls) :
    d.Lends name series ↔ ∃ suffix ∈ (kindOf ls name).suffixes, series = name ++ suffix := by
  rw [Lends, h name]
  constructor
  · rintro ⟨entry, hentry, hsuffix⟩
    split at hentry
    · cases hentry
      exact hsuffix
    · cases hentry
  · rintro ⟨suffix, hsuffix, heq⟩
    rw [if_pos (.inl (mem_declaredNames_of_suffix hsuffix))]
    exact ⟨_, rfl, suffix, hsuffix, heq⟩

/-- A sample goes to a family that owns its series, -/
theorem Agrees.owns_owner (h : d.Agrees ls) (series : String) :
    Owns ls (d.owner series) series := by
  rcases d.owner_cases series with hself | ⟨hnot, hlends⟩
  · exact .inl hself.symm
  · refine .inr ⟨fun hmem => ?_, h.lends_iff.1 hlends⟩
    rw [h.contains_iff.2 (.inl hmem)] at hnot
    cases hnot

/-- and no other family of the reading owns it. -/
theorem Agrees.owner_eq (h : d.Agrees ls) (hheld : Held ls name) (hown : Owns ls name series) :
    d.owner series = name := by
  rcases hown with rfl | ⟨hundeclared, hsuffix⟩
  · exact owner_of_contains (h.contains_iff.2 hheld)
  · have hdeclared : name ∈ declaredNames ls := by
      obtain ⟨suffix, hsuffix, -⟩ := hsuffix
      exact mem_declaredNames_of_suffix hsuffix
    refine owner_of_lends ?_ (h.lends_iff.2 hsuffix)
    rw [← Bool.not_eq_true, h.contains_iff]
    rintro (hmem | horphan)
    · exact hundeclared hmem
    · exact not_owns_of_mem_orphans horphan name hdeclared (.inr ⟨hundeclared, hsuffix⟩)

/-- A sample goes to a declared family, or its series is an orphan. -/
theorem Agrees.owner_cases (h : d.Agrees ls) (series : String) :
    d.owner series ∈ declaredNames ls ∨
      d.owner series = series ∧ ∀ name ∈ declaredNames ls, ¬ Owns ls name series := by
  by_cases hall : ∀ name ∈ declaredNames ls, ¬ Owns ls name series
  · refine .inr ⟨?_, hall⟩
    rcases d.owner_cases series with hself | ⟨-, hlends⟩
    · exact hself
    · obtain ⟨suffix, hsuffix, -⟩ := h.lends_iff.1 hlends
      exact absurd (h.owns_owner series) (hall _ (mem_declaredNames_of_suffix hsuffix))
  · simp only [not_forall, Decidable.not_not] at hall
    obtain ⟨name, hname, hown⟩ := hall
    rw [h.owner_eq (.inl hname) hown]
    exact .inl hname

theorem Agrees.addSample (h : d.Agrees ls) :
    (d.addSample series labels value).Agrees (ls ++ [.sample series labels value]) := by
  intro name
  have hheld : Held (ls ++ [.sample series labels value]) name ↔
      Held ls name ∨ name = series ∧ ∀ a ∈ declaredNames ls, ¬ Owns ls a name := by
    rw [Held, Held, declaredNames_concat_of_none rfl, mem_orphans_concat rfl, or_assoc, eq_comm]
    simp only [Line.series?, Option.some.injEq]
  rw [Draft.addSample, find?_modify]
  by_cases hname : name = d.owner series
  · have hown : Owns ls name series := hname ▸ h.owns_owner series
    have hsampled : name ∈ sampledSeries ls → Held ls name := by
      intro hmem
      rcases h.owner_cases series with hdeclared | ⟨hself, hall⟩
      · exact .inl (hname ▸ hdeclared)
      · rw [← hself, ← hname] at hall
        exact .inr (List.mem_filter.2 ⟨hmem, decide_eq_true hall⟩)
    have hheld' : Held (ls ++ [.sample series labels value]) name := by
      rw [hheld]
      rcases h.owner_cases series with hdeclared | ⟨hself, hall⟩
      · exact .inl (.inl (hname ▸ hdeclared))
      · rw [← hself, ← hname] at hall
        exact .inr ⟨hname.trans hself, hall⟩
    rw [if_pos hname, if_pos hheld', entryOf_concat_sample_of_owns hown, ← hname,
      h.getD_find? hsampled]
  · rw [if_neg hname, h name]
    by_cases hold : Held ls name
    · have hnot : ¬ Owns ls name series := fun hown => hname (h.owner_eq hold hown).symm
      rw [if_pos hold, if_pos (hheld.2 (.inl hold)), entryOf_concat_sample_of_not_owns hnot]
    · rw [if_neg hold, if_neg]
      rw [hheld, not_or]
      refine ⟨hold, ?_⟩
      rintro ⟨rfl, hall⟩
      rcases h.owner_cases name with hdeclared | ⟨hself, -⟩
      · exact hall _ hdeclared (h.owns_owner name)
      · exact hname hself.symm

end Draft

end

/-! ## All lines -/

theorem Draft.agrees_nil : Agrees {} [] := fun _ => rfl

theorem Draft.Agrees.addLine {d d' : Draft} {ls : List Line} {line : Line} (h : d.Agrees ls)
    (hfirst : DeclaredFirst (ls ++ [line])) (hadd : d.addLine line = .ok d') :
    d'.Agrees (ls ++ [line]) := by
  have hapart := hfirst.concat.2
  cases line with
  | silent =>
      cases hadd
      exact h.silent
  | help declared text =>
      cases hadd
      have hnew := fun series hseries => hapart series hseries declared rfl
      refine h.modify rfl hnew ?_
      rw [entryOf, entryOf, helpOf_concat, kindOf_concat, samplesOf_concat rfl hnew]
      simp [Line.helpFor?, Line.kindFor?]
  | kind declared k =>
      have hnew := fun series hseries => hapart series hseries declared rfl
      have hentry : { entryOf ls declared with kind := k } =
          entryOf (ls ++ [.kind declared k]) declared := by
        rw [entryOf, entryOf, helpOf_concat, kindOf_concat, samplesOf_concat rfl hnew]
        simp [Line.helpFor?, Line.kindFor?]
      rw [Draft.addLine] at hadd
      split at hadd
      · cases hadd
      · cases hadd
        have hfamilies : (d.modify declared ({ · with kind := k })).Agrees
            (ls ++ [.kind declared k]) := h.modify rfl hnew hentry
        exact hfamilies
  | sample series labels value =>
      cases hadd
      exact h.addSample

theorem Draft.agrees_addAll {d : Draft} {ls : List Line} (hfirst : DeclaredFirst ls)
    (h : Draft.addAll {} ls = .ok d) : d.Agrees ls := by
  induction ls using List.reverseRecOn generalizing d with
  | nil =>
      cases h
      exact agrees_nil
  | append_singleton ls line ih =>
      obtain ⟨next, hnext, hline⟩ := addAll_append_eq_ok.1 h
      obtain ⟨last, hadd, hlast⟩ := addAll_cons_eq_ok.1 hline
      cases hlast
      exact (ih hfirst.concat.1 hnext).addLine hfirst hadd

theorem Draft.Agrees.toFamilies_eq {d : Draft} {ls : List Line} (h : d.Agrees ls) :
    d.toFamilies = reading ls := by
  have hkeys : d.families.keys = (KeySet.ofList (declaredNames ls ++ orphans ls)).toList :=
    eq_of_ascending d.families.ascending (KeySet.ascending _) fun name => by
      rw [KeyMap.mem_keys, h.contains_iff, KeySet.mem_toList, KeySet.mem_ofList, List.mem_append]
      rfl
  have hentries : d.families.entries = d.families.keys.map fun name => (name, entryOf ls name) :=
    KeyMap.entries_eq_map fun name entry hentry => by
      rw [h name] at hentry
      split at hentry
      · exact (Option.some.inj hentry).symm
      · cases hentry
  rw [toFamilies, hentries, hkeys, List.map_map]
  rfl

/-- The kinds of one name that accepted lines declare are one. -/
theorem kindOf_of_mem {d : Draft} {ls : List Line} (h : Draft.addAll {} ls = .ok d)
    {name : String} {k : Kind} (hmem : .kind name k ∈ ls) : kindOf ls name = k := by
  have hnodup : (ls.filterMap Line.typedName?).Nodup := (Draft.addAll_ok_iff.1 ⟨d, h⟩).1
  have hunique : ∀ k' ∈ ls.filterMap (Line.kindFor? name), k' = k := by
    intro k' hk'
    obtain ⟨line, hline, hkind⟩ := List.mem_filterMap.1 hk'
    have hsame : line = .kind name k' := by
      cases line with
      | kind declared declaredKind =>
          rw [Line.kindFor?] at hkind
          split at hkind
          · next heq => rw [heq, Option.some.inj hkind]
          · cases hkind
      | _ => cases hkind
    by_contra hne
    have hother : Line.kind name k' ≠ .kind name k := fun heq => hne (Line.kind.inj heq).2
    have : Std.Symm fun l l' : Line =>
        ∀ a, l.typedName? = some a → ∀ b, l'.typedName? = some b → a ≠ b :=
      ⟨fun _ _ hab b hb a ha => (hab a ha b hb).symm⟩
    have hdiffer := (List.pairwise_filterMap.1 hnodup).forall (hsame ▸ hline) hmem hother
    exact hdiffer name rfl name rfl rfl
  have hkind : k ∈ ls.filterMap (Line.kindFor? name) :=
    List.mem_filterMap.2 ⟨_, hmem, if_pos rfl⟩
  rw [kindOf, List.getLast?_eq_getLast_of_ne_nil (List.ne_nil_of_mem hkind), Option.getD_some]
  exact hunique _ (List.getLast_mem _)

/-- Decoding an accepted text in which declarations stand first gives the reading
of its lines, and a name has the one kind that is declared of it. -/
theorem decode_eq_reading {text : String} {families : List Family}
    (h : decode text = .ok families) (hfirst : DeclaredFirst (statements text)) :
    families = reading (statements text) ∧
      ∀ name k, .kind name k ∈ statements text → kindOf (statements text) name = k := by
  obtain ⟨ls, d, hreads, hall, rfl⟩ := decode_eq_ok.1 h
  rw [hreads.statements_eq] at hfirst ⊢
  exact ⟨(Draft.agrees_addAll hfirst hall).toFamilies_eq, fun name k => kindOf_of_mem hall⟩

/-- Lines of two families that take turns, and of an orphan. -/
def interleavedText : String :=
  "# TYPE a histogram\na_bucket\x7ble=\"1\",x=\"y\"\x7d 0\n# HELP b B\nb 0\na_sum 0\nb_sum 0"

def interleavedLines : List Line := [
  .kind "a" .histogram, .sample "a_bucket" (.ofList [("le", "1"), ("x", "y")]) ⟨0⟩,
  .help "b" "B", .sample "b" .empty ⟨0⟩, .sample "a_sum" .empty ⟨0⟩, .sample "b_sum" .empty ⟨0⟩]

theorem decode_eq_reading_sample :
    statements interleavedText = interleavedLines ∧ DeclaredFirst interleavedLines ∧
    decode interleavedText = .ok (reading interleavedLines) ∧
    reading interleavedLines = [
      { name := "a", kind := .histogram, samples := [⟨.ofList [("x", "y")], ⟨0⟩⟩, ⟨.empty, ⟨0⟩⟩] },
      { name := "b", help := "B", samples := [⟨.empty, ⟨0⟩⟩] },
      { name := "b_sum", samples := [⟨.empty, ⟨0⟩⟩] }] := by
  have hreads : Reads (lines interleavedText) interleavedLines := by decide +kernel
  have hfirst : DeclaredFirst interleavedLines := by decide
  have hdecode : ∃ families, decode interleavedText = .ok families := by
    simp only [decode_eq_ok]
    exact ⟨_, interleavedLines, _, hreads, rfl, rfl⟩
  obtain ⟨families, hfamilies⟩ := hdecode
  have hstatements := hreads.statements_eq
  refine ⟨hstatements, hfirst, ?_, by rfl⟩
  have h := (decode_eq_reading hfamilies (hstatements ▸ hfirst)).1
  rw [hfamilies, h, hstatements]

end MetricCatalog.Exposition
