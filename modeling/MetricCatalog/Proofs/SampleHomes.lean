import MetricCatalog.Proofs.DeclaredReading
import MetricCatalog.Proofs.SampleRuns
import MetricCatalog.Proofs.SampleText
import Mathlib.Algebra.BigOperators.Group.List.Basic
import Mathlib.Algebra.Ring.Nat
import Mathlib.Data.List.Nodup
/-!
# Homes of samples

Whatever the order of the lines of an accepted text, each line that states a sample
has one family as its home, and a family holds the samples of the lines that it is
home to, in their order, and no others.  Families have names, without blanks, which
ascend.  Both are kept by every line, in every state of the draft.
-/

namespace MetricCatalog.Exposition

open Text

/-! ## Lines that state a sample -/

/-- The line is neither blank nor a comment. -/
def StatesSample (cs : List Char) : Prop := trim cs ≠ [] ∧ (trim cs).head? ≠ some '#'

instance (cs : List Char) : Decidable (StatesSample cs) :=
  inferInstanceAs (Decidable (_ ∧ _))

/-- A name that a line can give to a family. -/
def IsName (name : String) : Prop := name.toList ≠ [] ∧ Solid name.toList

section

variable {cs : List Char} {line : Line} {series : String}

theorem sampleValue_eq_ok {labels : KeyMap String} {rest : List Char}
    (h : Line.sampleValue series labels rest = .ok line) :
    ∃ value, line = .sample series labels value := by
  unfold Line.sampleValue at h
  dsimp only at h
  split at h
  · cases h
  · split at h
    · next value _ =>
      cases h
      exact ⟨value, rfl⟩
    · cases h

/-- A line that is read as a sample line gives a sample, or nothing at all. -/
theorem sampleLine_eq_ok (h : Line.sampleLine cs = .ok line) :
    ∃ series labels value, line = .sample series labels value ∧ IsName series := by
  have hsample : ∃ series labels value, line = .sample series labels value := by
    have hread := h
    unfold Line.sampleLine at hread
    dsimp only at hread
    split at hread
    · cases hread
    · split at hread
      · split at hread
        · exact ⟨_, _, sampleValue_eq_ok hread⟩
        · cases hread
      · exact ⟨_, _, sampleValue_eq_ok hread⟩
  obtain ⟨series, labels, value, rfl⟩ := hsample
  obtain ⟨hne, hchars, -⟩ := sampleLine_cases h
  exact ⟨series, labels, value, rfl, hne, fun c hc => (isBlank_of_isSeriesChar (hchars c hc)).1⟩

/-- A trimmed text does not end in blanks. -/
theorem not_blank_of_trim {before after : List Char} (h : trim cs = before ++ after)
    (hne : after ≠ []) : ¬ Blank after := by
  intro hblank
  have hlast : after.getLast hne ∈ (trim cs).getLast? := by
    rw [h, List.getLast?_append_of_ne_nil _ hne, List.getLast?_eq_some_getLast hne]
    rfl
  rw [trim, trimEnd, List.getLast?_reverse] at hlast
  have hsolid := head?_dropWhile_stop isBlank _ _ hlast
  rw [hblank _ (List.getLast_mem hne)] at hsolid
  cases hsolid

theorem isName_of_splitWord {text : List Char} (h : ¬ Blank text) :
    IsName (String.ofList (splitWord text).1) := by
  obtain ⟨margin, hmargin, htext⟩ := exists_margin text
  obtain ⟨_, _, -, hsolid, -, -⟩ := exists_word text
  rw [IsName, String.toList_ofList]
  refine ⟨?_, hsolid⟩
  cases hstart : trimStart text with
  | nil =>
      rw [hstart, List.append_nil] at htext
      exact absurd (htext ▸ hmargin) h
  | cons c rest =>
      have hc : isBlank c = false :=
        head?_dropWhile_stop isBlank text c (by rw [← trimStart, hstart]; rfl)
      rw [splitWord, hstart, List.takeWhile_cons_of_pos (by simp [hc])]
      exact List.cons_ne_nil _ _

/-- A comment ends in something after the word that makes it a declaration, so it
does name what it declares. -/
theorem isName_of_comment {rest : List Char} (htrim : trim cs = '#' :: rest)
    (h : Line.comment (trimStart rest) = .ok line) :
    line.series? = none ∧ ∀ name ∈ line.declared?, IsName name := by
  obtain ⟨margin, -, hrest⟩ := exists_margin rest
  have hword : ∀ (word : List Char) {text : List Char},
      trimStart rest = (word ++ [' ']) ++ text → IsName (String.ofList (splitWord text).1) := by
    intro word text hstart
    refine isName_of_splitWord fun hblank => ?_
    have hsplit : trim cs = ('#' :: (margin ++ word)) ++ ' ' :: text := by
      rw [htrim, hrest, hstart]
      simp
    refine not_blank_of_trim hsplit (List.cons_ne_nil _ _) fun c hc => ?_
    rcases List.mem_cons.1 hc with rfl | hc
    · rfl
    · exact hblank c hc
  unfold Line.comment at h
  split at h
  · next text hhelp =>
    cases h
    refine ⟨rfl, ?_⟩
    rintro _ ⟨⟩
    exact hword "HELP".toList (dropLead?_eq_some_iff.1 hhelp)
  · split at h
    · next text htype =>
      dsimp only at h
      split at h
      · cases h
        refine ⟨rfl, ?_⟩
        rintro _ ⟨⟩
        exact hword "TYPE".toList (dropLead?_eq_some_iff.1 htype)
      · cases h
    · cases h
      exact ⟨rfl, nofun⟩

/-- What a line that reads says: a sample if it states one, and names that are names
in either case. -/
theorem parse_cases (h : Line.parse cs = .ok line) :
    (StatesSample cs ∧ ∃ series labels value, line = .sample series labels value ∧ IsName series) ∨
      ¬ StatesSample cs ∧ line.series? = none ∧ ∀ name ∈ line.declared?, IsName name := by
  unfold Line.parse at h
  split at h
  · next htrim =>
    cases h
    exact .inr ⟨fun hstates => hstates.1 htrim, rfl, nofun⟩
  · next rest htrim =>
    refine .inr ⟨fun hstates => hstates.2 (by rw [htrim]; rfl), isName_of_comment htrim h⟩
  · next hnil hcomment =>
    refine .inl ⟨⟨hnil, fun hhead => ?_⟩, sampleLine_eq_ok h⟩
    obtain ⟨rest, hrest⟩ := List.head?_eq_some_iff.1 hhead
    exact hcomment rest hrest

end

/-! ## Homes -/

/-- The line states the sample of the family, whose labels may lack a bucket bound or
a quantile, and whose series the name may precede. -/
def TakenFrom (family : String) (cs : List Char) (s : Sample) : Prop :=
  ∃ series labels, Line.parse cs = .ok (.sample series labels s.value) ∧
    (s.labels = labels ∨ s.labels = labels.erase "le" ∨ s.labels = labels.erase "quantile") ∧
    (series = family ∨ ∃ suffix ∈ allSuffixes, series = family ++ suffix)

/-- Of lines with their homes, those at home in a family. -/
def linesAt (homes : List (List Char × String)) (name : String) : List (List Char) :=
  (homes.filter (·.2 = name)).map Prod.fst

theorem linesAt_concat {homes : List (List Char × String)} {cs : List Char} {home name : String} :
    linesAt (homes ++ [(cs, home)]) name =
      if home = name then linesAt homes name ++ [cs] else linesAt homes name := by
  rw [linesAt, List.filter_append, List.map_append, List.filter_singleton]
  by_cases h : home = name <;> simp [h, linesAt]

/-- Lines whose homes are among distinct names are counted once over all names. -/
theorem sum_length_linesAt {homes : List (List Char × String)} {names : List String}
    (hd : names.Nodup) (h : ∀ p ∈ homes, p.2 ∈ names) :
    (names.map fun name => (linesAt homes name).length).sum = homes.length := by
  induction homes with
  | nil => simp [linesAt]
  | cons p homes ih =>
      obtain ⟨hp, hrest⟩ := List.forall_mem_cons.1 h
      have hcons : ∀ name, (linesAt (p :: homes) name).length =
          (if name = p.2 then 1 else 0) + (linesAt homes name).length := by
        intro name
        by_cases hname : name = p.2
        · simp [linesAt, hname, Nat.add_comm]
        · simp [linesAt, hname, Ne.symm hname]
      have hone : (names.map fun name => if name = p.2 then 1 else 0).sum = 1 := by
        rw [List.sum_map_eq_nsmul_single p.2 _ fun a hne _ => if_neg hne,
          List.count_eq_one_of_mem hd hp]
        simp
      calc (names.map fun name => (linesAt (p :: homes) name).length).sum
          = (names.map fun name =>
              (if name = p.2 then 1 else 0) + (linesAt homes name).length).sum := by
            simp only [hcons]
        _ = 1 + homes.length := by rw [List.sum_map_add, hone, ih hrest]
        _ = (p :: homes).length := Nat.add_comm ..

theorem metricLabels_cases (family series : String) (kind : Kind) (labels : KeyMap String) :
    metricLabels family kind series labels = labels ∨
      metricLabels family kind series labels = labels.erase "le" ∨
      metricLabels family kind series labels = labels.erase "quantile" := by
  rw [metricLabels_eq, keptLabels]
  split
  · exact .inr (.inl rfl)
  · split
    · exact .inr (.inr rfl)
    · exact .inl rfl

namespace Draft

variable {d d' : Draft} {homes : List (List Char × String)} {cs : List Char} {line : Line}

/-- Each line that stated a sample is at home in a family of the draft, which has the
samples of its lines; and families have names. -/
structure Houses (d : Draft) (homes : List (List Char × String)) : Prop where
  named : ∀ name, d.families.contains name = true → IsName name
  held : ∀ p ∈ homes, d.families.contains p.2 = true
  samples : ∀ name, List.Forall₂ (TakenFrom name) (linesAt homes name) (d.entry name).samples

theorem houses_nil : Houses {} [] := ⟨nofun, nofun, fun _ => .nil⟩

/-- A declaration is no sample. -/
theorem Houses.modify (h : d.Houses homes) {name : String} (hname : IsName name)
    {f : Entry → Entry} (hf : (f (d.entry name)).samples = (d.entry name).samples) :
    (d.modify name f).Houses homes where
  named := by
    intro a ha
    rcases contains_modify.1 ha with rfl | ha
    · exact hname
    · exact h.named a ha
  held p hp := contains_modify.2 (.inr (h.held p hp))
  samples a := by
    rw [entry_modify]
    split
    · next ha =>
      subst ha
      rw [hf]
      exact h.samples a
    · exact h.samples a

theorem Houses.isName_owner (h : d.Houses homes) {series : String} (hseries : IsName series) :
    IsName (d.owner series) := by
  rcases d.owner_cases series with hself | ⟨-, hlends⟩
  · rwa [hself]
  · exact h.named _ hlends.contains

theorem owner_append (d : Draft) (series : String) :
    series = d.owner series ∨ ∃ suffix ∈ allSuffixes, series = d.owner series ++ suffix := by
  rcases d.owner_cases series with hself | ⟨-, entry, -, suffix, hsuffix, heq⟩
  · exact .inl hself.symm
  · exact .inr ⟨suffix, mem_allSuffixes hsuffix, heq⟩

/-- A sample is at home with the owner of its series, and stands there last. -/
theorem Houses.addSample (h : d.Houses homes) {series : String} {labels : KeyMap String}
    {value : Double} (hparse : Line.parse cs = .ok (.sample series labels value))
    (hseries : IsName series) :
    (d.addSample series labels value).Houses (homes ++ [(cs, d.owner series)]) where
  named := by
    intro a ha
    rcases contains_modify.1 ha with rfl | ha
    · exact h.isName_owner hseries
    · exact h.named a ha
  held := by
    intro p hp
    rcases List.mem_append.1 hp with hp | hp
    · exact contains_modify.2 (.inr (h.held p hp))
    · rw [List.mem_singleton.1 hp]
      exact contains_modify.2 (.inl rfl)
  samples := by
    intro a
    rw [linesAt_concat, Draft.addSample, entry_modify]
    by_cases ha : d.owner series = a
    · subst ha
      rw [if_pos rfl, if_pos rfl]
      have htaken : TakenFrom (d.owner series) cs
          ⟨metricLabels (d.owner series) (d.entry (d.owner series)).kind series labels, value⟩ :=
        ⟨series, labels, hparse, metricLabels_cases .., d.owner_append series⟩
      exact List.rel_append (h.samples _) (.cons htaken .nil)
    · rw [if_neg ha, if_neg (Ne.symm ha)]
      exact h.samples a

theorem Houses.addLine (h : d.Houses homes) (hparse : Line.parse cs = .ok line)
    (hadd : d.addLine line = .ok d') :
    ∃ homes', homes'.map Prod.fst = homes.map Prod.fst ++ [cs].filter (StatesSample ·) ∧
      d'.Houses homes' := by
  rcases parse_cases hparse with
    ⟨hstates, series, labels, value, rfl, hseries⟩ | ⟨hstates, hnone, hnames⟩
  · cases hadd
    refine ⟨_, ?_, h.addSample hparse hseries⟩
    rw [List.map_append, List.filter_singleton, decide_eq_true hstates]
    rfl
  · refine ⟨homes, ?_, ?_⟩
    · rw [List.filter_singleton, decide_eq_false hstates]
      exact (List.append_nil _).symm
    · cases line with
      | silent =>
          cases hadd
          exact h
      | help name text =>
          cases hadd
          exact h.modify (hnames name rfl) rfl
      | kind name kind =>
          rw [Draft.addLine] at hadd
          split at hadd
          · cases hadd
          · cases hadd
            have hmodify : (d.modify name ({ · with kind })).Houses homes :=
              h.modify (hnames name rfl) rfl
            exact ⟨hmodify.named, hmodify.held, hmodify.samples⟩
      | sample series labels value => cases hnone

/-- Every run of lines leaves samples at home: by induction from its last line. -/
theorem exists_houses {texts : List (List Char)} {ls : List Line} (hreads : Reads texts ls)
    (hall : addAll {} ls = .ok d) :
    ∃ homes, homes.map Prod.fst = texts.filter (StatesSample ·) ∧ d.Houses homes := by
  induction texts using List.reverseRecOn generalizing ls d with
  | nil =>
      cases reads_nil.1 hreads
      cases hall
      exact ⟨[], rfl, houses_nil⟩
  | append_singleton texts cs ih =>
      obtain ⟨before, last, hbefore, hlast, rfl⟩ := reads_append.1 hreads
      obtain ⟨line, _, hparse, hnil, rfl⟩ := reads_cons.1 hlast
      cases reads_nil.1 hnil
      obtain ⟨next, hnext, hline⟩ := addAll_append_eq_ok.1 hall
      obtain ⟨_, hadd, hdone⟩ := addAll_cons_eq_ok.1 hline
      cases hdone
      obtain ⟨homes, hhomes, hhouses⟩ := ih hbefore hnext
      obtain ⟨homes', hhomes', hhouses'⟩ := hhouses.addLine hparse hadd
      exact ⟨homes', by rw [hhomes', hhomes, List.filter_append], hhouses'⟩

theorem toFamilies_names (d : Draft) : d.toFamilies.map Family.name = d.families.keys := by
  rw [toFamilies_eq, List.map_map]
  exact List.map_id _

end Draft

/-- Decoding an accepted text, in whatever order its lines stand, loses no sample and
makes none up, and gives each to one of the families, which have distinct names. -/
theorem decode_houses_samples {text : String} {families : List Family}
    (h : decode text = .ok families) :
    (∀ f ∈ families, IsName f.name) ∧
    families.Pairwise (fun f g => f.name < g.name) ∧
    (∃ homes : List (List Char × String),
      homes.map Prod.fst = (lines text).filter (StatesSample ·) ∧
      (∀ p ∈ homes, p.2 ∈ families.map Family.name) ∧
      ∀ f ∈ families, List.Forall₂ (TakenFrom f.name) (linesAt homes f.name) f.samples) ∧
    (families.map (·.samples.length)).sum = ((lines text).filter (StatesSample ·)).length := by
  obtain ⟨ls, d, hreads, hall, rfl⟩ := decode_eq_ok.1 h
  obtain ⟨homes, hhomes, hhouses⟩ := Draft.exists_houses hreads hall
  have hnames := d.toFamilies_names
  have hat : ∀ f ∈ d.toFamilies,
      List.Forall₂ (TakenFrom f.name) (linesAt homes f.name) f.samples := by
    rw [d.toFamilies_eq]
    intro f hf
    obtain ⟨name, -, rfl⟩ := List.mem_map.1 hf
    exact hhouses.samples name
  have hheld : ∀ p ∈ homes, p.2 ∈ d.families.keys := by
    intro p hp
    exact KeyMap.mem_keys.2 (hhouses.held p hp)
  refine ⟨?_, ?_, ⟨homes, hhomes, hnames ▸ hheld, hat⟩, ?_⟩
  · intro f hf
    exact hhouses.named _ (KeyMap.mem_keys.1 (hnames ▸ List.mem_map_of_mem hf))
  · exact List.pairwise_map.1 (hnames ▸ d.families.ascending)
  · calc (d.toFamilies.map (·.samples.length)).sum
        = (d.toFamilies.map fun f => (linesAt homes f.name).length).sum := by
          rw [List.map_congr_left fun f hf => (hat f hf).length_eq.symm]
      _ = (d.families.keys.map fun name => (linesAt homes name).length).sum := by
          rw [← hnames, List.map_map]
          rfl
      _ = homes.length := sum_length_linesAt (nodup_of_pairwise_lt d.families.ascending) hheld
      _ = ((lines text).filter (StatesSample ·)).length := by rw [← hhomes, List.length_map]

/-- A name with help alone, and a family that is declared below one of its series. -/
def lateText : String :=
  "a_sum 0\n# HELP x y\n# TYPE a summary\n\na_sum 1\na\x7bquantile=\"0.5\",b=\"c\"\x7d 2\na_count 3"

def lateLines : List Line := [
  .sample "a_sum" .empty ⟨0⟩, .help "x" "y", .kind "a" .summary, .silent,
  .sample "a_sum" .empty ⟨0x3FF0000000000000⟩,
  .sample "a" (.ofList [("b", "c"), ("quantile", "0.5")]) ⟨0x4000000000000000⟩,
  .sample "a_count" .empty ⟨0x4008000000000000⟩]

def lateFamilies : List Family := [
  { name := "a", kind := .summary,
    samples := [⟨.ofList [("b", "c")], ⟨0x4000000000000000⟩⟩, ⟨.empty, ⟨0x4008000000000000⟩⟩] },
  { name := "a_sum", samples := [⟨.empty, ⟨0⟩⟩, ⟨.empty, ⟨0x3FF0000000000000⟩⟩] },
  { name := "x", help := "y" }]

theorem decode_houses_samples_late :
    decode lateText = .ok lateFamilies ∧
    (∀ f ∈ lateFamilies, IsName f.name) ∧
    lateFamilies.Pairwise (fun f g => f.name < g.name) ∧
    (∃ homes : List (List Char × String),
      homes.map Prod.fst = (lines lateText).filter (StatesSample ·) ∧
      (∀ p ∈ homes, p.2 ∈ lateFamilies.map Family.name) ∧
      ∀ f ∈ lateFamilies, List.Forall₂ (TakenFrom f.name) (linesAt homes f.name) f.samples) ∧
    (lateFamilies.map (·.samples.length)).sum =
      ((lines lateText).filter (StatesSample ·)).length ∧
    ((lines lateText).filter (StatesSample ·)).length = 4 := by
  have hreads : Reads (lines lateText) lateLines := by decide +kernel
  have hdecode : decode lateText = .ok lateFamilies :=
    decode_eq_ok.2 ⟨lateLines, _, hreads, rfl, by rfl⟩
  obtain ⟨hnames, hascending, hhomes, hsum⟩ := decode_houses_samples hdecode
  exact ⟨hdecode, hnames, hascending, hhomes, hsum, by decide +kernel⟩

end MetricCatalog.Exposition
