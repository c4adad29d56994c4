import MetricCatalog.Proofs.ObservedAlike
import MetricCatalog.Proofs.SampleRuns
import MetricCatalog.Proofs.SampleText
import Mathlib.Logic.Relation
/-!
# Scrapes that differ in numbers

Two scrapes of one target differ in the numbers and times of their samples and in
the order of neighbouring samples.  Such edits turn a run of samples into one with
the same series and labels.  Drafts that take in such runs stay alike, as whose a
series is depends on the declarations alone; and families that are alike are
observed alike.
-/

namespace MetricCatalog.Exposition

open Text

/-! ## Drafts that are alike -/

/-- The entries differ in the order, number and values of samples at most. -/
structure Entry.Alike (e e' : Entry) : Prop where
  kind : e.kind = e'.kind
  help : e.help = e'.help
  samples : SameLabels e.samples e'.samples

theorem Entry.Alike.refl (e : Entry) : e.Alike e := ⟨rfl, rfl, .refl _⟩

/-- The series of a run, with the labels in their samples. -/
def heads (run : List (String × Sample)) : List (String × KeyMap String) :=
  run.map fun p => (p.1, p.2.labels)

namespace Draft

variable {d d' next : Draft} {name series : String} {line : Line} {ls : List Line}
  {run run' : List (String × Sample)}

/-- The drafts differ in the order, number and values of samples at most. -/
structure Alike (d d' : Draft) : Prop where
  typed : d.typed = d'.typed
  contains : ∀ name, d.families.contains name = d'.families.contains name
  entry : ∀ name, (d.entry name).Alike (d'.entry name)

theorem Alike.refl (d : Draft) : d.Alike d := ⟨rfl, fun _ => rfl, fun _ => .refl _⟩

theorem Alike.owner (h : d.Alike d') : d.owner series = d'.owner series :=
  owner_congr h.contains fun name => (h.entry name).kind

theorem exists_owner_iff :
    (∃ p ∈ run, d.owner p.1 = name) ↔ ∃ q ∈ heads run, d.owner q.1 = name := by
  simp [heads]

theorem mem_labels_share {labels : KeyMap String} :
    labels ∈ (d.share name run).map Sample.labels ↔
      ∃ q ∈ heads run, d.owner q.1 = name ∧
        metricLabels name (d.entry name).kind q.1 q.2 = labels := by
  simp only [share, heads, List.mem_map, List.mem_filter, decide_eq_true_eq]
  constructor
  · rintro ⟨_, ⟨p, ⟨hp, hown⟩, rfl⟩, rfl⟩
    exact ⟨_, ⟨p, hp, rfl⟩, hown, rfl⟩
  · rintro ⟨_, ⟨p, hp, rfl⟩, hown, rfl⟩
    exact ⟨_, ⟨p, ⟨hp, hown⟩, rfl⟩, rfl⟩

/-- A run counts by its series and their labels. -/
theorem Alike.addRun (h : d.Alike d') (hrun : ∀ q, q ∈ heads run ↔ q ∈ heads run') :
    (d.addRun run).Alike (d'.addRun run') where
  typed := by rw [typed_addRun, typed_addRun, h.typed]
  contains name := by
    rw [Bool.eq_iff_iff, contains_addRun, contains_addRun, h.contains, exists_owner_iff,
      exists_owner_iff]
    simp only [hrun, h.owner]
  entry name := by
    rw [entry_addRun, entry_addRun]
    refine ⟨(h.entry name).kind, (h.entry name).help, fun labels => ?_⟩
    rw [List.map_append, List.map_append, List.mem_append, List.mem_append, mem_labels_share,
      mem_labels_share, (h.entry name).samples labels, (h.entry name).kind]
    simp only [hrun, h.owner]

theorem Alike.modify (h : d.Alike d') {f : Entry → Entry}
    (hf : ∀ {e e' : Entry}, e.Alike e' → (f e).Alike (f e')) :
    (d.modify name f).Alike (d'.modify name f) where
  typed := h.typed
  contains a := by
    rw [Bool.eq_iff_iff, contains_modify, contains_modify, h.contains]
  entry a := by
    rw [entry_modify, entry_modify]
    split
    · exact hf (h.entry name)
    · exact h.entry a

theorem Alike.addLine (h : d.Alike d') (hadd : d.addLine line = .ok next) :
    ∃ next', d'.addLine line = .ok next' ∧ next.Alike next' := by
  cases line with
  | silent =>
      cases hadd
      exact ⟨d', rfl, h⟩
  | help name text =>
      cases hadd
      exact ⟨_, rfl, h.modify fun he => ⟨he.kind, rfl, he.samples⟩⟩
  | kind name k =>
      rw [Draft.addLine] at hadd ⊢
      rw [h.typed] at hadd
      split at hadd
      · cases hadd
      · next hnew =>
        cases hadd
        rw [if_neg hnew]
        have hmodify : (d.modify name ({ · with kind := k })).Alike
            (d'.modify name ({ · with kind := k })) :=
          h.modify fun he => ⟨rfl, he.help, he.samples⟩
        exact ⟨_, rfl, rfl, hmodify.contains, hmodify.entry⟩
  | sample series labels value =>
      cases hadd
      have hrun : (d.addRun [(series, ⟨labels, value⟩)]).Alike
          (d'.addRun [(series, ⟨labels, value⟩)]) := h.addRun fun _ => Iff.rfl
      exact ⟨_, rfl, hrun⟩

theorem Alike.addAll (h : d.Alike d') (hall : d.addAll ls = .ok next) :
    ∃ next', d'.addAll ls = .ok next' ∧ next.Alike next' := by
  induction ls generalizing d d' with
  | nil =>
      cases hall
      exact ⟨d', rfl, h⟩
  | cons line ls ih =>
      obtain ⟨mid, hadd, hall⟩ := addAll_cons_eq_ok.1 hall
      obtain ⟨mid', hadd', hmid⟩ := h.addLine hadd
      obtain ⟨next', hall', hnext⟩ := ih hmid hall
      exact ⟨next', addAll_cons_eq_ok.2 ⟨mid', hadd', hall'⟩, hnext⟩

theorem Alike.toFamilies (h : d.Alike d') :
    List.Forall₂ Family.Alike d.toFamilies d'.toFamilies := by
  have hkeys : d.families.keys = d'.families.keys :=
    eq_of_ascending d.families.ascending d'.families.ascending fun name => by
      rw [KeyMap.mem_keys, KeyMap.mem_keys, h.contains]
  rw [toFamilies_eq, toFamilies_eq, hkeys, List.forall₂_map_left_iff, List.forall₂_map_right_iff,
    List.forall₂_same]
  intro name _
  exact ⟨rfl, (h.entry name).kind, (h.entry name).help, (h.entry name).samples⟩

end Draft

/-! ## Edits -/

/-- The line gives a sample of the series with these labels. -/
def Gives (series : String) (labels : KeyMap String) (cs : List Char) : Prop :=
  ∃ value, Line.parse cs = .ok (.sample series labels value)

def IsSampleLine (cs : List Char) : Prop := ∃ series labels, Gives series labels cs

/-- The token is the number of the sample that the parts of a line give. -/
structure NumberAt (before token tail : List Char) : Prop where
  head : ∃ series labels, SampleHead series labels before
  number : (Double.parse? (String.ofList token)).isSome = true
  tail : StartsBlank tail

/-- One change of the lines of a scrape that leaves its series and labels. -/
inductive LineEdit : List (List Char) → List (List Char) → Prop
  | number {above below : List (List Char)} {before token token' tail : List Char}
      (hline : NumberAt before token tail)
      (hnumber : (Double.parse? (String.ofList token')).isSome = true) :
      LineEdit (above ++ (before ++ (token ++ tail)) :: below)
        (above ++ (before ++ (token' ++ tail)) :: below)
  | time {above below : List (List Char)} {before token tail tail' : List Char}
      (hline : NumberAt before token tail) (htail : StartsBlank tail') :
      LineEdit (above ++ (before ++ (token ++ tail)) :: below)
        (above ++ (before ++ (token ++ tail')) :: below)
  | reorder {above run run' below : List (List Char)} (hrun : ∀ cs ∈ run, IsSampleLine cs)
      (hperm : run.Perm run') : LineEdit (above ++ run ++ below) (above ++ run' ++ below)
  | again {above run run' below : List (List Char)} {cs : List Char}
      (hrun : ∀ cs ∈ run ++ run', IsSampleLine cs) (hmem : cs ∈ run ++ run') :
      LineEdit (above ++ (run ++ run') ++ below) (above ++ (run ++ cs :: run') ++ below)

def Edit (text text' : String) : Prop := LineEdit (lines text) (lines text')

section

variable {series : String} {labels : KeyMap String} {cs before token token' tail tail' : List Char}
  {texts texts' run run' : List (List Char)} {ps ps' : List (String × Sample)}

/-- The runs give samples of the same series with the same labels. -/
structure SameHeads (run run' : List (List Char)) : Prop where
  left : ∀ cs ∈ run, IsSampleLine cs
  right : ∀ cs ∈ run', IsSampleLine cs
  gives : ∀ series labels,
    (∃ cs ∈ run, Gives series labels cs) ↔ ∃ cs ∈ run', Gives series labels cs

theorem NumberAt.gives_iff (h : NumberAt before token tail) (hhead : SampleHead series labels before)
    {series' : String} {labels' : KeyMap String} :
    Gives series' labels' (before ++ (token ++ tail)) ↔ series' = series ∧ labels' = labels := by
  obtain ⟨value, hvalue⟩ := Option.isSome_iff_exists.1 h.number
  rw [Gives, hhead.parse_append hvalue h.tail]
  simp [eq_comm]

/-- Every sample line has such parts, so an edit can be made in each. -/
theorem isSampleLine_iff :
    IsSampleLine cs ↔ ∃ before token tail, NumberAt before token tail ∧
      cs = before ++ (token ++ tail) := by
  constructor
  · rintro ⟨series, labels, value, hparse⟩
    obtain ⟨before, token, tail, hhead, htoken, htail, hcs⟩ := parse_eq_sample_iff.1 hparse
    exact ⟨before, token, tail, ⟨⟨series, labels, hhead⟩, by rw [htoken]; rfl, htail⟩, hcs⟩
  · rintro ⟨before, token, tail, h, rfl⟩
    obtain ⟨series, labels, hhead⟩ := h.head
    exact ⟨series, labels, (h.gives_iff hhead).2 ⟨rfl, rfl⟩⟩

/-- What a sample line gives but the value is told before the number. -/
theorem NumberAt.sameHeads (h : NumberAt before token tail) (h' : NumberAt before token' tail') :
    SameHeads [before ++ (token ++ tail)] [before ++ (token' ++ tail')] := by
  obtain ⟨series, labels, hhead⟩ := h.head
  constructor
  · rintro _ (_ | ⟨_, ⟨⟩⟩)
    exact ⟨series, labels, (h.gives_iff hhead).2 ⟨rfl, rfl⟩⟩
  · rintro _ (_ | ⟨_, ⟨⟩⟩)
    exact ⟨series, labels, (h'.gives_iff hhead).2 ⟨rfl, rfl⟩⟩
  · simp [h.gives_iff hhead, h'.gives_iff hhead]

/-- An edit changes a run of sample lines to one that gives the same but values. -/
theorem LineEdit.exists_runs (h : LineEdit texts texts') :
    ∃ above run run' below, texts = above ++ run ++ below ∧ texts' = above ++ run' ++ below ∧
      SameHeads run run' := by
  cases h with
  | number hline hnumber =>
      exact ⟨_, _, _, _, List.append_cons .., List.append_cons ..,
        hline.sameHeads ⟨hline.head, hnumber, hline.tail⟩⟩
  | time hline htail =>
      exact ⟨_, _, _, _, List.append_cons .., List.append_cons ..,
        hline.sameHeads ⟨hline.head, hline.number, htail⟩⟩
  | reorder hrun hperm =>
      refine ⟨_, _, _, _, rfl, rfl, hrun, fun cs hcs => hrun cs (hperm.mem_iff.2 hcs), ?_⟩
      simp only [hperm.mem_iff, implies_true]
  | @again above run run' below cs hrun hmem =>
      have hsame : ∀ cs', cs' ∈ run ++ cs :: run' ↔ cs' ∈ run ++ run' := by
        intro cs'
        rw [List.perm_middle.mem_iff, List.mem_cons, or_iff_right_of_imp]
        rintro rfl
        exact hmem
      refine ⟨_, _, _, _, rfl, rfl, hrun, fun cs' hcs' => hrun cs' ((hsame cs').1 hcs'), ?_⟩
      simp only [hsame, implies_true]

theorem exists_run (h : ∀ cs ∈ run, IsSampleLine cs) :
    ∃ ps : List (String × Sample), Reads run (ps.map sampleLineOf) := by
  induction run with
  | nil => exact ⟨[], rfl⟩
  | cons cs run ih =>
      obtain ⟨series, labels, value, hcs⟩ := h cs (List.mem_cons_self ..)
      obtain ⟨ps, hps⟩ := ih fun cs hmem => h cs (List.mem_cons_of_mem _ hmem)
      exact ⟨(series, ⟨labels, value⟩) :: ps, reads_cons.2 ⟨_, _, hcs, hps, rfl⟩⟩

theorem Reads.mem_heads (h : Reads run (ps.map sampleLineOf)) :
    (series, labels) ∈ heads ps ↔ ∃ cs ∈ run, Gives series labels cs := by
  have hlines : (∃ cs ∈ run, Gives series labels cs) ↔
      ∃ value, .ok (.sample series labels value) ∈ run.map Line.parse := by
    simp only [Gives, List.mem_map]
    constructor
    · rintro ⟨cs, hcs, value, hv⟩
      exact ⟨value, cs, hcs, hv⟩
    · rintro ⟨value, cs, hcs, hv⟩
      exact ⟨cs, hcs, value, hv⟩
  rw [hlines, h]
  simp [heads, sampleLineOf]

theorem Reads.unique {ls ls' : List Line} (h : Reads texts ls) (h' : Reads texts ls') : ls = ls' :=
  List.map_injective_iff.2 (fun _ _ => Except.ok.inj) (h.symm.trans h')

/-- After an edit the lines still read, and they build a draft that is alike. -/
theorem LineEdit.addAll (h : LineEdit texts texts') {ls : List Line} {d next : Draft}
    (hreads : Reads texts ls) (hall : d.addAll ls = .ok next) :
    ∃ ls' next', Reads texts' ls' ∧ d.addAll ls' = .ok next' ∧ next.Alike next' := by
  obtain ⟨above, run, run', below, rfl, rfl, hsame⟩ := h.exists_runs
  obtain ⟨_, lsBelow, hrest, hbelow, rfl⟩ := reads_append.1 hreads
  obtain ⟨lsAbove, lsRun, habove, hrun, rfl⟩ := reads_append.1 hrest
  obtain ⟨ps, hps⟩ := exists_run hsame.left
  obtain ⟨ps', hps'⟩ := exists_run hsame.right
  cases hrun.unique hps
  have hheads : ∀ q, q ∈ heads ps ↔ q ∈ heads ps' := fun q => by
    rw [hps.mem_heads, hps'.mem_heads, hsame.gives]
  obtain ⟨mid, hmid, hnext⟩ := Draft.addAll_append_eq_ok.1 hall
  obtain ⟨first, hfirst, hmid⟩ := Draft.addAll_append_eq_ok.1 hmid
  rw [Draft.addAll_sampleLineOf] at hmid
  cases hmid
  obtain ⟨next', hnext', halike⟩ := ((Draft.Alike.refl first).addRun hheads).addAll hnext
  refine ⟨lsAbove ++ ps'.map sampleLineOf ++ lsBelow, next', ?_, ?_, halike⟩
  · exact reads_append.2 ⟨_, _, reads_append.2 ⟨_, _, habove, hps', rfl⟩, hbelow, rfl⟩
  · exact Draft.addAll_append_eq_ok.2
      ⟨_, Draft.addAll_append_eq_ok.2 ⟨_, hfirst, Draft.addAll_sampleLineOf⟩, hnext'⟩

end

/-- Edits of an accepted scrape leave it accepted and the observed catalog the
same, however the observer groups and lists. -/
theorem observe_of_edits {text text' : String} {families : List Family}
    (h : decode text = .ok families) (hedits : Relation.ReflTransGen Edit text text') :
    ∃ families', decode text' = .ok families' ∧
      ∀ n : Normalizer, n.observe families' = n.observe families := by
  induction hedits with
  | refl => exact ⟨families, h, fun _ => rfl⟩
  | tail _ hedit ih =>
      obtain ⟨mid, hmid, hobserve⟩ := ih
      obtain ⟨ls, d, hreads, hall, rfl⟩ := decode_eq_ok.1 hmid
      obtain ⟨ls', d', hreads', hall', halike⟩ := LineEdit.addAll hedit hreads hall
      refine ⟨d'.toFamilies, decode_eq_ok.2 ⟨ls', d', hreads', hall', rfl⟩, fun n => ?_⟩
      rw [← n.observe_congr halike.toFamilies, hobserve]

/-- The samples of a summary with another number and a time, in another order. -/
theorem observe_of_edits_sample :
    decode "# TYPE a summary\na_sum 0\na 0" =
      .ok [{ name := "a", kind := .summary, samples := [⟨.empty, ⟨0⟩⟩, ⟨.empty, ⟨0⟩⟩] }] ∧
    Relation.ReflTransGen Edit "# TYPE a summary\na_sum 0\na 0"
      "# TYPE a summary\na 0 7\na_sum 5\na 0 7" ∧
    ∃ families, decode "# TYPE a summary\na 0 7\na_sum 5\na 0 7" = .ok families ∧
      ∀ n : Normalizer, n.observe families = n.observe
        [{ name := "a", kind := .summary, samples := [⟨.empty, ⟨0⟩⟩, ⟨.empty, ⟨0⟩⟩] }] := by
  have hdecode : decode "# TYPE a summary\na_sum 0\na 0" =
      .ok [{ name := "a", kind := .summary, samples := [⟨.empty, ⟨0⟩⟩, ⟨.empty, ⟨0⟩⟩] }] := rfl
  have hseries : ∀ series ∈ ["a_sum", "a"], IsSeries series := by
    intro series h
    constructor <;> revert series <;> decide
  have hhead : ∀ series ∈ ["a_sum", "a"], SampleHead series .empty (series.toList ++ [' ']) :=
    fun series h => .bare (hseries series h) blank_nil (by decide) (by decide)
  have hsum : ∀ token, (Double.parse? (String.ofList token)).isSome →
      NumberAt "a_sum ".toList token [] :=
    fun token h => ⟨⟨_, _, hhead "a_sum" (by decide)⟩, h, by decide⟩
  have hplain : ∀ tail, StartsBlank tail → NumberAt "a ".toList "0".toList tail :=
    fun tail h => ⟨⟨_, _, hhead "a" (by decide)⟩, rfl, h⟩
  have hlines : ∀ cs ∈ ["a_sum 5".toList, "a 0 7".toList], IsSampleLine cs := by
    rintro _ (_ | ⟨_, _ | ⟨_, ⟨⟩⟩⟩)
    · exact isSampleLine_iff.2 ⟨_, _, _, hsum ['5'] rfl, rfl⟩
    · exact isSampleLine_iff.2 ⟨_, _, _, hplain " 7".toList (by decide), rfl⟩
  have hedit : ∀ {text text' : String} {ls ls' : List (List Char)},
      LineEdit ls ls' → lines text = ls → lines text' = ls' → Edit text text' := by
    rintro _ _ _ _ h rfl rfl
    exact h
  have hnumber : Edit "# TYPE a summary\na_sum 0\na 0" "# TYPE a summary\na_sum 5\na 0" :=
    hedit (@LineEdit.number ["# TYPE a summary".toList] ["a 0".toList] _ _ ['5'] _
      (hsum ['0'] rfl) rfl) (by decide +kernel) (by decide +kernel)
  have htime : Edit "# TYPE a summary\na_sum 5\na 0" "# TYPE a summary\na_sum 5\na 0 7" :=
    hedit (@LineEdit.time ["# TYPE a summary".toList, "a_sum 5".toList] [] _ _ _ " 7".toList
      (hplain [] (by decide)) (by decide)) (by decide +kernel) (by decide +kernel)
  have horder : Edit "# TYPE a summary\na_sum 5\na 0 7" "# TYPE a summary\na 0 7\na_sum 5" :=
    hedit (@LineEdit.reorder ["# TYPE a summary".toList] _ _ [] hlines (.swap ..))
      (by decide +kernel) (by decide +kernel)
  have hagain : Edit "# TYPE a summary\na 0 7\na_sum 5"
      "# TYPE a summary\na 0 7\na_sum 5\na 0 7" :=
    hedit (@LineEdit.again ["# TYPE a summary".toList] ["a 0 7".toList, "a_sum 5".toList] [] [] _
      (fun cs hcs => hlines cs ((List.Perm.swap ..).mem_iff.1 hcs)) (List.mem_cons_self ..))
      (by decide +kernel) (by decide +kernel)
  have hedits := (((Relation.ReflTransGen.single hnumber).tail htime).tail horder).tail hagain
  exact ⟨hdecode, hedits, observe_of_edits hdecode hedits⟩

end MetricCatalog.Exposition
