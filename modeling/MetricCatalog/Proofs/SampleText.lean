import MetricCatalog.Exposition.Line
import MetricCatalog.Proofs.NumberText
/-!
# Sample lines as text

A line gives a sample exactly when it is put together from a margin, the name of
a series, a label set or none, a number, and anything that a blank divides from
the number.  The last part, where a time may stand, is not read.
-/

namespace MetricCatalog.Exposition

open Text

/-- A name that a sample line can begin with. -/
structure IsSeries (series : String) : Prop where
  ne_nil : series.toList ≠ []
  chars : ∀ c ∈ series.toList, Line.isSeriesChar c = true
  not_comment : series.toList.head? ≠ some '#'

/-- What stands before the number of a sample line, and the labels it gives. -/
inductive SampleHead (series : String) : KeyMap String → List Char → Prop
  | bare {margin gap : List Char} (hseries : IsSeries series) (hmargin : Blank margin)
      (hgap : Blank gap) (hne : gap ≠ []) :
      SampleHead series .empty (margin ++ (series.toList ++ gap))
  | labelled {labels : KeyMap String} {margin gap text gap' : List Char}
      (hseries : IsSeries series) (hmargin : Blank margin) (hgap : Blank gap)
      (hset : SetText .empty labels text) (hgap' : Blank gap') :
      SampleHead series labels (margin ++ (series.toList ++ (gap ++ '\x7b' :: (text ++ gap'))))

theorem isBlank_of_isSeriesChar {c : Char} (h : Line.isSeriesChar c = true) :
    isBlank c = false ∧ c ≠ '\x7b' := by
  simpa [Line.isSeriesChar, and_comm] using h

theorem isSeriesChar_of_isBlank {c : Char} (h : isBlank c = true) :
    Line.isSeriesChar c = false := by
  simp [Line.isSeriesChar, h]

/-! ## From the parts to the line -/

section

variable {series : String} {labels : KeyMap String} {cs token tail : List Char} {value : Double}

theorem parse_of_trim {c : Char} (h : trim cs = c :: tail) (hc : c ≠ '#') :
    Line.parse cs = Line.sampleLine (c :: tail) := by
  rw [Line.parse, h]
  split
  · next h' => cases h'
  · next h' => exact absurd (List.cons.inj h').1 hc
  · rfl

theorem sampleValue_append {gap : List Char} (hgap : Blank gap)
    (htoken : Double.parse? (String.ofList token) = some value) (htail : StartsBlank tail) :
    Line.sampleValue series labels (gap ++ (token ++ tail)) = .ok (.sample series labels value) := by
  obtain ⟨hne, hsolid, -⟩ := Double.solid_of_parse? htoken
  have hempty : (String.ofList token).isEmpty = false :=
    isEmpty_eq_false (by rwa [String.toList_ofList])
  have hword : splitWord (gap ++ (token ++ tail)) = (token, trimStart tail) := by
    rw [← List.append_assoc]
    exact splitWord_append hgap hsolid hne htail
  rw [Line.sampleValue, hword]
  simp [hempty, htoken]

theorem IsSeries.sampleLine_append (h : IsSeries series) {rest : List Char}
    (hrest : ∀ c ∈ rest.head?, Line.isSeriesChar c = false) :
    Line.sampleLine (series.toList ++ rest) =
      match trimStart rest with
      | '\x7b' :: body =>
        match labelSet .empty body with
        | .ok (labels, after) => Line.sampleValue series labels after
        | .error fault => .error (.malformedLabels fault)
      | rest => Line.sampleValue series .empty rest := by
  have hempty : ¬ series.isEmpty = true := by
    rw [isEmpty_eq_false h.ne_nil]
    decide
  rw [Line.sampleLine, takeWhile_append_stop h.chars hrest, dropWhile_append_stop h.chars hrest,
    String.ofList_toList]
  exact if_neg hempty

theorem startsBlank_trimEnd (h : StartsBlank tail) : StartsBlank (trimEnd tail) := by
  obtain ⟨trail, -, htail⟩ := exists_trail tail
  intro c hc
  refine h c ?_
  rw [htail, List.head?_append, hc]
  rfl

/-- The margin and the trail of a line are not read. -/
theorem IsSeries.parse_append (h : IsSeries series) {margin mid : List Char}
    (hmargin : Blank margin) (htoken : Double.parse? (String.ofList token) = some value) :
    Line.parse (margin ++ (series.toList ++ mid) ++ (token ++ tail)) =
      Line.sampleLine (series.toList ++ (mid ++ (token ++ trimEnd tail))) := by
  obtain ⟨hne, hsolid, -⟩ := Double.solid_of_parse? htoken
  obtain ⟨c, name, hname⟩ := List.exists_cons_of_ne_nil h.ne_nil
  have hc : isBlank c = false :=
    (isBlank_of_isSeriesChar (h.chars c (by rw [hname]; exact List.mem_cons_self ..))).1
  have htrim : trim (margin ++ (series.toList ++ mid) ++ (token ++ tail)) =
      series.toList ++ (mid ++ (token ++ trimEnd tail)) := by
    rw [trim, List.append_assoc, trimStart_append_of_blank hmargin, hname, List.cons_append,
      List.cons_append, trimStart_cons hc, ← List.cons_append, ← List.cons_append,
      ← List.append_assoc, trimEnd_append_solid hne hsolid]
    simp
  rw [hname, List.cons_append] at htrim ⊢
  refine parse_of_trim htrim fun hcomment => h.not_comment ?_
  rw [hname, hcomment]
  rfl

/-- The parts of a sample line give the sample. -/
theorem SampleHead.parse_append {before : List Char} (h : SampleHead series labels before)
    (htoken : Double.parse? (String.ofList token) = some value) (htail : StartsBlank tail) :
    Line.parse (before ++ (token ++ tail)) = .ok (.sample series labels value) := by
  obtain ⟨hne, hsolid, hbrace⟩ := Double.solid_of_parse? htoken
  have htail' := startsBlank_trimEnd htail
  cases h with
  | @bare margin gap hseries hmargin hgap hgapne =>
      rw [hseries.parse_append hmargin htoken]
      have hstop : ∀ c ∈ (gap ++ (token ++ trimEnd tail)).head?, Line.isSeriesChar c = false := by
        obtain ⟨g, gap, rfl⟩ := List.exists_cons_of_ne_nil hgapne
        intro c hc
        cases hc
        exact isSeriesChar_of_isBlank (hgap _ (List.mem_cons_self ..))
      have hread : Line.sampleValue series .empty ([] ++ (token ++ trimEnd tail)) =
          .ok (.sample series .empty value) := sampleValue_append blank_nil htoken htail'
      rw [hseries.sampleLine_append hstop, trimStart_append_of_blank hgap]
      obtain ⟨t, token, rfl⟩ := List.exists_cons_of_ne_nil hne
      rw [List.cons_append, trimStart_cons (hsolid t (List.mem_cons_self ..))]
      split
      · next heq =>
        rw [(List.cons.inj heq).1] at hbrace
        exact absurd rfl hbrace
      · exact hread
  | @labelled _ margin gap text gap' hseries hmargin hgap hset hgap' =>
      rw [hseries.parse_append hmargin htoken]
      have hstop : ∀ c ∈ (gap ++ '\x7b' :: (text ++ gap') ++ (token ++ trimEnd tail)).head?,
          Line.isSeriesChar c = false := by
        intro c hc
        cases gap with
        | nil => cases hc; rfl
        | cons g gap => cases hc; exact isSeriesChar_of_isBlank (hgap _ (List.mem_cons_self ..))
      rw [hseries.sampleLine_append hstop, List.append_assoc, trimStart_append_of_blank hgap,
        List.cons_append, trimStart_cons (by decide), List.append_assoc]
      simp only [hset.labelSet_append]
      exact sampleValue_append hgap' htoken htail'

/-! ## From the line to the parts -/

theorem sampleValue_eq_sample {name : String} {labels' : KeyMap String} {rest : List Char}
    (h : Line.sampleValue name labels' rest = .ok (.sample series labels value)) :
    name = series ∧ labels' = labels ∧ ∃ gap token tail, Blank gap ∧
      Double.parse? (String.ofList token) = some value ∧ StartsBlank tail ∧
      rest = gap ++ (token ++ tail) := by
  obtain ⟨gap, tail, hgap, -, htail, hrest⟩ := exists_word rest
  unfold Line.sampleValue at h
  dsimp only at h
  split at h
  · cases h
  · split at h
    · next value' hvalue =>
      cases h
      rw [List.append_assoc] at hrest
      exact ⟨rfl, rfl, gap, _, tail, hgap, hvalue, htail, hrest⟩
    · cases h

theorem comment_ne_sample : Line.comment cs ≠ .ok (.sample series labels value) := by
  intro h
  unfold Line.comment at h
  split at h
  · cases h
  · split at h
    · dsimp only at h
      split at h <;> cases h
    · cases h

theorem sampleLine_of_parse (h : Line.parse cs = .ok (.sample series labels value)) :
    Line.sampleLine (trim cs) = .ok (.sample series labels value) ∧ (trim cs).head? ≠ some '#' := by
  unfold Line.parse at h
  split at h
  · cases h
  · exact absurd h comment_ne_sample
  · next hcomment =>
    refine ⟨h, fun hhead => ?_⟩
    obtain ⟨rest, hrest⟩ := List.head?_eq_some_iff.1 hhead
    exact hcomment rest hrest

theorem toList_of_takeWhile {line : List Char}
    (h : String.ofList (line.takeWhile Line.isSeriesChar) = series) (hne : ¬ series.isEmpty = true) :
    series.toList ≠ [] ∧ (∀ c ∈ series.toList, Line.isSeriesChar c = true) ∧
      line = series.toList ++ line.dropWhile Line.isSeriesChar := by
  have hseries : series.toList = line.takeWhile Line.isSeriesChar := by
    rw [← h, String.toList_ofList]
  refine ⟨fun hnil => hne ?_, fun c hc => ?_, ?_⟩
  · rw [String.isEmpty_iff]
    exact String.toList_injective hnil
  · exact List.mem_takeWhile_imp (hseries ▸ hc)
  · rw [hseries, List.takeWhile_append_dropWhile]

/-- A number cannot stand where the series ends, as it would belong to the name. -/
theorem gap_ne_nil {gap : List Char}
    (hstop : ∀ c ∈ (gap ++ (token ++ tail)).head?, Line.isSeriesChar c = false)
    (htoken : Double.parse? (String.ofList token) = some value) : gap ≠ [] := by
  rintro rfl
  obtain ⟨hne, hsolid, hbrace⟩ := Double.solid_of_parse? htoken
  obtain ⟨c, token, rfl⟩ := List.exists_cons_of_ne_nil hne
  have hblank : isBlank c = false := hsolid c (List.mem_cons_self ..)
  have hc : c ≠ '\x7b' := fun h => hbrace (by rw [h]; rfl)
  have hend := hstop c rfl
  simp [Line.isSeriesChar, hblank, hc] at hend

/-- A trimmed line that gives a sample is a series, a label set or a gap, and a
word. -/
theorem sampleLine_cases {line : List Char}
    (h : Line.sampleLine line = .ok (.sample series labels value)) :
    series.toList ≠ [] ∧ (∀ c ∈ series.toList, Line.isSeriesChar c = true) ∧
      ∃ mid token tail, line = series.toList ++ (mid ++ (token ++ tail)) ∧
        Double.parse? (String.ofList token) = some value ∧ StartsBlank tail ∧
        (labels = .empty ∧ Blank mid ∧ mid ≠ [] ∨
          ∃ gap text gap', Blank gap ∧ SetText .empty labels text ∧ Blank gap' ∧
            mid = gap ++ '\x7b' :: (text ++ gap')) := by
  unfold Line.sampleLine at h
  dsimp only at h
  split at h
  · cases h
  · next hempty =>
    obtain ⟨gap, hgap, hrest⟩ := exists_margin (line.dropWhile Line.isSeriesChar)
    split at h
    · next body hbody =>
      split at h
      · next labels' after hset =>
        obtain ⟨hname, rfl, gap', token, tail, hgap', htoken, htail, rfl⟩ := sampleValue_eq_sample h
        obtain ⟨text, htext, rfl⟩ := exists_setText hset
        obtain ⟨hne, hchars, hline⟩ := toList_of_takeWhile hname (hname ▸ hempty)
        refine ⟨hne, hchars, gap ++ '\x7b' :: (text ++ gap'), token, tail, ?_, htoken, htail,
          .inr ⟨gap, text, gap', hgap, htext, hgap', rfl⟩⟩
        rw [hrest, hbody] at hline
        exact hline.trans (by simp)
      · cases h
    · obtain ⟨hname, rfl, gap', token, tail, hgap', htoken, htail, hword⟩ := sampleValue_eq_sample h
      obtain ⟨hne, hchars, hline⟩ := toList_of_takeWhile hname (hname ▸ hempty)
      rw [hword, ← List.append_assoc] at hrest
      refine ⟨hne, hchars, gap ++ gap', token, tail, hrest ▸ hline, htoken, htail,
        .inl ⟨rfl, hgap.append hgap', ?_⟩⟩
      exact gap_ne_nil (hrest ▸ head?_dropWhile_stop Line.isSeriesChar line) htoken

/-- A line that gives a sample is put together from such parts. -/
theorem exists_sampleHead (h : Line.parse cs = .ok (.sample series labels value)) :
    ∃ before token tail, SampleHead series labels before ∧
      Double.parse? (String.ofList token) = some value ∧ StartsBlank tail ∧
      cs = before ++ (token ++ tail) := by
  obtain ⟨margin, trail, hmargin, htrail, hcs⟩ := exists_margins cs
  obtain ⟨hline, hcomment⟩ := sampleLine_of_parse h
  obtain ⟨hne, hchars, mid, token, tail, htrim, htoken, htail, hmid⟩ := sampleLine_cases hline
  have hseries : IsSeries series := by
    refine ⟨hne, hchars, fun hhead => hcomment ?_⟩
    rw [htrim, List.head?_append, hhead]
    rfl
  refine ⟨margin ++ (series.toList ++ mid), token, tail ++ trail, ?_, htoken,
    htail.append htrail.startsBlank, ?_⟩
  · obtain ⟨rfl, hblank, hmidne⟩ | ⟨gap, text, gap', hgap, htext, hgap', rfl⟩ := hmid
    · exact .bare hseries hmargin hblank hmidne
    · exact .labelled hseries hmargin hgap htext hgap'
  · rw [htrim] at hcs
    rw [hcs]
    simp

theorem parse_eq_sample_iff :
    Line.parse cs = .ok (.sample series labels value) ↔
      ∃ before token tail, SampleHead series labels before ∧
        Double.parse? (String.ofList token) = some value ∧ StartsBlank tail ∧
        cs = before ++ (token ++ tail) := by
  constructor
  · exact exists_sampleHead
  · rintro ⟨before, token, tail, hhead, htoken, htail, rfl⟩
    exact hhead.parse_append htoken htail

end

end MetricCatalog.Exposition
