import MetricCatalog.Proofs.BlankText
import MetricCatalog.Proofs.CursorText
/-!
# Reading plain scalars

A plain scalar is read word by word, with the blanks between the words, up to the
colon of a key or the end of its line.
-/

namespace MetricCatalog.Yaml

open Cursor

variable {c : Cursor} {rest : List Char}

/-! ## Runs of blanks and line breaks -/

@[simp] theorem gather_eq (text more : List Char) : gather text more = more.reverse ++ text :=
  List.reverseAux_eq

theorem readGap_stop {indent fuel : Nat} {gap : Gap} (hspace : c.isAtSpace = false)
    (hbreak : c.isAtBreak = false) : readGap indent fuel gap c = .ok (gap, c) := by
  cases fuel with
  | zero => rfl
  | succ fuel => simp [readGap, hspace, hbreak]

/-- Blanks before any line break are kept. -/
theorem readGap_blanks (indent : Nat) (blanks : List Char) {count fuel : Nat}
    (hrest : c.rest = indentation count ++ rest) (hfuel : count ≤ fuel) :
    ∃ c', c.Passes (indentation count) c' ∧
      readGap indent fuel { blanks } c =
        readGap indent (fuel - count) { blanks := indentation count ++ blanks } c' := by
  induction count generalizing fuel blanks c with
  | zero => exact ⟨c, .refl c, rfl⟩
  | succ count ih =>
      obtain ⟨fuel, rfl⟩ : ∃ n, fuel = n + 1 := ⟨fuel - 1, by omega⟩
      have hrest : c.rest = [' '] ++ (indentation count ++ rest) := hrest
      obtain ⟨c', hpasses, hread⟩ := ih (' ' :: blanks) (rest_skip hrest)
        (Nat.le_of_succ_le_succ hfuel)
      refine ⟨c', (passes_skip hrest).trans hpasses, ?_⟩
      have hbreak : c.isAtBreak = false := by simp [isAtBreak_eq hrest, isBreak]
      have hspace : c.isAtSpace = true := by simp [isAtSpace_eq hrest, isSpace]
      have hblanks : indentation (count + 1) ++ blanks = indentation count ++ ' ' :: blanks := by
        simp [indentation, List.replicate_succ']
      rw [hblanks, Nat.add_sub_add_right, ← hread]
      simp [readGap, hbreak, hspace, hrest]

/-- Blanks after a line break are not. -/
theorem readGap_indentation (indent : Nat) {count fuel : Nat} {gap : Gap} (hgap : gap.breaks ≠ [])
    (hrest : c.rest = indentation count ++ rest) (hfuel : count ≤ fuel) :
    ∃ c', c.Passes (indentation count) c' ∧
      readGap indent fuel gap c = readGap indent (fuel - count) gap c' := by
  induction count generalizing fuel c with
  | zero => exact ⟨c, .refl c, rfl⟩
  | succ count ih =>
      obtain ⟨fuel, rfl⟩ : ∃ n, fuel = n + 1 := ⟨fuel - 1, by omega⟩
      have hrest : c.rest = [' '] ++ (indentation count ++ rest) := hrest
      obtain ⟨c', hpasses, hread⟩ := ih (rest_skip hrest) (Nat.le_of_succ_le_succ hfuel)
      refine ⟨c', (passes_skip hrest).trans hpasses, ?_⟩
      have hbreak : c.isAtBreak = false := by simp [isAtBreak_eq hrest, isBreak]
      have hspace : c.isAtSpace = true := by simp [isAtSpace_eq hrest, isSpace]
      have htab : c.isAt '\t' = false := by simp [isAt_eq hrest]
      rw [Nat.add_sub_add_right, ← hread]
      simp [readGap, hbreak, hspace, htab, hgap]

/-- The line breaks of a gap are gathered, and lead to the start of a line. -/
theorem readGap_breaks (indent : Nat) (gap : Gap) {fuel : Nat} {breaks : List Char}
    (hbreaks : ∀ b ∈ breaks, isPrintable b = true ∧ isBreak b = true) (hne : breaks ≠ [])
    (hrest : c.rest = breaks ++ rest) (hfuel : breaks.length ≤ fuel) :
    ∃ c', c'.StandsAt 0 rest ∧
      readGap indent fuel gap c = readGap indent (fuel - breaks.length)
        { gap with breaks := breaks.reverse ++ gap.breaks } c' := by
  induction breaks generalizing fuel gap c with
  | nil => exact absurd rfl hne
  | cons b breaks ih =>
      obtain ⟨fuel, rfl⟩ : ∃ n, fuel = n + 1 :=
        ⟨fuel - 1, by simp only [List.length_cons] at hfuel; omega⟩
      obtain ⟨hp, hb⟩ := hbreaks b List.mem_cons_self
      have hbreak : c.isAtBreak = true := by simp [isAtBreak_eq hrest, hb]
      obtain ⟨c', htake, hstands⟩ := takeBreak_of_isPrintable hrest hp hb
      have hstep : readGap indent (fuel + 1) gap c =
          readGap indent fuel { gap with breaks := b :: gap.breaks } c' := by
        simp [readGap, hbreak, htake]
      rw [hstep]
      cases breaks with
      | nil => exact ⟨c', hstands, rfl⟩
      | cons b' breaks =>
          obtain ⟨c'', hstands, hread⟩ :=
            ih { gap with breaks := b :: gap.breaks }
              (fun b hb => hbreaks b (List.mem_cons_of_mem _ hb)) (by simp) hstands.rest
              (Nat.le_of_succ_le_succ hfuel)
          refine ⟨c'', hstands, hread.trans ?_⟩
          simp

/-- Line breaks and the indentation after them are a gap. -/
theorem readGap_lines (indent : Nat) {breaks : List Char} {column : Nat}
    (hbreaks : ∀ b ∈ breaks, isPrintable b = true ∧ isBreak b = true) (hne : breaks ≠ [])
    (hsolid : Solid rest) (hrest : c.rest = breaks ++ (indentation column ++ rest)) :
    ∃ c', c'.StandsAt column rest ∧
      readGap indent c.left {} c = .ok ({ breaks := breaks.reverse }, c') := by
  have hleft : c.left = breaks.length + (column + rest.length) := by
    simp [c.left_eq, hrest, indentation]
  obtain ⟨c₁, hstands, hread⟩ := readGap_breaks indent {} hbreaks hne hrest
    (by omega : breaks.length ≤ c.left)
  have hgap : ({ breaks := breaks.reverse } : Gap).breaks ≠ [] := by simpa using hne
  obtain ⟨c₂, hpasses, hindentation⟩ :=
    readGap_indentation indent hgap hstands.rest (by omega : column ≤ c.left - breaks.length)
  have hrest₂ := hpasses.rest_eq hstands.rest
  refine ⟨c₂, ⟨hrest₂, ?_⟩, ?_⟩
  · rw [hpasses.column, hstands.column]
    simp [indentation]
  · rw [hread, List.append_nil, hindentation]
    exact readGap_stop (not_isAtSpace hsolid hrest₂) (not_isAtBreak hsolid hrest₂)

/-! ## Words -/

theorem exists_span (p : Char → Bool) (cs : List Char) :
    ∃ text rest, cs = text ++ rest ∧ (∀ x ∈ text, p x = true) ∧ rest.head?.any p = false := by
  induction cs with
  | nil => exact ⟨[], [], rfl, by simp, rfl⟩
  | cons x cs ih =>
      cases hx : p x with
      | false => exact ⟨[], x :: cs, rfl, by simp, hx⟩
      | true =>
          obtain ⟨text, rest, rfl, htext, hrest⟩ := ih
          exact ⟨x :: text, rest, rfl, List.forall_mem_cons.2 ⟨hx, htext⟩, hrest⟩


/-- Where the run of a plain scalar ends: at a blank, a line break or the colon of
a key. -/
def EndsRun (rest : List Char) : Prop :=
  ∃ x more, rest = x :: more ∧
    ((isSpace x || isBreak x) = true ∨ x = ':' ∧ endsWord more.head? = true)

/-- What a run goes through. -/
def ContinuesRun (x : Char) (rest : List Char) : Prop :=
  (isSpace x || isBreak x) = false ∧ ¬(x = ':' ∧ endsWord rest.head? = true)

/-- The run is a run up to the text behind it. -/
def IsRun : (run rest : List Char) → Prop
  | [], rest => EndsRun rest
  | x :: run, rest => ContinuesRun x (run ++ rest) ∧ IsRun run rest

theorem readPlainRun_eq {run : List Char} (hrun : IsRun run rest) (taken : List Char) {fuel : Nat}
    (hrest : c.rest = run ++ rest) (hfuel : run.length < fuel) :
    ∃ c', c.Passes run c' ∧
      readPlainRun false fuel taken c = .ok (taken.reverse ++ run, c') := by
  induction run generalizing taken fuel c with
  | nil =>
      obtain ⟨fuel, rfl⟩ : ∃ n, fuel = n + 1 := ⟨fuel - 1, by simp at hfuel; omega⟩
      obtain ⟨x, more, rfl, hends⟩ := hrun
      refine ⟨c, .refl c, ?_⟩
      rw [List.nil_append] at hrest
      unfold readPlainRun
      rw [hrest]
      rcases hends with hblank | ⟨rfl, hword⟩
      · simp [hblank]
      · simp [hword]
  | cons x run ih =>
      obtain ⟨fuel, rfl⟩ : ∃ n, fuel = n + 1 := ⟨fuel - 1, by simp at hfuel; omega⟩
      obtain ⟨⟨hblank, hcolon⟩, hrun⟩ := hrun
      have hrest' : c.rest = [x] ++ (run ++ rest) := hrest
      obtain ⟨c', hpasses, hread⟩ := ih hrun (x :: taken) (rest_skip hrest')
        (Nat.lt_of_succ_lt_succ hfuel)
      refine ⟨c', (passes_skip hrest').trans hpasses, ?_⟩
      rw [readPlainRun, hrest]
      simp only [List.cons_append, hblank, Bool.false_eq_true, if_false, Bool.false_and,
        Bool.or_false, Bool.and_eq_true, decide_eq_true_eq, hcolon]
      simpa using hread

/-! ## Lines -/

theorem exists_blanks (cs : List Char) :
    ∃ count more, ' ' :: cs = indentation (count + 1) ++ more ∧ more.head? ≠ some ' ' := by
  obtain ⟨blanks, more, rfl, hblanks, hmore⟩ := exists_span (· = ' ') cs
  have hspaces : blanks = indentation blanks.length :=
    List.eq_replicate_of_mem fun x hx => by simpa using hblanks x hx
  refine ⟨blanks.length, more, ?_, fun h => by simp [h] at hmore⟩
  rw [hspaces]
  simp [indentation, List.replicate_succ]

/-- A line is one word, or a word before blanks and another line. -/
theorem exists_word {cs : List Char} (hne : cs ≠ []) (hhead : cs.head? ≠ some ' ')
    (hlast : cs.getLast? ≠ some ' ') :
    ∃ run, run ≠ [] ∧ (∀ x ∈ run, x ≠ ' ') ∧
      (cs = run ∨ ∃ count more, cs = run ++ (indentation (count + 1) ++ more) ∧
        more ≠ [] ∧ more.head? ≠ some ' ' ∧ more.getLast? ≠ some ' ') := by
  obtain ⟨run, behind, rfl, hrun, hbehind⟩ := exists_span (· ≠ ' ') cs
  refine ⟨run, ?_, fun x hx => by simpa using hrun x hx, ?_⟩
  · rintro rfl
    obtain ⟨x, more, rfl⟩ := List.exists_cons_of_ne_nil hne
    simp_all
  · cases behind with
    | nil => exact .inl (List.append_nil run)
    | cons x behind =>
        obtain rfl : x = ' ' := by simpa using hbehind
        obtain ⟨count, more, hline, hmore⟩ := exists_blanks behind
        rw [hline, List.getLast?_append] at hlast
        have hmorene : more ≠ [] := by
          rintro rfl
          simp [indentation, List.getLast?_replicate] at hlast
        refine .inr ⟨count, more, by rw [hline], hmorene, hmore, fun h => ?_⟩
        simp [List.getLast?_append, h] at hlast

theorem hasInnerIndicator_append (text : List Char) {rest : List Char}
    (h : hasInnerIndicator (text ++ rest) = false) : hasInnerIndicator rest = false := by
  induction text with
  | nil => exact h
  | cons x text ih =>
      refine ih ?_
      rw [List.cons_append] at h
      cases hmore : text ++ rest with
      | nil => rfl
      | cons y more =>
          rw [hmore] at h
          simp only [hasInnerIndicator, Bool.or_eq_false_iff] at h
          exact h.2

/-- What a word has inside it does not end its run. -/
theorem isRun_of_word {before : Char} {run : List Char} (more : List Char) {after : List Char}
    (hwords : ∀ x ∈ run, (isSpace x || isBreak x) = false)
    (h : hasInnerIndicator (before :: run ++ more) = false) (hends : EndsRun (more ++ after)) :
    IsRun run (more ++ after) := by
  induction run generalizing before with
  | nil => exact hends
  | cons x run ih =>
      obtain ⟨hx, hwords⟩ := List.forall_mem_cons.1 hwords
      simp only [List.cons_append, hasInnerIndicator, Bool.or_eq_false_iff] at h
      obtain ⟨⟨-, hcolon⟩, hinner⟩ := h
      refine ⟨⟨hx, fun ⟨hcolon', hend⟩ => ?_⟩, ih hwords hinner⟩
      -- a colon at the very end would have been an indicator as well
      cases hrest : run ++ more with
      | nil =>
          rw [hrest] at hcolon
          simp [hcolon', endsWord] at hcolon
      | cons y rest =>
          rw [hrest] at hcolon
          rw [← List.append_assoc, hrest] at hend
          simp only [List.cons_append, List.head?_cons] at hend hcolon
          simp [hcolon', hend] at hcolon

/-- A text that is read as it stands, up to the end of its line. -/
structure IsLine (cs : List Char) : Prop where
  ne : cs ≠ []
  printable : ∀ x ∈ cs, isPrintable x = true
  unbroken : ∀ x ∈ cs, isBreak x = false
  head : cs.head? ≠ some ' '
  last : cs.getLast? ≠ some ' '
  inner : hasInnerIndicator (' ' :: cs) = false

theorem IsLine.behind {run more : List Char} {count : Nat}
    (h : IsLine (run ++ (indentation (count + 1) ++ more))) (hne : more ≠ [])
    (hhead : more.head? ≠ some ' ') (hlast : more.getLast? ≠ some ' ') : IsLine more where
  ne := hne
  printable x hx := h.printable x (by simp [hx])
  unbroken x hx := h.unbroken x (by simp [hx])
  head := hhead
  last := hlast
  inner := by
    have hinner := h.inner
    rw [indentation, List.replicate_succ'] at hinner
    refine hasInnerIndicator_append (' ' :: run ++ indentation count) ?_
    simpa [indentation] using hinner

theorem IsLine.isRun {run more after : List Char} (h : IsLine (run ++ more))
    (hrun : ∀ x ∈ run, x ≠ ' ') (hends : EndsRun (more ++ after)) : IsRun run (more ++ after) := by
  refine isRun_of_word more (fun x hx => ?_) h.inner hends
  have hmem : x ∈ run ++ more := List.mem_append_left _ hx
  rw [h.unbroken x hmem, Bool.or_false]
  cases hspace : isSpace x with
  | false => rfl
  | true => exact absurd (isSpace_of_isPrintable (h.printable x hmem) hspace) (hrun x hx)

/-- A comment would have to come after a blank. -/
theorem IsLine.not_isAt {cs : List Char} (h : IsLine cs) {after : List Char}
    (hrest : c.rest = cs ++ after) : c.isAt '#' = false := by
  obtain ⟨x, cs, rfl⟩ := List.exists_cons_of_ne_nil h.ne
  rw [isAt_eq hrest]
  have hinner := h.inner
  simp only [hasInnerIndicator, Bool.or_eq_false_iff, Bool.and_eq_false_iff] at hinner
  simpa [endsWord, isSpace] using hinner.1.1

theorem IsLine.not_isAtSpace {cs : List Char} (h : IsLine cs) {after : List Char}
    (hrest : c.rest = cs ++ after) : c.isAtSpace = false := by
  obtain ⟨x, cs, rfl⟩ := List.exists_cons_of_ne_nil h.ne
  rw [isAtSpace_eq hrest]
  show isSpace x = false
  cases hx : isSpace x with
  | false => rfl
  | true =>
      refine absurd ?_ h.head
      rw [isSpace_of_isPrintable (h.printable x List.mem_cons_self) hx]
      rfl

theorem IsLine.not_isAtBreak {cs : List Char} (h : IsLine cs) {after : List Char}
    (hrest : c.rest = cs ++ after) : c.isAtBreak = false := by
  obtain ⟨x, cs, rfl⟩ := List.exists_cons_of_ne_nil h.ne
  rw [isAtBreak_eq hrest]
  exact h.unbroken x List.mem_cons_self

/-- The last word of a line, and the next line's indentation. -/
theorem readPlainRest_last {cs : List Char} (hline : IsLine cs) (hword : ∀ x ∈ cs, x ≠ ' ')
    {indent column : Nat} (hahead : TokenAhead rest) (hindent : column < indent)
    (hrest : c.rest = cs ++ ('\n' :: indentation column ++ rest)) (hcolumn : indent ≤ c.column)
    (text blanks : List Char) (fuel : Nat) :
    ∃ c', c'.StandsAt column rest ∧
      readPlainRest false indent (fuel + 1) text { blanks } c =
        .ok (cs.reverse ++ (blanks ++ text), true, c') := by
  have hmark : c.isAtAnyDocumentMark = false := isAtAnyDocumentMark_of_column (by omega)
  have hempty : cs.isEmpty = false := by simpa using hline.ne
  have hisRun : IsRun cs ('\n' :: indentation column ++ rest) :=
    (cs.append_nil.symm ▸ hline).isRun hword ⟨'\n', _, rfl, .inl (by decide)⟩
  have hleft : cs.length < c.left := by simp [c.left_eq, hrest]
  obtain ⟨c₁, hpasses, hread⟩ := readPlainRun_eq hisRun [] hrest hleft
  have hrest₁ : c₁.rest = '\n' :: indentation column ++ rest := hpasses.rest_eq hrest
  have hbreaks : ∀ b ∈ ['\n'], isPrintable b = true ∧ isBreak b = true := by decide
  obtain ⟨c₂, hstands, hgap⟩ :=
    readGap_lines indent hbreaks (List.cons_ne_nil _ _) hahead.solid hrest₁
  rw [List.reverse_singleton] at hgap
  have hbreak : c₁.isAtBreak = true := by simp [isAtBreak_eq hrest₁, isBreak]
  have hcol : c₂.column < indent := by rw [hstands.column]; exact hindent
  refine ⟨c₂, hstands, ?_⟩
  unfold readPlainRest
  simp [hmark, hline.not_isAt hrest, hread, hempty, hbreak, hgap, hcol, Gap.text, bind, Except.bind,
    pure, Except.pure]

/-- A word before others, and the blanks behind it. -/
theorem readPlainRest_word {run more after : List Char} {count : Nat}
    (hline : IsLine (run ++ (indentation (count + 1) ++ more))) (hrunne : run ≠ [])
    (hword : ∀ x ∈ run, x ≠ ' ') (hmore : IsLine more) {indent : Nat}
    (hrest : c.rest = run ++ (indentation (count + 1) ++ (more ++ after)))
    (hindent : 0 < indent) (hcolumn : indent ≤ c.column) (text blanks : List Char) (fuel : Nat) :
    ∃ c', c.Passes (run ++ indentation (count + 1)) c' ∧
      readPlainRest false indent (fuel + 1) text { blanks } c =
        readPlainRest false indent fuel (run.reverse ++ (blanks ++ text))
          { blanks := indentation (count + 1) } c' := by
  have hmark : c.isAtAnyDocumentMark = false := isAtAnyDocumentMark_of_column (by omega)
  have hempty : run.isEmpty = false := by simpa using hrunne
  have hrest' : c.rest = run ++ (indentation (count + 1) ++ more) ++ after := by simp [hrest]
  have hisRun : IsRun run (indentation (count + 1) ++ more ++ after) :=
    hline.isRun hword ⟨' ', _, rfl, .inl (by decide)⟩
  rw [List.append_assoc] at hisRun
  have hleft : run.length < c.left := by
    rw [c.left_eq, hrest]
    simp only [List.length_append, indentation, List.length_replicate]
    omega
  obtain ⟨c₁, hpasses₁, hread⟩ := readPlainRun_eq hisRun [] hrest hleft
  have hrest₁ := hpasses₁.rest_eq hrest
  have hleft₁ : count + 1 ≤ c₁.left := by simp [c₁.left_eq, hrest₁, indentation]
  obtain ⟨c₂, hpasses₂, hblanks⟩ := readGap_blanks indent [] hrest₁ hleft₁
  have hrest₂ := hpasses₂.rest_eq hrest₁
  have hgap : readGap indent c₁.left {} c₁ = .ok ({ blanks := indentation (count + 1) }, c₂) := by
    rw [List.append_nil] at hblanks
    exact hblanks.trans (readGap_stop (hmore.not_isAtSpace hrest₂) (hmore.not_isAtBreak hrest₂))
  have hspace : c₁.isAtSpace = true := by
    rw [isAtSpace_eq hrest₁]
    rfl
  have hpasses := hpasses₁.trans hpasses₂
  have hcolumn₂ : ¬c₂.column < indent := by
    rw [hpasses.column]
    omega
  refine ⟨c₂, hpasses, ?_⟩
  rw [readPlainRest]
  simp [hmark, hline.not_isAt hrest', hread, hempty, hspace, hgap, hcolumn₂, Gap.text, bind,
    Except.bind]

theorem readPlainRest_eq {cs : List Char} (hline : IsLine cs) {indent column fuel : Nat}
    {text blanks : List Char} (hahead : TokenAhead rest) (hindent : column < indent)
    (hrest : c.rest = cs ++ ('\n' :: indentation column ++ rest)) (hcolumn : indent ≤ c.column)
    (hfuel : c.left < fuel) :
    ∃ c', c'.StandsAt column rest ∧
      readPlainRest false indent fuel text { blanks } c =
        .ok (cs.reverse ++ (blanks ++ text), true, c') := by
  -- By induction on the words that are left.
  induction hlength : cs.length using Nat.strongRecOn generalizing cs text blanks fuel c with
  | ind length ih =>
    obtain ⟨fuel, rfl⟩ : ∃ n, fuel = n + 1 := ⟨fuel - 1, by omega⟩
    obtain ⟨run, hrunne, hword, hcases⟩ := exists_word hline.ne hline.head hline.last
    rcases hcases with rfl | ⟨count, more, rfl, hmorene, hhead, hlast⟩
    · exact readPlainRest_last hline hword hahead hindent hrest hcolumn text blanks fuel
    · have hmore : IsLine more := hline.behind hmorene hhead hlast
      have hrest' : c.rest = run ++ (indentation (count + 1) ++
          (more ++ ('\n' :: indentation column ++ rest))) := by simpa using hrest
      obtain ⟨c₁, hpasses, hstep⟩ := readPlainRest_word hline hrunne hword hmore hrest'
        (by omega) hcolumn text blanks fuel
      have hshorter : more.length < length := by
        simp only [List.length_append, indentation, List.length_replicate] at hlength
        omega
      have hcolumn₁ : indent ≤ c₁.column := by
        rw [hpasses.column]
        omega
      have hfuel₁ : c₁.left < fuel := by
        have hleft := hpasses.left
        simp only [List.length_append, indentation, List.length_replicate] at hleft
        omega
      obtain ⟨c₂, hstands, hread⟩ := ih more.length hshorter hmore
        (hpasses.rest_eq (by rw [List.append_assoc]; exact hrest')) hcolumn₁ hfuel₁ rfl
      refine ⟨c₂, hstands, ?_⟩
      rw [hstep, hread]
      simp [indentation]

theorem readPlain_line {cs : List Char} (hline : IsLine cs) {indent column : Nat}
    (hahead : TokenAhead rest) (hindent : column < indent)
    (hrest : c.rest = cs ++ ('\n' :: indentation column ++ rest)) (hcolumn : indent ≤ c.column) :
    ∃ c', c'.StandsAt column rest ∧
      readPlain false indent c = .ok (String.ofList cs, true, c') := by
  obtain ⟨c', hstands, hread⟩ :=
    readPlainRest_eq hline hahead hindent hrest hcolumn (Nat.lt_succ_self c.left)
  refine ⟨c', hstands, ?_⟩
  have hread : readPlainRest false indent (c.left + 1) [] {} c = .ok (cs.reverse ++ [], true, c') :=
    hread
  rw [readPlain, hread]
  simp [bind, Except.bind, pure, Except.pure]

theorem startsWithIndicator_cons {x : Char} {more : List Char}
    (h : startsWithIndicator (x :: more) = false) :
    (x ∉ "#,[]\x7b\x7d&*!|>'\"%@".toList ∧ x.toNat ≠ 0x60) ∧
      ¬(x ∈ "?:-".toList ∧ endsWord more.head? = true) := by
  simp only [startsWithIndicator, Bool.or_eq_false_iff] at h
  obtain ⟨-, ⟨hmarks, htick⟩, hsigns⟩ := h
  refine ⟨⟨?_, by simpa using htick⟩, ?_⟩
  · rw [← List.contains_iff_mem, hmarks]
    exact Bool.false_ne_true
  · rw [← List.contains_iff_mem, ← Bool.and_eq_true, hsigns]
    exact Bool.false_ne_true

theorem isLine_of_allowsPlain {cs : List Char} (h : allowsPlain cs = true) : IsLine cs := by
  simp only [allowsPlain, needsEscapes, Bool.not_eq_true', Bool.or_eq_false_iff,
    decide_eq_false_iff_not, List.any_eq_false] at h
  obtain ⟨⟨⟨⟨⟨⟨hne, -, hprintable⟩, hunbroken⟩, hhead⟩, hlast⟩, hstart⟩, hinner⟩ := h
  exact {
    ne := by simpa using hne
    printable := fun x hx => by simpa using hprintable x hx
    unbroken := fun x hx => by simpa using hunbroken x hx
    head := hhead
    last := hlast
    inner := by
      obtain ⟨x, more, rfl⟩ := List.exists_cons_of_ne_nil (by simpa using hne)
      obtain ⟨⟨hmarks, -⟩, hsigns⟩ := startsWithIndicator_cons hstart
      have hcomment : x ≠ '#' := by
        rintro rfl
        exact hmarks (by decide)
      have hcolon : ¬(x = ':' ∧ endsWord more.head? = true) := fun ⟨hx, hend⟩ =>
        hsigns ⟨by subst hx; decide, hend⟩
      simp only [hasInnerIndicator, Bool.or_eq_false_iff, Bool.and_eq_false_iff,
        decide_eq_false_iff_not]
      refine ⟨⟨.inl hcomment, ?_⟩, hinner⟩
      by_cases hx : x = ':'
      · exact .inr (by simpa [hx] using hcolon)
      · exact .inl hx }

/-! ## Names -/

/-- Letters of the names that are given to fields, and of words that stand for
themselves. -/
def isLetter (x : Char) : Bool := x.isAlpha || x = '_'

/-- A name, short enough to be a key. -/
structure IsName (cs : List Char) : Prop where
  ne : cs ≠ []
  letters : ∀ x ∈ cs, isLetter x = true
  short : byteLength cs ≤ 1024

instance (cs : List Char) : Decidable (IsName cs) :=
  decidable_of_iff (cs ≠ [] ∧ (∀ x ∈ cs, isLetter x = true) ∧ byteLength cs ≤ 1024)
    ⟨fun ⟨hne, hletters, hshort⟩ => ⟨hne, hletters, hshort⟩, fun h => ⟨h.ne, h.letters, h.short⟩⟩

theorem ne_of_isLetter {x y : Char} (hx : isLetter x = true) (hy : isLetter y = false) : x ≠ y := by
  rintro rfl
  simp [hx] at hy

theorem isPrintable_of_isLetter {x : Char} (h : isLetter x = true) : isPrintable x = true := by
  have hrange : 0x20 ≤ x.toNat ∧ x.toNat ≤ 0x7E := by
    have hclass : (decide (65 ≤ x.val ∧ x.val ≤ 90) || decide (97 ≤ x.val) && decide (x.val ≤ 122) ||
        decide (x = '_')) = true := h
    simp only [Bool.or_eq_true, Bool.and_eq_true, decide_eq_true_eq,
      UInt32.le_iff_toNat_le] at hclass
    rcases hclass with (h | h) | rfl
    · exact ⟨Nat.le_trans (by decide) h.1, Nat.le_trans h.2 (by decide)⟩
    · exact ⟨Nat.le_trans (by decide) h.1, Nat.le_trans h.2 (by decide)⟩
    · decide
  simp [isPrintable, hrange]

theorem isBreak_of_isLetter {x : Char} (h : isLetter x = true) : isBreak x = false := by
  have hne (y : Char) (hy : isLetter y = false) : x ≠ y := ne_of_isLetter h hy
  simp [isBreak, hne _ (by decide : isLetter '\n' = false), hne '\r' (by decide),
    hne '\u0085' (by decide), hne '\u2028' (by decide), hne '\u2029' (by decide)]

theorem isSpace_of_isLetter {x : Char} (h : isLetter x = true) : isSpace x = false := by
  simp [isSpace, ne_of_isLetter h (by decide : isLetter ' ' = false),
    ne_of_isLetter h (by decide : isLetter '\t' = false)]

theorem hasInnerIndicator_of_letters {cs : List Char} (h : ∀ x ∈ cs, isLetter x = true)
    (before : Char) : hasInnerIndicator (before :: cs) = false := by
  induction cs generalizing before with
  | nil => rfl
  | cons x cs ih =>
      obtain ⟨hx, hcs⟩ := List.forall_mem_cons.1 h
      simp [hasInnerIndicator, ih hcs, ne_of_isLetter hx (by decide : isLetter '#' = false),
        ne_of_isLetter hx (by decide : isLetter ':' = false)]

namespace IsName

variable {name : List Char}

theorem isLine (h : IsName name) : IsLine name where
  ne := h.ne
  printable x hx := isPrintable_of_isLetter (h.letters x hx)
  unbroken x hx := isBreak_of_isLetter (h.letters x hx)
  head heq := absurd (h.letters ' ' (List.mem_of_mem_head? heq)) (by decide)
  last heq := absurd (h.letters ' ' (List.mem_of_getLast? heq)) (by decide)
  inner := hasInnerIndicator_of_letters h.letters ' '

theorem isRun (h : IsName name) {after : List Char} (hafter : endsWord after.head? = true) :
    IsRun name (':' :: after) := by
  have hends : EndsRun ([] ++ ':' :: after) := ⟨':', after, rfl, .inr ⟨rfl, hafter⟩⟩
  have hblank (x : Char) (hx : x ∈ name) : (isSpace x || isBreak x) = false := by
    rw [isSpace_of_isLetter (h.letters x hx), isBreak_of_isLetter (h.letters x hx)]
    rfl
  have hinner : hasInnerIndicator (' ' :: name ++ []) = false := by
    rw [List.append_nil]
    exact h.isLine.inner
  exact isRun_of_word [] hblank hinner hends

theorem not_isAtAnyDocumentMark (h : IsName name) {after : List Char}
    (hrest : c.rest = name ++ after) : c.isAtAnyDocumentMark = false := by
  obtain ⟨x, name, rfl⟩ := List.exists_cons_of_ne_nil h.ne
  have hx := h.letters x List.mem_cons_self
  simp [isAtAnyDocumentMark, isAtDocumentMark, hrest,
    ne_of_isLetter hx (by decide : isLetter '-' = false),
    ne_of_isLetter hx (by decide : isLetter '.' = false)]

end IsName

theorem readPlain_key {name : List Char} (hname : IsName name) (indent : Nat) {after : List Char}
    (hrest : c.rest = name ++ ':' :: after) (hafter : endsWord after.head? = true) :
    ∃ c', c.Passes name c' ∧
      readPlain false indent c = .ok (String.ofList name, false, c') := by
  have hleft : name.length < c.left := by simp [c.left_eq, hrest]
  obtain ⟨c', hpasses, hword⟩ := readPlainRun_eq (hname.isRun hafter) [] hrest hleft
  have hrest' := hpasses.rest_eq hrest
  refine ⟨c', hpasses, ?_⟩
  have hempty : name.isEmpty = false := by simpa using hname.ne
  have hspace : c'.isAtSpace = false := by
    rw [isAtSpace_eq hrest']
    rfl
  have hbreak : c'.isAtBreak = false := by
    rw [isAtBreak_eq hrest']
    rfl
  rw [readPlain, readPlainRest]
  simp [hname.not_isAtAnyDocumentMark hrest, hname.isLine.not_isAt hrest, hword, hempty, hspace,
    hbreak, Gap.text, bind, Except.bind, pure, Except.pure]

end MetricCatalog.Yaml
