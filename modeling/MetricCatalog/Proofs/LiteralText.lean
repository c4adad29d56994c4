import MetricCatalog.Proofs.PlainText
/-!
# Reading literal blocks

The lines of a literal block are read one by one, each with the line breaks after
it.  The breaks at its end are kept or not as the block's marks say, so that what
is read is the text that was written.
-/

namespace MetricCatalog.Yaml

open Cursor

variable {c : Cursor} {rest : List Char} {indent column : Nat}

/-! ## Line breaks and indentation -/

/-- What an indentation is taken up to: it is as wide as it should be, or no wider. -/
structure IndentedTo (indent column : Nat) (rest : List Char) : Prop where
  le : column ≤ indent
  exact : column = indent ∨ rest.head? ≠ some ' '
  no_break : rest.head?.any isBreak = false
  no_tab : rest.head? ≠ some '\t'

theorem IndentedTo.length_spaces (h : IndentedTo indent column rest) :
    min ((indentation column ++ rest).takeWhile (· = ' ')).length (indent - 0) = column := by
  have hall : ∀ x ∈ indentation column, decide (x = ' ') = true := fun x hx => by
    simp [List.eq_of_mem_replicate hx]
  rw [List.takeWhile_append_of_pos hall, List.length_append, indentation, List.length_replicate]
  have hle := h.le
  rcases h.exact with heq | hhead
  · omega
  · have hnone : rest.takeWhile (· = ' ') = [] := by
      cases rest with
      | nil => rfl
      | cons x rest => exact List.takeWhile_cons_of_neg (by simpa using hhead)
    rw [hnone, List.length_nil]
    omega

/-- The indentation of the next line. -/
theorem readBlockBreaks_stop (hindented : IndentedTo indent column rest)
    (hc : c.StandsAt 0 (indentation column ++ rest)) (taken : List Char) (widest fuel : Nat) :
    ∃ widest' c', c'.StandsAt column rest ∧
      readBlockBreaks (some indent) (fuel + 1) taken widest c =
        .ok (taken.reverse, widest', c') := by
  have hspaces : min (c.rest.takeWhile (· = ' ')).length (indent - c.column) = column := by
    rw [hc.rest, hc.column]
    exact hindented.length_spaces
  have hskip := hc.skip_indentation
  rw [Nat.zero_add] at hskip
  have htab : (c.skip column).isAt '\t' = false := by
    rw [isAt_eq hskip.rest]
    exact decide_eq_false hindented.no_tab
  have hbreak : (c.skip column).isAtBreak = false := by
    rw [isAtBreak_eq hskip.rest]
    exact hindented.no_break
  refine ⟨max widest (c.skip column).column, c.skip column, hskip, ?_⟩
  simp only [readBlockBreaks, hspaces, htab, hbreak, Bool.and_false, Bool.false_eq_true,
    if_false, Bool.not_false, if_true]
  rfl

/-- An empty line. -/
theorem readBlockBreaks_break {b : Char} (hp : isPrintable b = true) (hb : isBreak b = true)
    (hrest : c.rest = b :: rest) (taken : List Char) (widest fuel : Nat) :
    ∃ c', c'.StandsAt 0 rest ∧ readBlockBreaks (some indent) (fuel + 1) taken widest c =
      readBlockBreaks (some indent) fuel (b :: taken) (max widest c.column) c' := by
  have hspaces : (c.rest.takeWhile (· = ' ')).length = 0 := by
    have hne : b ≠ ' ' := by
      rintro rfl
      exact absurd hb (by decide)
    simp [hrest, hne]
  have htab : c.isAt '\t' = false := by
    rw [isAt_eq hrest]
    refine decide_eq_false fun h => ?_
    obtain rfl : b = '\t' := by simpa using h
    exact absurd hb (by decide)
  have hbreak : c.isAtBreak = true := by simp [isAtBreak_eq hrest, hb]
  obtain ⟨c', htake, hc'⟩ := takeBreak_of_isPrintable hrest hp hb
  refine ⟨c', hc', ?_⟩
  simp only [readBlockBreaks, hspaces, Nat.zero_min, skip_zero, htab, hbreak, Bool.and_false,
    Bool.false_eq_true, if_false, Bool.not_true, htake]
  rfl

/-- Empty lines are gathered up to the next line's indentation. -/
theorem readBlockBreaks_fixed {breaks : List Char}
    (hbreaks : ∀ b ∈ breaks, isPrintable b = true ∧ isBreak b = true)
    (hindented : IndentedTo indent column rest)
    (hc : c.StandsAt 0 (breaks ++ (indentation column ++ rest)))
    (taken : List Char) (widest : Nat) {fuel : Nat} (hfuel : breaks.length < fuel) :
    ∃ widest' c', c'.StandsAt column rest ∧
      readBlockBreaks (some indent) fuel taken widest c =
        .ok (taken.reverse ++ breaks, widest', c') := by
  induction breaks generalizing c taken widest fuel with
  | nil =>
      obtain ⟨fuel, rfl⟩ : ∃ n, fuel = n + 1 := ⟨fuel - 1, by simp at hfuel; omega⟩
      rw [List.append_nil]
      exact readBlockBreaks_stop hindented hc taken widest fuel
  | cons b breaks ih =>
      obtain ⟨fuel, rfl⟩ : ∃ n, fuel = n + 1 := ⟨fuel - 1, by simp at hfuel; omega⟩
      obtain ⟨⟨hp, hb⟩, hbreaks⟩ := List.forall_mem_cons.1 hbreaks
      obtain ⟨c', hc', hstep⟩ := readBlockBreaks_break hp hb hc.rest taken widest fuel
      obtain ⟨widest', c'', hc'', hread⟩ := ih hbreaks hc' (b :: taken) (max widest c.column)
        (Nat.lt_of_succ_lt_succ hfuel)
      refine ⟨widest', c'', hc'', ?_⟩
      rw [hstep, hread]
      simp

/-- The first line of a block shows how far the block is indented. -/
theorem readBlockBreaks_free {x : Char} (hx : isSpace x = false) (hbreak : isBreak x = false)
    (hc : c.StandsAt 0 (indentation indent ++ x :: rest)) (fuel : Nat) :
    ∃ c', c'.StandsAt indent (x :: rest) ∧
      readBlockBreaks none (fuel + 1) [] 0 c = .ok ([], indent, c') := by
  have hspaces : (c.rest.takeWhile (· = ' ')).length = indent := by
    have hall : ∀ y ∈ indentation indent, decide (y = ' ') = true := fun y hy => by
      simp [List.eq_of_mem_replicate hy]
    have hne : x ≠ ' ' := by
      rintro rfl
      exact absurd hx (by decide)
    rw [hc.rest, List.takeWhile_append_of_pos hall,
      List.takeWhile_cons_of_neg (by simpa using hne), List.append_nil, indentation,
      List.length_replicate]
  have hskip := hc.skip_indentation
  rw [Nat.zero_add] at hskip
  have htab : (c.skip indent).isAt '\t' = false := by
    rw [isAt_eq hskip.rest]
    refine decide_eq_false fun h => ?_
    obtain rfl : x = '\t' := by simpa using h
    exact absurd hx (by decide)
  refine ⟨c.skip indent, hskip, ?_⟩
  simp [readBlockBreaks, hspaces, htab, isAtBreak_eq hskip.rest, hbreak, hskip.column, pure,
    Except.pure]

/-! ## The lines of a block -/

/-- A line has no break in it, so it is written as it is. -/
theorem literalBody_line {line : List Char} (hline : ∀ x ∈ line, isBreak x = false)
    (more : List Char) :
    literalBody indent false (line ++ more) = line ++ literalBody indent false more := by
  induction line with
  | nil => rfl
  | cons x line ih =>
      obtain ⟨hx, hline⟩ := List.forall_mem_cons.1 hline
      simp [literalBody, hx, ih hline]

/-- Empty lines are not indented. -/
theorem literalBody_breaks {breaks : List Char} (hbreaks : ∀ b ∈ breaks, isBreak b = true)
    (more : List Char) :
    literalBody indent true (breaks ++ more) = breaks ++ literalBody indent true more := by
  induction breaks with
  | nil => rfl
  | cons b breaks ih =>
      obtain ⟨hb, hbreaks⟩ := List.forall_mem_cons.1 hbreaks
      simp [literalBody, hb, ih hbreaks]

theorem literalBody_start {x : Char} (hx : isBreak x = false) (more : List Char) :
    literalBody indent true (x :: more) =
      indentation indent ++ literalBody indent false (x :: more) := by
  simp [literalBody, hx]

/-- Lines of text, each with its line break. -/
structure AreLines (ds : List Char) : Prop where
  printable : ∀ x ∈ ds, isPrintable x = true
  last : ∀ x ∈ ds.getLast?, isBreak x = true

theorem AreLines.behind {text ds : List Char} (h : AreLines (text ++ ds)) : AreLines ds where
  printable x hx := h.printable x (List.mem_append_right _ hx)
  last x hx := h.last x (by
    rw [Option.mem_def] at hx ⊢
    rw [List.getLast?_append, hx]
    rfl)

/-- Lines are a line, the break at its end and empty lines before other lines. -/
theorem AreLines.exists_line {ds : List Char} (h : AreLines ds) (hne : ds ≠ [])
    (hhead : ds.head?.any isBreak = false) :
    ∃ line b breaks more, ds = line ++ b :: (breaks ++ more) ∧ line ≠ [] ∧
      (∀ y ∈ line, isBreak y = false) ∧ (∀ y ∈ b :: breaks, isBreak y = true) ∧
      more.head?.any isBreak = false := by
  obtain ⟨line, behind, rfl, hline, hbehind⟩ := exists_span (!isBreak ·) ds
  have hline : ∀ y ∈ line, isBreak y = false := fun y hy => by simpa using hline y hy
  have hlinene : line ≠ [] := by
    rintro rfl
    cases behind with
    | nil => exact hne rfl
    | cons b behind => simp_all
  cases behind with
  | nil =>
      have hmem := List.getLast_mem hlinene
      have hlast := h.last (line.getLast hlinene) (by simp [List.getLast?_eq_some_getLast hlinene])
      rw [hline _ hmem] at hlast
      cases hlast
  | cons b behind =>
      obtain ⟨breaks, more, rfl, hbreaks, hmore⟩ := exists_span isBreak behind
      have hb : isBreak b = true := by simpa using hbehind
      exact ⟨line, b, breaks, more, rfl, hlinene, hline,
        List.forall_mem_cons.2 ⟨hb, hbreaks⟩, hmore⟩

theorem TokenAhead.indentedTo (h : TokenAhead rest) (hcolumn : column ≤ indent) :
    IndentedTo indent column rest where
  le := hcolumn
  exact := .inr fun heq => by simpa [isSpace] using (h ' ' heq).1
  no_break := by
    cases hhead : rest.head? with
    | none => rfl
    | some x => exact (h x hhead).2.1
  no_tab heq := by simpa [isSpace] using (h '\t' heq).1

theorem indentedTo_line {y : Char} {next after : List Char} (hy : isBreak y = false)
    (hprintable : isPrintable y = true) :
    IndentedTo indent indent (literalBody indent false (y :: next) ++ after) where
  le := Nat.le_refl _
  exact := .inl rfl
  no_break := by simp [literalBody, hy]
  no_tab := by
    simp only [literalBody, hy]
    intro h
    obtain rfl : y = '\t' := by simpa using h
    exact absurd hprintable (by decide)

/-- The break at the end of a line and the empty lines behind it. -/
theorem readBlockLines_line {line breaks : List Char} {b : Char} {next : List Char} {k : Nat}
    (hlinene : line ≠ []) (hline : ∀ y ∈ line, isBreak y = false)
    (hbreaks : ∀ y ∈ b :: breaks, isPrintable y = true ∧ isBreak y = true)
    (hindented : IndentedTo indent k next)
    (hc : c.StandsAt indent (line ++ b :: (breaks ++ (indentation k ++ next))))
    (text first more : List Char) (blankBefore : Bool) (fuel : Nat) :
    ∃ c' blankAfter, c'.StandsAt k next ∧
      readBlockLines true indent (fuel + 1) text blankBefore first more c =
        readBlockLines true indent fuel (line.reverse ++ ((first ++ more).reverse ++ text))
          blankAfter [b] breaks c' := by
  obtain ⟨⟨hp, hb⟩, hbreaks⟩ := List.forall_mem_cons.1 hbreaks
  have htaken : c.takeWhile (!isBreak ·) = (line, c.skip line.length) :=
    takeWhile_eq hc.rest (fun y hy => by simp [hline y hy]) (by simp [hb])
  obtain ⟨c₁, htake, hc₁⟩ := takeBreak_of_isPrintable (rest_skip hc.rest) hp hb
  have hleft : breaks.length < c₁.left + 1 := by
    rw [c₁.left_eq, hc₁.rest, List.length_append]
    omega
  obtain ⟨widest, c₂, hc₂, hread⟩ := readBlockBreaks_fixed hbreaks hindented hc₁ [] 0 hleft
  refine ⟨c₂, c.isAtSpace, hc₂, ?_⟩
  have hend : c.isAtEnd = false := by
    have := List.length_pos_iff.2 hlinene
    simp [isAtEnd, hc.rest]
  rw [readBlockLines]
  simp [hc.column, hend, htaken, htake, hread, bind, Except.bind]

theorem readBlockLines_stop (hcolumn : c.column ≠ indent) (text first more : List Char)
    (blankBefore : Bool) (fuel : Nat) :
    readBlockLines true indent (fuel + 1) text blankBefore first more c =
      .ok (text, first, more, c) := by
  rw [readBlockLines]
  simp [hcolumn, pure, Except.pure]

/-- Text up to its last line, and the breaks after that line. -/
structure EndsIn (ds core : List Char) (b : Char) (breaks : List Char) : Prop where
  split : ds = core ++ b :: breaks
  ne : core ≠ []
  solid : core.getLast?.any isBreak = false
  breaks : ∀ y ∈ b :: breaks, isBreak y = true

theorem EndsIn.append {ds core breaks : List Char} {b : Char} (h : EndsIn ds core b breaks)
    (text : List Char) : EndsIn (text ++ ds) (text ++ core) b breaks where
  split := by rw [h.split, List.append_assoc]
  ne := by simp [h.ne]
  solid := by
    have hlast := h.solid
    rw [List.getLast?_append]
    cases hcases : core.getLast? with
    | none => exact absurd (List.getLast?_eq_none_iff.1 hcases) h.ne
    | some x => simpa [hcases] using hlast
  breaks := h.breaks

theorem readBlockLines_eq {ds : List Char} (hlines : AreLines ds) (hne : ds ≠ [])
    (hhead : ds.head?.any isBreak = false) (hahead : TokenAhead rest)
    (hindent : column < indent)
    (hc : c.StandsAt indent (literalBody indent false ds ++ (indentation column ++ rest)))
    (text first more : List Char) (blankBefore : Bool) {fuel : Nat} (hfuel : c.left < fuel) :
    ∃ core b breaks c', EndsIn ds core b breaks ∧ c'.StandsAt column rest ∧
      readBlockLines true indent fuel text blankBefore first more c =
        .ok (core.reverse ++ ((first ++ more).reverse ++ text), [b], breaks, c') := by
  induction hlength : ds.length using Nat.strongRecOn
    generalizing ds c text first more blankBefore fuel with
  | ind length ih =>
    obtain ⟨fuel, rfl⟩ : ∃ n, fuel = n + 1 := ⟨fuel - 1, by omega⟩
    obtain ⟨line, b, breaks, next, rfl, hlinene, hline, hbreaks, hnext⟩ :=
      hlines.exists_line hne hhead
    have hpos := List.length_pos_iff.2 hlinene
    have hall : ∀ y ∈ b :: breaks, isPrintable y = true ∧ isBreak y = true := fun y hy =>
      ⟨hlines.printable y (List.mem_append_right _ (List.mem_append_left next hy)), hbreaks y hy⟩
    have hbody : literalBody indent false (line ++ b :: (breaks ++ next)) =
        line ++ b :: (breaks ++ literalBody indent true next) := by
      rw [literalBody_line hline, ← literalBody_breaks (List.forall_mem_cons.1 hbreaks).2]
      simp [literalBody, (List.forall_mem_cons.1 hbreaks).1]
    rw [hbody] at hc
    cases next with
    | nil =>
        have hc : c.StandsAt indent (line ++ b :: (breaks ++ (indentation column ++ rest))) := by
          simpa [literalBody] using hc
        obtain ⟨c₁, blank, hc₁, hread⟩ := readBlockLines_line hlinene hline hall
          (hahead.indentedTo (Nat.le_of_lt hindent)) hc text first more blankBefore fuel
        have hleft : c₁.left < fuel := by
          have := c.left_eq
          rw [c₁.left_eq, hc₁.rest]
          simp [hc.rest] at this
          omega
        obtain ⟨fuel, rfl⟩ : ∃ n, fuel = n + 1 := ⟨fuel - 1, by omega⟩
        refine ⟨line, b, breaks, c₁, ⟨by simp, hlinene, ?_, hbreaks⟩, hc₁, ?_⟩
        · rw [List.getLast?_eq_some_getLast hlinene]
          exact hline _ (List.getLast_mem hlinene)
        · rw [hread, readBlockLines_stop (by rw [hc₁.column]; omega)]
    | cons y next =>
        have hy : isBreak y = false := by simpa using hnext
        rw [literalBody_start hy] at hc
        have hc : c.StandsAt indent (line ++ b :: (breaks ++ (indentation indent ++
            (literalBody indent false (y :: next) ++ (indentation column ++ rest))))) := by
          simpa using hc
        obtain ⟨c₁, blank, hc₁, hread⟩ :=
          readBlockLines_line hlinene hline hall
            (indentedTo_line hy (hlines.printable y (by simp))) hc
            text first more blankBefore fuel
        have hleft : c₁.left < fuel := by
          have := c.left_eq
          rw [c₁.left_eq, hc₁.rest]
          simp [hc.rest, indentation] at this ⊢
          omega
        have hlines' : AreLines (y :: next) := by
          have h : AreLines ((line ++ b :: breaks) ++ (y :: next)) := by simpa using hlines
          exact h.behind
        obtain ⟨core, b', breaks', c₂, hends, hc₂, hread'⟩ := ih (y :: next).length
          (by rw [← hlength]; simp; omega) hlines' (List.cons_ne_nil _ _) (by simpa using hy) hc₁
          (line.reverse ++ ((first ++ more).reverse ++ text)) [b] breaks blank hleft rfl
        refine ⟨line ++ b :: breaks ++ core, b', breaks', c₂, ?_, hc₂, ?_⟩
        · have := hends.append (line ++ b :: breaks)
          simpa using this
        · rw [hread, hread']
          simp

/-! ## The breaks at the end -/

/-- What is to become of the breaks at the end of a text. -/
def chompingOf (cs : List Char) : Chomping :=
  match cs.reverse with
  | [] => .strip
  | [x] => if isBreak x then .keep else .strip
  | x :: y :: _ => if !isBreak x then .strip else if isBreak y then .keep else .clip

def Chomping.mark : Chomping → List Char
  | strip => ['-']
  | clip => []
  | keep => ['+']

/-- The breaks that are kept of the break after the last line and those of the
empty lines behind it. -/
def Chomping.tail (first more : List Char) : Chomping → List Char
  | strip => []
  | clip => first
  | keep => first ++ more

/-- The text does not show its indentation. -/
def startsBlank (cs : List Char) : Bool := cs.head?.any fun x => x = ' ' || isBreak x

theorem literalMarks_eq (cs : List Char) :
    literalMarks cs = (if startsBlank cs then ['2'] else []) ++ (chompingOf cs).mark := by
  unfold literalMarks startsBlank chompingOf
  rcases cs.reverse with _ | ⟨x, _ | ⟨y, before⟩⟩
  · rfl
  · cases hx : isBreak x <;> simp [hx, Chomping.mark]
  · cases hx : isBreak x <;> cases hy : isBreak y <;> simp [hx, hy, Chomping.mark]

/-- A text as the lines of a block, each of which ends with a break. -/
def asLines (cs : List Char) : List Char := if cs.getLast?.any isBreak then cs else cs ++ ['\n']

/-- The text up to its last line, the break that ends that line and the breaks of
the empty lines after it; a text without lines is breaks alone. -/
inductive Parts (ds : List Char) : List Char → List Char → List Char → Prop
  | empty (hbreaks : ∀ y ∈ ds, isBreak y = true) : Parts ds [] [] ds
  | lines {core breaks : List Char} {b : Char} (hends : EndsIn ds core b breaks) :
      Parts ds core [b] breaks

/-- Breaks in front of a text that does not start with one. -/
theorem eq_nil_of_append_eq_cons {breaks text more : List Char} {x : Char}
    (hbreaks : ∀ y ∈ breaks, isBreak y = true) (hx : isBreak x = false)
    (h : x :: more = breaks ++ text) : breaks = [] := by
  cases breaks with
  | nil => rfl
  | cons y breaks =>
      obtain ⟨rfl, -⟩ := List.cons.inj h
      rw [hbreaks x List.mem_cons_self] at hx
      cases hx

/-- If only the last character is a break, then so is only the last of its parts. -/
theorem EndsIn.single {ds core breaks before : List Char} {b x y : Char}
    (h : EndsIn ds core b breaks) (hds : ds = before ++ [y, x]) (hy : isBreak y = false) :
    core = before ++ [y] ∧ b = x ∧ breaks = [] := by
  have hreverse : x :: y :: before.reverse = (b :: breaks).reverse ++ core.reverse := by
    rw [← List.reverse_append, ← h.split, hds]
    simp
  have hall : ∀ z ∈ (b :: breaks).reverse, isBreak z = true := fun z hz =>
    h.breaks z (List.mem_reverse.1 hz)
  cases hcases : (b :: breaks).reverse with
  | nil => simp at hcases
  | cons z rest =>
      rw [hcases] at hreverse hall
      obtain ⟨hz, hbehind⟩ := List.cons.inj hreverse
      obtain rfl := eq_nil_of_append_eq_cons (List.forall_mem_cons.1 hall).2 hy hbehind
      have hbreaks : b :: breaks = [z] := by rw [← List.reverse_reverse (b :: breaks), hcases]; rfl
      obtain ⟨hb, hnone⟩ := List.cons.inj hbreaks
      have hcore : core.reverse = y :: before.reverse := hbehind.symm
      refine ⟨?_, hb.trans hz.symm, hnone⟩
      rw [← List.reverse_reverse core, hcore]
      simp

/-- With the breaks that are kept the text is as it was. -/
theorem Parts.text_eq {cs core first more : List Char} (hne : cs ≠ [])
    (h : Parts (asLines cs) core first more) :
    core ++ (chompingOf cs).tail first more = cs := by
  obtain ⟨before, x, rfl⟩ : ∃ before x, cs = before ++ [x] :=
    ⟨cs.dropLast, cs.getLast hne, (List.dropLast_concat_getLast hne).symm⟩
  unfold asLines at h
  rw [List.getLast?_concat] at h
  unfold chompingOf
  rw [List.reverse_concat]
  cases hx : isBreak x with
  | false =>
      have hlines : Parts (before ++ [x, '\n']) core first more := by simpa [hx] using h
      have hcore : core = before ++ [x] := by
        generalize hds : before ++ [x, '\n'] = ds at hlines
        cases hlines with
        | empty hbreaks =>
            have := hbreaks x (by simp [← hds])
            rw [hx] at this
            cases this
        | lines hends => exact (hends.single hds.symm hx).1
      rw [hcore]
      cases before.reverse <;> simp [hx, Chomping.tail]
  | true =>
      have hparts : Parts (before ++ [x]) core first more := by simpa [hx] using h
      have hkeep : core ++ Chomping.keep.tail first more = before ++ [x] := by
        generalize before ++ [x] = ds at hparts
        cases hparts with
        | empty hbreaks => rfl
        | lines hends => rw [hends.split]; rfl
      rcases List.eq_nil_or_concat before with rfl | ⟨before, y, rfl⟩
      · simpa [hx] using hkeep
      · cases hy : isBreak y with
        | true => simpa [hx, hy] using hkeep
        | false =>
            have hds : before.concat y ++ [x] = before ++ [y, x] := by simp
            rw [hds] at hparts ⊢
            generalize hds' : before ++ [y, x] = ds at hparts
            cases hparts with
            | empty hbreaks =>
                have := hbreaks y (by simp [← hds'])
                rw [hy] at this
                cases this
            | lines hends =>
                obtain ⟨rfl, rfl, rfl⟩ := hends.single hds'.symm hy
                simp [hx, hy, Chomping.tail, ← hds']

/-! ## Whole blocks -/

theorem readBlockHeader_eq (blank : Bool) (chomping : Chomping) {rest : List Char}
    (hrest : c.rest = (if blank then ['2'] else []) ++ chomping.mark ++ '\n' :: rest) :
    ∃ c', c'.rest = '\n' :: rest ∧
      readBlockHeader c = .ok (chomping, if blank then some 2 else none, c') := by
  have hdigit : hexValue '2' = 2 := by decide
  have hisDigit : Char.isDigit '2' = true := by decide
  have hnewline : Char.isDigit '\n' = false := by decide
  cases blank <;> cases chomping <;>
    simp only [Chomping.mark, if_true, Bool.false_eq_true, if_false, List.nil_append,
      List.append_nil, List.cons_append] at hrest
  case false.clip =>
    refine ⟨c, hrest, ?_⟩
    simp [readBlockHeader, isAt_eq hrest, peek?_eq hrest, hnewline, bind, Except.bind, pure,
      Except.pure]
  case false.strip | false.keep =>
    have hskip := rest_skip_cons hrest
    refine ⟨c.skip, hskip, ?_⟩
    simp [readBlockHeader, isAt_eq hrest, peek?_eq hskip, hnewline, bind, Except.bind, pure,
      Except.pure]
  case true.clip =>
    have hskip := rest_skip_cons hrest
    refine ⟨c.skip, hskip, ?_⟩
    simp [readBlockHeader, isAt_eq hrest, isAt_eq hskip, peek?_eq hrest, hisDigit, hdigit, bind,
      Except.bind, pure, Except.pure]
  case true.strip | true.keep =>
    have hskip := rest_skip_cons hrest
    refine ⟨c.skip.skip, rest_skip_cons hskip, ?_⟩
    simp [readBlockHeader, isAt_eq hrest, isAt_eq hskip, peek?_eq hrest, hisDigit, hdigit, bind,
      Except.bind, pure, Except.pure]

theorem skipLineEnd_eq {rest : List Char} (hrest : c.rest = '\n' :: rest) (problem : Problem) :
    ∃ c', c'.StandsAt 0 rest ∧ c.skipLineEnd problem = .ok c' := by
  have hspaces : c.skipWhile isSpace = c := skipWhile_eq_self (by rw [peek?_eq hrest]; rfl)
  have hcomment : c.skipComment = c := by simp [skipComment, isAt_eq hrest]
  have hbreak : c.isAtBreak = true := by simp [isAtBreak_eq hrest, isBreak]
  obtain ⟨c', htake, hc'⟩ := takeBreak_of_isPrintable hrest (by decide) (by decide)
  refine ⟨c', hc', ?_⟩
  simp [skipLineEnd, hspaces, hcomment, hbreak, skipBreak, htake]

/-- The parts of a block whose indentation is given by its marks. -/
theorem readBlock_fixed {ds : List Char} (hlines : AreLines ds) (hahead : TokenAhead rest)
    (hindent : column < indent)
    (hc : c.StandsAt 0 (literalBody indent true ds ++ (indentation column ++ rest))) :
    ∃ more₀ widest c₁ core first more c', Parts ds core first more ∧ c'.StandsAt column rest ∧
      readBlockBreaks (some indent) (c.left + 1) [] 0 c = .ok (more₀, widest, c₁) ∧
      readBlockLines true indent (c₁.left + 1) [] false [] more₀ c₁ =
        .ok (core.reverse, first, more, c') := by
  obtain ⟨breaks, next, rfl, hbreaks, hnext⟩ := exists_span isBreak ds
  have hall : ∀ b ∈ breaks, isPrintable b = true ∧ isBreak b = true := fun b hb =>
    ⟨hlines.printable b (List.mem_append_left _ hb), hbreaks b hb⟩
  rw [literalBody_breaks hbreaks, List.append_assoc] at hc
  have hleft : breaks.length < c.left + 1 := by
    rw [c.left_eq, hc.rest, List.length_append]
    omega
  cases next with
  | nil =>
      obtain ⟨widest, c₁, hc₁, hread⟩ :=
        readBlockBreaks_fixed hall (hahead.indentedTo (Nat.le_of_lt hindent)) hc [] 0 hleft
      refine ⟨breaks, widest, c₁, [], [], breaks, c₁, ?_, hc₁, hread, ?_⟩
      · rw [List.append_nil]
        exact .empty hbreaks
      · exact readBlockLines_stop (by rw [hc₁.column]; omega) [] [] breaks false _
  | cons y next =>
      have hy : isBreak y = false := by simpa using hnext
      rw [literalBody_start hy, List.append_assoc] at hc
      have hprintable := hlines.printable y (by simp)
      obtain ⟨widest, c₁, hc₁, hread⟩ :=
        readBlockBreaks_fixed hall (indentedTo_line hy hprintable) hc [] 0 hleft
      obtain ⟨core, b, tail, c₂, hends, hc₂, hread₂⟩ := readBlockLines_eq hlines.behind
        (List.cons_ne_nil _ _) hnext hahead hindent hc₁ [] [] breaks false (Nat.lt_succ_self _)
      refine ⟨breaks, widest, c₁, breaks ++ core, [b], tail, c₂, .lines (hends.append breaks), hc₂,
        hread, ?_⟩
      rw [hread₂]
      simp

/-- The parts of a block whose first line shows the indentation. -/
theorem readBlock_free {ds : List Char} (hlines : AreLines ds) (hne : ds ≠ [])
    (hblank : startsBlank ds = false) (hahead : TokenAhead rest) (hindent : column < indent)
    (hc : c.StandsAt 0 (literalBody indent true ds ++ (indentation column ++ rest))) :
    ∃ c₁ core first more c', Parts ds core first more ∧ c'.StandsAt column rest ∧
      readBlockBreaks none (c.left + 1) [] 0 c = .ok ([], indent, c₁) ∧
      readBlockLines true indent (c₁.left + 1) [] false [] [] c₁ =
        .ok (core.reverse, first, more, c') := by
  obtain ⟨x, ds, rfl⟩ := List.exists_cons_of_ne_nil hne
  have hx : x ≠ ' ' ∧ isBreak x = false := by simpa [startsBlank] using hblank
  have hspace : isSpace x = false := by
    cases hspace : isSpace x with
    | false => rfl
    | true => exact absurd (isSpace_of_isPrintable (hlines.printable x (by simp)) hspace) hx.1
  have hbody : literalBody indent false (x :: ds) = x :: literalBody indent false ds := by
    simp [literalBody, hx.2]
  rw [literalBody_start hx.2, List.append_assoc, hbody] at hc
  obtain ⟨c₁, hc₁, hread⟩ := readBlockBreaks_free hspace hx.2 hc c.left
  have hc₁' : c₁.StandsAt indent (literalBody indent false (x :: ds) ++
      (indentation column ++ rest)) := by rwa [hbody]
  obtain ⟨core, b, tail, c₂, hends, hc₂, hread₂⟩ := readBlockLines_eq hlines hne
    (by simpa using hx.2) hahead hindent hc₁' [] [] [] false (Nat.lt_succ_self _)
  refine ⟨c₁, core, [b], tail, c₂, .lines hends, hc₂, hread, ?_⟩
  rw [hread₂]
  simp

theorem areLines_asLines {cs : List Char} (h : ∀ x ∈ cs, isPrintable x = true) :
    AreLines (asLines cs) := by
  unfold asLines
  split
  · next hlast =>
    refine ⟨h, fun x hx => ?_⟩
    rw [Option.mem_def] at hx
    simpa [hx] using hlast
  · refine ⟨fun x hx => ?_, fun x hx => ?_⟩
    · rcases List.mem_append.1 hx with hx | hx
      · exact h x hx
      · rw [List.mem_singleton.1 hx]
        decide
    · obtain rfl : '\n' = x := by simpa using hx
      decide

theorem startsBlank_asLines {cs : List Char} (hne : cs ≠ []) :
    startsBlank (asLines cs) = startsBlank cs := by
  obtain ⟨x, cs, rfl⟩ := List.exists_cons_of_ne_nil hne
  unfold asLines
  split <;> rfl

theorem readBlock_literal {cs : List Char} (hne : cs ≠ [])
    (hprintable : ∀ x ∈ cs, isPrintable x = true) {parent : Nat}
    (hahead : TokenAhead rest) (hcolumn : column ≤ parent)
    (hrest : c.rest = '|' :: literalMarks cs ++
      '\n' :: (literalBody (parent + 2) true (asLines cs) ++ (indentation column ++ rest))) :
    ∃ c', c'.StandsAt column rest ∧
      readBlock true (some parent) c = .ok (String.ofList cs, c') := by
  have hlines := areLines_asLines hprintable
  have hlinesne : asLines cs ≠ [] := by
    unfold asLines
    split <;> simp [hne]
  have hskip := rest_skip_cons hrest
  rw [literalMarks_eq] at hskip
  obtain ⟨c₁, hc₁, hheader⟩ := readBlockHeader_eq (startsBlank cs) (chompingOf cs) hskip
  obtain ⟨c₂, hc₂, hlineEnd⟩ := skipLineEnd_eq hc₁ .badBlockHeader
  have hindent : column < parent + 2 := by omega
  have hblank := startsBlank_asLines hne
  have htext {core first more : List Char} (hparts : Parts (asLines cs) core first more) :
      String.ofList core ++ String.ofList ((chompingOf cs).tail first more) = String.ofList cs := by
    rw [← String.ofList_append, hparts.text_eq hne]
  rw [readBlock, hheader]
  cases hcases : startsBlank cs with
  | true =>
      obtain ⟨more₀, widest, c₃, core, first, more, c', hparts, hc', hbreaks, hread⟩ :=
        readBlock_fixed hlines hahead hindent hc₂
      refine ⟨c', hc', ?_⟩
      simp [hlineEnd, hbreaks, hread, bind, Except.bind, pure, Except.pure]
      exact htext hparts
  | false =>
      obtain ⟨c₃, core, first, more, c', hparts, hc', hbreaks, hread⟩ :=
        readBlock_free hlines hlinesne (hblank.trans hcases) hahead hindent hc₂
      refine ⟨c', hc', ?_⟩
      simp [hlineEnd, hbreaks, hread, bind, Except.bind, pure, Except.pure]
      exact htext hparts

end MetricCatalog.Yaml
