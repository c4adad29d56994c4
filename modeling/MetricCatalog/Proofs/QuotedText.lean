import MetricCatalog.Proofs.PlainText
/-!
# Reading quoted scalars

Between its quotes a text is read in runs of characters, each as it is spelled
there, and in gaps between the runs.  A gap is blanks or line breaks, never both,
because a text that has both next to each other is written with escapes.
-/

namespace MetricCatalog.Yaml

open Cursor

variable {c : Cursor} {quote : Char} {rest : List Char}

/-! ## Runs -/

/-- In these quotes the character is read from this spelling, whatever follows. -/
structure Spells (quote x : Char) (spelling : List Char) : Prop where
  ne : spelling ≠ []
  read : ∀ (c : Cursor) (rest taken : List Char) (fuel : Nat), c.rest = spelling ++ rest →
    ∃ c', c.Passes spelling c' ∧
      readQuotedRun quote (fuel + 1) taken c = readQuotedRun quote fuel (x :: taken) c'

/-- Where a run ends: at a blank, a line break or the closing quote. -/
def EndsQuotedRun (quote : Char) (rest : List Char) : Prop :=
  ∃ x more, rest = x :: more ∧
    ((isSpace x || isBreak x) = true ∨ x = quote ∧ (quote = '\'' → more.head? ≠ some '\''))

theorem readQuotedRun_stop (hends : EndsQuotedRun quote rest) (hrest : c.rest = rest)
    (taken : List Char) (fuel : Nat) :
    readQuotedRun quote (fuel + 1) taken c = .ok (taken.reverse, false, c) := by
  obtain ⟨x, more, rfl, hends⟩ := hends
  unfold readQuotedRun
  rw [hrest]
  rcases hends with hblank | ⟨rfl, hsingle⟩
  · simp [hblank]
  · by_cases hquote : x = '\''
    · simp [hquote, hsingle hquote]
    · simp [hquote]

theorem readQuotedRun_eq {spelling : Char → List Char} {run : List Char}
    (hrun : ∀ x ∈ run, Spells quote x (spelling x)) (hends : EndsQuotedRun quote rest)
    (taken : List Char) {fuel : Nat} (hrest : c.rest = run.flatMap spelling ++ rest)
    (hfuel : run.length < fuel) :
    ∃ c', c.Passes (run.flatMap spelling) c' ∧
      readQuotedRun quote fuel taken c = .ok (taken.reverse ++ run, false, c') := by
  induction run generalizing taken fuel c with
  | nil =>
      obtain ⟨fuel, rfl⟩ : ∃ n, fuel = n + 1 := ⟨fuel - 1, by simp at hfuel; omega⟩
      refine ⟨c, .refl c, ?_⟩
      rw [readQuotedRun_stop hends hrest, List.append_nil]
  | cons x run ih =>
      obtain ⟨fuel, rfl⟩ : ∃ n, fuel = n + 1 := ⟨fuel - 1, by simp at hfuel; omega⟩
      obtain ⟨hx, hrun⟩ := List.forall_mem_cons.1 hrun
      rw [List.flatMap_cons, List.append_assoc] at hrest
      obtain ⟨c₁, hpasses₁, hread₁⟩ := hx.read c _ taken fuel hrest
      obtain ⟨c₂, hpasses₂, hread₂⟩ := ih hrun (x :: taken) (hpasses₁.rest_eq hrest)
        (Nat.lt_of_succ_lt_succ hfuel)
      refine ⟨c₂, by rw [List.flatMap_cons]; exact hpasses₁.trans hpasses₂, ?_⟩
      rw [hread₁, hread₂]
      simp

theorem length_le_spelled {spelling : Char → List Char} {run : List Char}
    (hrun : ∀ x ∈ run, Spells quote x (spelling x)) :
    run.length ≤ (run.flatMap spelling).length := by
  induction run with
  | nil => exact Nat.le_refl 0
  | cons x run ih =>
      obtain ⟨hx, hrun⟩ := List.forall_mem_cons.1 hrun
      have hpos := List.length_pos_iff.2 hx.ne
      have hmore := ih hrun
      rw [List.flatMap_cons, List.length_append, List.length_cons]
      omega

/-! ## Texts -/

/-- How a text is written between quotes: runs with gaps between them, the lines
after the first at the indentation. -/
inductive Quoted (quote : Char) (spelling : Char → List Char) (indent : Nat) :
    List Char → List Char → Prop
  | run {run : List Char} (hrun : ∀ x ∈ run, Spells quote x (spelling x)) :
      Quoted quote spelling indent run (run.flatMap spelling)
  | blanks {run cs body : List Char} {count : Nat}
      (hrun : ∀ x ∈ run, Spells quote x (spelling x)) (hsolid : Solid body)
      (hmore : Quoted quote spelling indent cs body) :
      Quoted quote spelling indent (run ++ (indentation (count + 1) ++ cs))
        (run.flatMap spelling ++ (indentation (count + 1) ++ body))
  | breaks {run breaks cs body : List Char}
      (hrun : ∀ x ∈ run, Spells quote x (spelling x)) (hne : breaks ≠ [])
      (hbreaks : ∀ b ∈ breaks, isPrintable b = true ∧ isBreak b = true ∧ b ≠ '\n')
      (hsolid : Solid body) (hmore : Quoted quote spelling indent cs body) :
      Quoted quote spelling indent (run ++ (breaks ++ cs))
        (run.flatMap spelling ++ (breaks ++ (indentation indent ++ body)))

theorem foldBreaks_eq_self {breaks : List Char} (h : ∀ b ∈ breaks, b ≠ '\n') :
    foldBreaks breaks = breaks := by
  unfold foldBreaks
  split
  · exact absurd rfl (h '\n' List.mem_cons_self)
  · exact absurd rfl (h '\n' List.mem_cons_self)
  · rfl

/-- A quote character, which is neither blank nor a line break. -/
def IsQuote (quote : Char) : Prop := quote = '\'' ∨ quote = '"'

theorem IsQuote.solid (h : IsQuote quote) {body : List Char} (hbody : Solid body)
    (rest : List Char) : Solid (body ++ quote :: rest) := by
  cases body with
  | nil => obtain rfl | rfl := h <;> exact rfl
  | cons x body => exact hbody

/-- One run and the gap after it. -/
theorem readQuotedRest_step (hquote : IsQuote quote) {spelling : Char → List Char}
    {run gap : List Char} {b : Char} (text : List Char) (fuel : Nat)
    (hrun : ∀ x ∈ run, Spells quote x (spelling x)) (hb : (isSpace b || isBreak b) = true)
    (hrest : c.rest = run.flatMap spelling ++ (b :: gap)) (hcolumn : c.column ≠ 0) :
    ∃ c₁, c.Passes (run.flatMap spelling) c₁ ∧
      readQuotedRest quote (fuel + 1) text c = (readGap 0 c₁.left {} c₁).bind fun g =>
        readQuotedRest quote fuel (g.1.text.reverse ++ (run.reverse ++ text)) g.2 := by
  have hends : EndsQuotedRun quote (b :: gap) := ⟨b, gap, rfl, .inl hb⟩
  have hlength : run.length < c.left + 1 := by
    have hle := length_le_spelled hrun
    have : (run.flatMap spelling).length ≤ c.left := by simp [c.left_eq, hrest]
    omega
  obtain ⟨c₁, hpasses, hread⟩ := readQuotedRun_eq hrun hends [] hrest hlength
  have hrest₁ := hpasses.rest_eq hrest
  have hat : c₁.isAt quote = false := by
    rw [isAt_eq hrest₁]
    refine decide_eq_false fun h => ?_
    obtain rfl : b = quote := by simpa using h
    obtain rfl | rfl := hquote <;> simp [isSpace, isBreak] at hb
  have hend : c.isAtEnd = false := by simp [isAtEnd, hrest]
  refine ⟨c₁, hpasses, ?_⟩
  rw [readQuotedRest]
  simp [isAtAnyDocumentMark_of_column hcolumn, hend, hread, hat, bind, Except.bind]

/-- The last run, and the quote behind it. -/
theorem readQuotedRest_last {spelling : Char → List Char} {run : List Char} (text : List Char)
    (fuel : Nat) (hrun : ∀ x ∈ run, Spells quote x (spelling x))
    (hafter : quote = '\'' → rest.head? ≠ some '\'')
    (hrest : c.rest = run.flatMap spelling ++ quote :: rest) (hcolumn : c.column ≠ 0) :
    ∃ c', c'.rest = rest ∧
      readQuotedRest quote (fuel + 1) text c = .ok (run.reverse ++ text, c') := by
  have hlength : run.length < c.left + 1 := by
    have hle := length_le_spelled hrun
    have : (run.flatMap spelling).length ≤ c.left := by simp [c.left_eq, hrest]
    omega
  obtain ⟨c₁, hpasses, hread⟩ :=
    readQuotedRun_eq hrun ⟨quote, rest, rfl, .inr ⟨rfl, hafter⟩⟩ [] hrest hlength
  have hrest₁ : c₁.rest = [quote] ++ rest := hpasses.rest_eq hrest
  have hend : c.isAtEnd = false := by simp [isAtEnd, hrest]
  have hat : c₁.isAt quote = true := by simp [isAt_eq hrest₁]
  refine ⟨c₁.skip, rest_skip hrest₁, ?_⟩
  rw [readQuotedRest]
  simp [isAtAnyDocumentMark_of_column hcolumn, hend, hread, hat, bind, Except.bind, pure,
    Except.pure]

theorem Quoted.read (hquote : IsQuote quote) {spelling : Char → List Char} {indent : Nat}
    (hindent : indent ≠ 0) {cs body : List Char} (h : Quoted quote spelling indent cs body)
    (hafter : quote = '\'' → rest.head? ≠ some '\'') (text : List Char) {fuel : Nat}
    (hrest : c.rest = body ++ quote :: rest) (hcolumn : c.column ≠ 0) (hfuel : c.left < fuel) :
    ∃ c', c'.rest = rest ∧
      readQuotedRest quote fuel text c = .ok (cs.reverse ++ text, c') := by
  -- The column is never 0, where a document mark might stand: each line after the
  -- first begins at the indentation.
  induction h generalizing c text fuel with
  | run hrun =>
      obtain ⟨fuel, rfl⟩ : ∃ n, fuel = n + 1 := ⟨fuel - 1, by omega⟩
      exact readQuotedRest_last text fuel hrun hafter hrest hcolumn
  | @blanks run cs body count hrun hsolid hmore ih =>
      obtain ⟨fuel, rfl⟩ : ∃ n, fuel = n + 1 := ⟨fuel - 1, by omega⟩
      rw [List.append_assoc, List.append_assoc] at hrest
      obtain ⟨c₁, hpasses, hstep⟩ := readQuotedRest_step hquote text fuel hrun
        (by decide : (isSpace ' ' || isBreak ' ') = true) hrest hcolumn
      have hrest₁ := hpasses.rest_eq hrest
      have hleft₁ : count + 1 ≤ c₁.left := by simp [c₁.left_eq, hrest₁, indentation]
      obtain ⟨c₂, hpasses₂, hblanks⟩ := readGap_blanks 0 [] hrest₁ hleft₁
      have hrest₂ := hpasses₂.rest_eq hrest₁
      have hsolid₂ := hquote.solid hsolid rest
      rw [List.append_nil, readGap_stop (not_isAtSpace hsolid₂ hrest₂)
        (not_isAtBreak hsolid₂ hrest₂)] at hblanks
      have hcolumn₂ : c₂.column ≠ 0 := by
        rw [hpasses₂.column, hpasses.column]
        omega
      have hfuel₂ : c₂.left < fuel := by
        have := hpasses.left
        have := hpasses₂.left
        simp only [indentation, List.length_replicate] at this
        omega
      obtain ⟨c', hrest', hread⟩ := ih _ hrest₂ hcolumn₂ hfuel₂
      refine ⟨c', hrest', ?_⟩
      rw [hstep, hblanks]
      refine hread.trans ?_
      simp [Gap.text, indentation]
  | @breaks run breaks cs body hrun hne hbreaks hsolid hmore ih =>
      obtain ⟨fuel, rfl⟩ : ∃ n, fuel = n + 1 := ⟨fuel - 1, by omega⟩
      rw [List.append_assoc, List.append_assoc, List.append_assoc] at hrest
      obtain ⟨b, breaks, rfl⟩ := List.exists_cons_of_ne_nil hne
      obtain ⟨c₁, hpasses, hstep⟩ := readQuotedRest_step hquote text fuel hrun
        (by simp [hbreaks b List.mem_cons_self] : (isSpace b || isBreak b) = true) hrest hcolumn
      have hrest₁ := hpasses.rest_eq hrest
      have hsolid₂ := hquote.solid hsolid rest
      obtain ⟨c₂, hstands, hgap⟩ := readGap_lines 0
        (fun b hb => ⟨(hbreaks b hb).1, (hbreaks b hb).2.1⟩) hne hsolid₂ hrest₁
      have hcolumn₂ : c₂.column ≠ 0 := by rwa [hstands.column]
      have hfuel₂ : c₂.left < fuel := by
        have := hpasses.left
        rw [c₁.left_eq, hrest₁] at this
        simp only [List.length_append, List.length_cons, ← hstands.rest, ← c₂.left_eq] at this
        omega
      obtain ⟨c', hrest', hread⟩ := ih _ hstands.rest hcolumn₂ hfuel₂
      refine ⟨c', hrest', ?_⟩
      rw [hstep, hgap]
      refine hread.trans ?_
      simp [Gap.text, foldBreaks_eq_self fun b hb => (hbreaks b hb).2.2]

end MetricCatalog.Yaml
