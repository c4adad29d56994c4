import MetricCatalog.Proofs.FieldTokens
/-!
# The tokens of a value

After the colon of a field a text is read in its style, a word as it stands, and
an empty collection by its two signs.  Each leaves reading at the token of the next
line.
-/

namespace MetricCatalog.Yaml

open Cursor

variable {c : Cursor} {rest : List Char}

namespace Layout

variable {l : Layout} {ts : List Token} {bs : List Nat} {n column : Nat}

/-! ## Plain scalars -/

theorem Inside.markKeyStart (h : l.Inside ts bs false rest) : l.markKeyStart = .ok l := by
  simp [Layout.markKeyStart, h.allowed, pure, Except.pure]

theorem Inside.column_ne (h : l.Inside ts (n :: bs) false rest) : l.cursor.column ≠ 0 :=
  Nat.ne_of_gt (Nat.lt_of_le_of_lt (Nat.zero_le n) (h.inner n rfl))

theorem reads_plain {x : Char} {cs : List Char} (hline : IsLine (x :: cs))
    (hstarts : StartsPlain x (cs ++ ['\n']).head?) (hahead : TokenAhead rest)
    (hcolumn : column ≤ n) :
    Reads x (Inside ts (n :: bs) false (x :: cs ++ ('\n' :: indentation column ++ rest)))
      (Ahead (.scalar .plain (String.ofList (x :: cs)) :: ts) (n :: bs) column rest) := by
  intro l h
  have hnext : l.cursor.next? = (cs ++ ['\n']).head? := by
    rw [next?, h.rest]
    cases cs <;> rfl
  have htoken := readToken_plain hstarts hnext h.holds.flow
    (isAtAnyDocumentMark_of_column h.column_ne)
  obtain ⟨c, hcursor, hread⟩ := readPlain_line hline hahead (Nat.lt_succ_of_le hcolumn) h.rest
    (h.inner n rfl)
  have hscalar := readPlainScalar_eq h.markKeyStart (by
    rw [h.holds.inFlow, h.holds.blocks]
    exact hread)
  have hheld := h.holds.add (.scalar .plain (String.ofList (x :: cs))) c
  refine ⟨_, htoken.trans hscalar, ?_, {
    cursor := hcursor
    token := hahead
    holds := ⟨_, _, ⟨hheld.tokens, hheld.blocks, hheld.count, hheld.flow⟩, rfl⟩
    key := h.keyFree
    allowed := rfl }⟩
  show c.left < l.cursor.left
  rw [c.left_eq, l.cursor.left_eq, hcursor.rest, h.rest]
  simp [indentation]
  omega

theorem startsPlain_of_allowsPlain {x : Char} {cs : List Char} (h : allowsPlain (x :: cs) = true) :
    StartsPlain x (cs ++ ['\n']).head? := by
  have hline := isLine_of_allowsPlain h
  simp only [allowsPlain, Bool.not_eq_true', Bool.or_eq_false_iff] at h
  obtain ⟨hmarks, hsigns⟩ := startsWithIndicator_cons h.1.2
  refine ⟨hmarks, ?_, ?_⟩
  · rintro ⟨hx, hend⟩
    cases cs with
    | nil => exact hsigns ⟨hx, rfl⟩
    | cons y cs => exact hsigns ⟨hx, hend⟩
  · have hprintable := hline.printable x List.mem_cons_self
    have hspace : isSpace x = false := by
      rw [← Bool.not_eq_true]
      intro hspace
      exact hline.head (congrArg some (isSpace_of_isPrintable hprintable hspace))
    have hzero : x ≠ '\x00' := by
      rintro rfl
      exact absurd hprintable (by decide)
    simp [endsWord, hspace, hline.unbroken x List.mem_cons_self, hzero]

theorem StartsPlain.startsToken {x : Char} {next : Option Char} (h : StartsPlain x next)
    (hprintable : isPrintable x = true) : StartsToken x := by
  have hsolid := h.solid
  simp only [endsWord, Bool.or_eq_false_iff] at hsolid
  refine ⟨hsolid.1.1, hsolid.1.2, ?_, ?_⟩
  · rintro rfl
    exact h.marks.1 (by decide)
  · rintro rfl
    exact absurd hprintable (by decide)

theorem reaches_plain {s : String} (hline : IsLine s.toList)
    (hstarts : ∀ x more, s.toList = x :: more → StartsPlain x (more ++ ['\n']).head?)
    (hahead : TokenAhead rest) (hcolumn : column ≤ n) :
    Reaches (Inside ts (n :: bs) false (' ' :: s.toList ++ ('\n' :: indentation column ++ rest)))
      (Ahead (.scalar .plain s :: ts) (n :: bs) column rest) := by
  obtain ⟨x, cs, hcs⟩ := List.exists_cons_of_ne_nil hline.ne
  have hs : s = String.ofList (x :: cs) := by rw [← hcs, String.ofList_toList]
  have hstarts := hstarts x cs hcs
  rw [hcs] at hline ⊢
  rw [hs]
  have htoken := hstarts.startsToken (hline.printable x List.mem_cons_self)
  exact (reaches_inside (tokenAhead_cons htoken _)).trans
    (reaches_readInside htoken (reads_plain hline hstarts hahead hcolumn))

/-! ## Quoted scalars -/

theorem readToken_quote {quote : Char} (hquote : IsQuote quote)
    (hcolumn : l.cursor.column ≠ 0) :
    l.readToken quote = l.readInline fun c => do
      let (text, c) ← readQuoted quote c
      return (.scalar (if quote = '\'' then .singleQuoted else .doubleQuoted) text, c) := by
  obtain ⟨hmark₁, hmark₂⟩ := Bool.or_eq_false_iff.1 (isAtAnyDocumentMark_of_column hcolumn)
  obtain rfl | rfl := hquote <;> simp [readToken, hmark₁, hmark₂, hcolumn]

theorem reaches_quoted {quote : Char} (hquote : IsQuote quote) {style : Style}
    (hstyle : style = if quote = '\'' then .singleQuoted else .doubleQuoted)
    {text : String} {body : List Char}
    (hread : ∀ c : Cursor, c.rest = quote :: body ++ quote :: ('\n' :: indentation column ++ rest) →
      ∃ c', c'.rest = '\n' :: indentation column ++ rest ∧ readQuoted quote c = .ok (text, c'))
    (hahead : TokenAhead rest) :
    Reaches (Inside ts (n :: bs) false
        (' ' :: quote :: body ++ quote :: ('\n' :: indentation column ++ rest)))
      (Ahead (.scalar style text :: ts) (n :: bs) column rest) := by
  have htoken : StartsToken quote := by
    obtain rfl | rfl := hquote <;> decide
  refine (reaches_inside (tokenAhead_cons htoken _)).trans (Reaches.trans (reaches_readInside htoken
    (Q := fun l => l.Holds (.scalar style text :: ts) (n :: bs) ∧ l.KeyFree ∧
      l.cursor.rest = '\n' :: (indentation column ++ rest)) ?_) ?_)
  · intro l h
    obtain ⟨c, hc, hread⟩ := hread l.cursor h.rest
    have hheld := h.holds.add (.scalar style text) c
    refine ⟨{ l.add (.scalar style text) c with keyAllowed := false }, ?_, ?_,
      ⟨hheld.tokens, hheld.blocks, hheld.count, hheld.flow⟩, h.keyFree, hc⟩
    · rw [readToken_quote hquote h.column_ne, readInline, h.markKeyStart, ← hstyle]
      simp only [bind, Except.bind, hread, pure, Except.pure]
    · show c.left < l.cursor.left
      rw [c.left_eq, l.cursor.left_eq, hc, h.rest]
      simp
      omega
  · rintro l ⟨hholds, hkey, hrest⟩
    exact ahead_of_line hahead hrest hholds hkey

/-! ## Literal blocks -/

theorem literalBody_newline (indent : Nat) (cs : List Char) (atStart : Bool) :
    literalBody indent atStart (cs ++ ['\n']) = literalBody indent atStart cs ++ ['\n'] := by
  induction cs generalizing atStart with
  | nil => rfl
  | cons x cs ih =>
      rw [List.cons_append, literalBody, literalBody, ih, ih]
      split <;> simp

theorem readToken_literal (hcolumn : l.cursor.column ≠ 0) (hflow : l.outerKeyStarts = []) :
    l.readToken '|' = l.readBlockScalar .literal := by
  obtain ⟨hmark₁, hmark₂⟩ := Bool.or_eq_false_iff.1 (isAtAnyDocumentMark_of_column hcolumn)
  simp [readToken, hmark₁, hmark₂, hcolumn, inFlow, hflow]

theorem reaches_literal {s : String} (hne : s.toList ≠ [])
    (hprintable : ∀ x ∈ s.toList, isPrintable x = true) (hahead : TokenAhead rest)
    (hcolumn : column ≤ n) :
    Reaches (Inside ts (n :: bs) false (' ' :: '|' :: literalMarks s.toList ++
        '\n' :: (literalBody (n + 2) true (asLines s.toList) ++ (indentation column ++ rest))))
      (Ahead (.scalar .literal s :: ts) (n :: bs) column rest) := by
  have htoken : StartsToken '|' := by decide
  refine (reaches_inside (tokenAhead_cons htoken _)).trans (reaches_readInside htoken ?_)
  intro l h
  obtain ⟨c, hcursor, hread⟩ := readBlock_literal hne hprintable hahead hcolumn h.rest
  rw [String.ofList_toList] at hread
  have hheld := h.holds.add (.scalar .literal s) c
  refine ⟨{ l.add (.scalar .literal s) c with keyAllowed := true }, ?_, ?_, {
    cursor := hcursor
    token := hahead
    holds := ⟨_, _, ⟨hheld.tokens, hheld.blocks, hheld.count, hheld.flow⟩, rfl⟩
    key := h.keyFree
    allowed := rfl }⟩
  · have hblocks : l.blocks.head? = some n := by rw [h.holds.blocks]; rfl
    have hkey : { l with keyStart := none } = l := by rw [← h.key]
    rw [readToken_literal h.column_ne h.holds.flow, readBlockScalar,
      h.keyFree.dropKeyStart_eq, hkey]
    simp only [bind, Except.bind, hblocks, decide_true, hread]
    rfl
  · show c.left < l.cursor.left
    rw [c.left_eq, l.cursor.left_eq, hcursor.rest, h.rest]
    simp
    omega

/-! ## Texts -/

theorem styleOf_cases (cs : List Char) :
    (styleOf cs = .plain ∧ allowsPlain cs = true) ∨
      (styleOf cs = .singleQuoted ∧ cs.contains '\n' = false ∧ allowsSingleQuotes cs = true) ∨
      styleOf cs = .doubleQuoted ∨ (styleOf cs = .literal ∧ allowsLiteral cs = true) := by
  unfold styleOf
  split
  · split
    · next h => exact .inr (.inr (.inr ⟨rfl, h⟩))
    · exact .inr (.inr (.inl rfl))
  · next hnewline =>
    split
    · next h => exact .inl ⟨rfl, (Bool.and_eq_true _ _ ▸ h).2⟩
    · split
      · next h => exact .inr (.inl ⟨rfl, by simpa using hnewline, h⟩)
      · exact .inr (.inr (.inl rfl))

theorem reaches_text (ts : List Token) (bs : List Nat) (s : String) (hahead : TokenAhead rest)
    (hcolumn : column ≤ n) :
    Reaches
      (Inside ts (n :: bs) false (' ' :: writeScalar (n + 2) s ++ (indentation column ++ rest)))
      (Ahead (.scalar (styleOf s.toList) s :: ts) (n :: bs) column rest) := by
  have hquoted {quote : Char} {c c' : Cursor}
      (hread : readQuoted quote c = .ok (String.ofList s.toList, c')) :
      readQuoted quote c = .ok (s, c') := by rw [hread, String.ofList_toList]
  obtain ⟨hstyle, hallows⟩ | ⟨hstyle, hnewline, hallows⟩ | hstyle | ⟨hstyle, hallows⟩ :=
    styleOf_cases s.toList
  · have hwritten : ' ' :: writeScalar (n + 2) s ++ (indentation column ++ rest) =
        ' ' :: s.toList ++ ('\n' :: indentation column ++ rest) := by simp [writeScalar, hstyle]
    rw [hstyle, hwritten]
    exact reaches_plain (isLine_of_allowsPlain hallows)
      (fun x more hcs => startsPlain_of_allowsPlain (hcs ▸ hallows)) hahead hcolumn
  · have hwritten : ' ' :: writeScalar (n + 2) s ++ (indentation column ++ rest) =
        ' ' :: '\'' :: singleQuotedBody (n + 2) false s.toList ++
          '\'' :: ('\n' :: indentation column ++ rest) := by simp [writeScalar, hstyle]
    rw [hstyle, hwritten]
    refine reaches_quoted (.inl rfl) rfl (fun c hc => ?_) hahead
    obtain ⟨c', hc', hread⟩ := readQuoted_single (singleQuotable_of_allows hallows hnewline)
      (Nat.succ_ne_zero (n + 1)) hc (by simp)
    exact ⟨c', hc', hquoted hread⟩
  · have hwritten : ' ' :: writeScalar (n + 2) s ++ (indentation column ++ rest) =
        ' ' :: '"' :: s.toList.flatMap doubleQuotedChar ++
          '"' :: ('\n' :: indentation column ++ rest) := by simp [writeScalar, hstyle]
    rw [hstyle, hwritten]
    refine reaches_quoted (.inr rfl) rfl (fun c hc => ?_) hahead
    obtain ⟨c', hc', hread⟩ := readQuoted_double hc
    exact ⟨c', hc', hquoted hread⟩
  · have hne : s.toList ≠ [] := by
      rintro hnil
      simp [allowsLiteral, hnil] at hallows
    have hprintable : ∀ x ∈ s.toList, isPrintable x = true := by
      simp only [allowsLiteral, needsEscapes, Bool.not_eq_true', Bool.or_eq_false_iff,
        List.any_eq_false] at hallows
      exact fun x hx => by simpa using hallows.1.2.2 x hx
    have hwritten : ' ' :: writeScalar (n + 2) s ++ (indentation column ++ rest) =
        ' ' :: '|' :: literalMarks s.toList ++
          '\n' :: (literalBody (n + 2) true (asLines s.toList) ++
            (indentation column ++ rest)) := by
      by_cases hlast : s.toList.getLast?.any isBreak
      · simp [writeScalar, hstyle, hlast, asLines]
      · simp [writeScalar, hstyle, hlast, asLines, literalBody_newline]
    rw [hstyle, hwritten]
    exact reaches_literal hne hprintable hahead hcolumn

/-! ## Words -/

theorem reaches_word (ts : List Token) (bs : List Nat) {s : String} (hname : IsName s.toList)
    (hahead : TokenAhead rest)
    (hcolumn : column ≤ n) :
    Reaches (Inside ts (n :: bs) false
        (' ' :: s.toList ++ ('\n' :: indentation column ++ rest)))
      (Ahead (.scalar .plain s :: ts) (n :: bs) column rest) :=
  reaches_plain hname.isLine
    (fun x _ hcs => startsPlain_of_isLetter (hname.letters x (hcs ▸ List.mem_cons_self)) _)
    hahead hcolumn

end Layout

end MetricCatalog.Yaml
