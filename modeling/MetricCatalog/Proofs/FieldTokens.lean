import MetricCatalog.Proofs.LayoutSteps
/-!
# The tokens of a field

The name of a field opens a block, unless it is one of the block's own fields.
After its colon the value is read: a scalar on its line, or nothing up to the next
line.
-/

namespace MetricCatalog.Yaml

open Cursor

variable {c : Cursor} {rest : List Char}

namespace Layout

variable {l : Layout} {toks ts : List Token} {bs : List Nat} {column : Nat}

/-! ## Plain scalars -/

/-- A character at which a plain scalar starts. -/
structure StartsPlain (x : Char) (next : Option Char) : Prop where
  marks : x ∉ "#,[]\x7b\x7d&*!|>'\"%@".toList ∧ x.toNat ≠ 0x60
  signs : ¬(x ∈ "?:-".toList ∧ endsWord next = true)
  solid : endsWord (some x) = false

theorem startsPlain_eq {x : Char} {next : Option Char} (hx : StartsPlain x next) :
    startsPlain false x next = true := by
  unfold startsPlain
  by_cases hsign : x ∈ "?:-".toList
  · have hnext : endsWord next = false := by
      cases hend : endsWord next with
      | false => rfl
      | true => exact absurd ⟨hsign, hend⟩ hx.signs
    have hspace : next.any isSpace = false := by
      cases next with
      | none => rfl
      | some y =>
          simp only [endsWord, Bool.or_eq_false_iff] at hnext
          exact hnext.1.1
    have hx : x = '?' ∨ x = ':' ∨ x = '-' := by simpa using hsign
    rcases hx with rfl | rfl | rfl <;> simp [hnext, hspace]
  · have hmark : "-?:,[]\x7b\x7d#&*!|>'\"%@".toList.contains x = false := by
      rw [← Bool.not_eq_true, List.contains_iff_mem]
      intro hmem
      have hmarks := hx.marks.1
      simp at hmem hmarks hsign
      simp_all
    rw [hx.solid, hmark, beq_eq_false_iff_ne.2 hx.marks.2]
    rfl

theorem readToken_plain {x : Char} {next : Option Char} (hx : StartsPlain x next)
    (hnext : l.cursor.next? = next) (hflow : l.outerKeyStarts = [])
    (hmark : l.cursor.isAtAnyDocumentMark = false) : l.readToken x = l.readPlainScalar := by
  have hinFlow : l.inFlow = false := by simp [inFlow, hflow]
  have hne (y : Char) (hy : y ∈ "#,[]\x7b\x7d&*!|>'\"%@".toList) : x ≠ y := by
    rintro rfl
    exact hx.marks.1 hy
  have hsign (y : Char) (hy : y ∈ "?:-".toList) : ¬(x = y ∧ endsWord next = true) := by
    rintro ⟨rfl, hend⟩
    exact hx.signs ⟨hy, hend⟩
  have hdash := hsign '-' (by decide)
  have hquestion := hsign '?' (by decide)
  have hcolon := hsign ':' (by decide)
  obtain ⟨hmark₁, hmark₂⟩ := Bool.or_eq_false_iff.1 hmark
  have hstarts := startsPlain_eq hx
  unfold readToken
  dsimp only
  rw [hnext, hmark₁, hmark₂, hinFlow]
  simp only [hne '%' (by decide), decide_false, Bool.and_false, Bool.false_eq_true, if_false]
  split
  case h_11 =>
    simp only [Bool.false_or, Bool.and_eq_true, decide_eq_true_eq, hdash, hquestion, hcolon,
      if_false, hne '|' (by decide), hne '>' (by decide), false_and, Bool.not_false, hstarts,
      if_true]
  all_goals exact absurd rfl (hne _ (by decide))

/-! ## Names -/

/-- The colon of a field comes next, and its name has begun a key. -/
structure AtColon (ts : List Token) (bs : List Nat) (column : Nat) (name : String)
    (rest : List Char) (l : Layout) : Prop where
  rest : l.cursor.rest = ':' :: rest
  behind : column < l.cursor.column
  holds : l.Holds (.scalar .plain name :: ts) bs
  key : ∃ k, l.keyStart = some k ∧ k.position = ts.length ∧ k.start.column = column ∧
    KeyStart.isStale l.cursor k = false

theorem startsPlain_of_isLetter {x : Char} (h : isLetter x = true) (next : Option Char) :
    StartsPlain x next := by
  have hnot {marks : List Char} (hall : ∀ y ∈ marks, isLetter y = false) : x ∉ marks := by
    intro hmem
    rw [hall x hmem] at h
    cases h
  refine ⟨⟨hnot (by decide), fun htick => ?_⟩, fun hsign => hnot (by decide) hsign.1, ?_⟩
  · obtain rfl : x = Char.ofNat 0x60 := by rw [← htick, Char.ofNat_toNat]
    exact absurd h (by decide)
  · simp [endsWord, isSpace_of_isLetter h, isBreak_of_isLetter h,
      ne_of_isLetter h (by decide : isLetter '\x00' = false)]

/-- Adding a token after the others. -/
theorem Holds.add (h : l.Holds ts bs) (token : Token) (cursor : Cursor) :
    (l.add token cursor).Holds (token :: ts) bs where
  tokens := by simp [Layout.add, insert, h.tokens]
  blocks := h.blocks
  count := by simp [Layout.add, insert, h.count]
  flow := h.flow

theorem Holds.inFlow (h : l.Holds ts bs) : l.inFlow = false := by simp [Layout.inFlow, h.flow]

theorem readPlainScalar_eq {l₁ : Layout} {text : String} {overBreak : Bool}
    (hmark : l.markKeyStart = .ok l₁)
    (hread : readPlain l₁.inFlow (l₁.blocks.head?.elim 0 (· + 1)) l₁.cursor =
      .ok (text, overBreak, c)) :
    l.readPlainScalar = .ok { l₁.add (.scalar .plain text) c with keyAllowed := overBreak } := by
  rw [readPlainScalar, hmark]
  simp only [bind, Except.bind, hread]
  rfl

/-- A key may begin here. -/
def keyed (l : Layout) : Layout :=
  { l with
    keyStart := some {
      required := !l.inFlow && l.blocks.head? = some l.cursor.column
      position := l.count
      start := l.cursor } }

theorem Ready.markKeyStart (h : l.Ready ts bs column rest) : l.markKeyStart = .ok l.keyed := by
  simp [Layout.markKeyStart, h.allowed, h.key.dropKeyStart_eq, bind, Except.bind, pure, Except.pure,
    keyed]

theorem Holds.keyed (h : l.Holds ts bs) : l.keyed.Holds ts bs :=
  ⟨h.tokens, h.blocks, h.count, h.flow⟩

theorem reads_name {x : Char} {name : List Char} (hname : IsName (x :: name))
    (hrest : endsWord rest.head? = true) :
    Reads x (Ready ts bs column (x :: name ++ ':' :: rest))
      (AtColon ts bs column (String.ofList (x :: name)) rest) := by
  intro l h
  have hletter := hname.letters x List.mem_cons_self
  have htoken := readToken_plain (startsPlain_of_isLetter hletter _) rfl h.holds.flow
    (hname.not_isAtAnyDocumentMark h.cursor.rest)
  obtain ⟨c, hpasses, hread⟩ :=
    readPlain_key hname (l.blocks.head?.elim 0 (· + 1)) h.cursor.rest hrest
  have hscalar := readPlainScalar_eq h.markKeyStart (c := c) (by
    rw [h.holds.keyed.inFlow]
    exact hread)
  have hheld := h.holds.keyed.add (.scalar .plain (String.ofList (x :: name))) c
  refine ⟨_, htoken.trans hscalar, ?_, {
    rest := hpasses.rest_eq h.cursor.rest
    behind := ?_
    holds := ⟨hheld.tokens, hheld.blocks, hheld.count, hheld.flow⟩
    key := ⟨_, rfl, h.holds.count, h.cursor.column, ?_⟩ }⟩
  · show c.left < l.cursor.left
    rw [hpasses.left]
    simp
  · show column < c.column
    rw [hpasses.column, h.cursor.column]
    simp
  · show KeyStart.isStale c _ = false
    have hshort := hname.short
    simp [KeyStart.isStale, hpasses.line, hpasses.offset]
    omega

/-! ## The colon -/

/-- Tokens and blocks when a key has been found at a column: a block is opened
there unless one is open. -/
def opening (column : Nat) (ts : List Token) (bs : List Nat) : List Token × List Nat :=
  if bs.head?.any (column ≤ ·) then (ts, bs) else (.blockMappingStart :: ts, column :: bs)

theorem opening_self (column : Nat) (ts : List Token) (bs : List Nat) :
    opening column ts (column :: bs) = (ts, column :: bs) := by
  simp [opening]

theorem opening_of_lt (h : ∀ n ∈ bs.head?, n < column) (ts : List Token) :
    opening column ts bs = (.blockMappingStart :: ts, column :: bs) := by
  rw [opening, if_neg]
  cases hhead : bs.head? with
  | none => simp
  | some n => simpa using h n hhead

theorem head_opening (h : ∀ n ∈ bs.head?, n ≤ column) (ts : List Token) :
    ∃ bs', (opening column ts bs).2 = column :: bs' := by
  unfold opening
  split
  · next hany =>
    cases bs with
    | nil => simp at hany
    | cons n bs =>
        have hn : column ≤ n := by simpa using hany
        obtain rfl : n = column := Nat.le_antisymm (h n rfl) hn
        exact ⟨bs, rfl⟩
  · exact ⟨bs, rfl⟩

theorem not_isAtAnyDocumentMark {x : Char} (hrest : c.rest = x :: rest) (hdash : x ≠ '-')
    (hdot : x ≠ '.') : c.isAtAnyDocumentMark = false := by
  simp [isAtAnyDocumentMark, isAtDocumentMark, hrest, hdash, hdot]

theorem readToken_colon (hrest : l.cursor.rest = ':' :: rest) (hend : endsWord rest.head? = true) :
    l.readToken ':' = l.readValueMark := by
  have hnext : l.cursor.next? = rest.head? := by rw [next?, hrest, List.tail_cons]
  obtain ⟨hmark₁, hmark₂⟩ :=
    Bool.or_eq_false_iff.1 (not_isAtAnyDocumentMark hrest (by decide) (by decide))
  simp [readToken, hnext, hend, hmark₁, hmark₂]

/-- The key goes before the name that was read. -/
theorem AtColon.readValueMark_eq {name : String} (h : l.AtColon ts bs column name rest) :
    ∃ l', l.readValueMark = .ok l' ∧ l'.cursor = l.cursor.skip ∧
      l'.Holds (.value :: .scalar .plain name :: .key :: (opening column ts bs).1)
        (opening column ts bs).2 ∧ l'.keyStart = none ∧ l'.keyAllowed = false := by
  obtain ⟨k, hkey, hposition, hcolumn, -⟩ := h.key
  have hinsert : (l.insert k.position .key).Holds (.scalar .plain name :: .key :: ts) bs := by
    refine ⟨?_, h.holds.blocks, ?_, h.holds.flow⟩
    · simp [insert, h.holds.tokens, h.holds.count, hposition]
    · simp [insert, h.holds.count]
  have hopen : ((l.insert k.position .key).openBlock k.start.column k.position
      .blockMappingStart).Holds (.scalar .plain name :: .key :: (opening column ts bs).1)
      (opening column ts bs).2 := by
    rw [openBlock, hinsert.inFlow, hinsert.blocks, hcolumn, opening]
    split
    · next hany => rw [if_pos (by simpa using hany)]; exact hinsert
    · next hany =>
      rw [if_neg (by simpa using hany)]
      generalize l.insert k.position .key = l' at hinsert
      refine ⟨?_, rfl, ?_, hinsert.flow⟩
      · have htake : ts.length + 1 + 1 - ts.length = 2 := by omega
        simp [insert, hinsert.tokens, hinsert.count, hposition, htake]
      · simp [insert, hinsert.count]
  have hcursor : ((l.insert k.position .key).openBlock k.start.column k.position
      .blockMappingStart).cursor = l.cursor := by
    rw [openBlock]
    split <;> rfl
  refine ⟨_, by simp only [readValueMark, hkey, pure, Except.pure]; rfl, ?_, ?_, rfl, rfl⟩
  · show Cursor.skip _ = _
    rw [hcursor]
  · have hadd := hopen.add .value l.cursor.skip
    rw [← hcursor] at hadd
    exact ⟨hadd.tokens, hadd.blocks, hadd.count, hadd.flow⟩

theorem reaches_value {name : String} (hhead : ∀ n ∈ bs.head?, n ≤ column)
    (hend : endsWord rest.head? = true) :
    Reaches (AtColon ts bs column name rest)
      (Inside (.value :: .scalar .plain name :: .key :: (opening column ts bs).1)
        (opening column ts bs).2 false rest) := by
  intro l h
  obtain ⟨l', hread, hcursor, hholds, hkey, hallowed⟩ := h.readValueMark_eq
  have hskip : l.cursor.skip.rest = rest := rest_skip_cons h.rest
  have hinner : ∀ n ∈ bs.head?, n < l.cursor.column := fun n hn =>
    Nat.lt_of_le_of_lt (hhead n hn) h.behind
  have hstale : l.settled.dropStaleKeyStarts = .ok l := by
    obtain ⟨k, hkey, -, -, hstale⟩ := h.key
    have hany : l.keyStart.any (fun k => KeyStart.isStale l.cursor k && k.required) = false := by
      simp [hkey, hstale]
    have hfresh : l.fresh = l := by
      unfold Layout.fresh
      rw [hkey, Option.filter_some, hstale, Bool.not_false, if_pos rfl, ← hkey]
    rw [settled_eq_self h.rest (tokenAhead_cons (by decide) _),
      dropStaleKeyStarts_eq h.holds.flow hany, hfresh]
  have hpeek : l.cursor.peek? = some ':' := by
    rw [peek?_eq h.rest]
    rfl
  refine ⟨l', ⟨?_, hholds, ?_, hkey, hallowed⟩, leads_of_step hstale hpeek ?_ ?_⟩
  · rw [hcursor, hskip]
  · obtain ⟨bs', hbs'⟩ := head_opening hhead ts
    rw [hbs', hcursor]
    rintro n ⟨⟩
    exact Nat.lt_succ_of_lt h.behind
  · rw [h.holds.closeBlocks_eq_self hinner, readToken_colon h.rest hend, hread]
  · rw [hcursor]
    exact left_skip_lt h.rest

/-- The name and the colon of a field. -/
theorem reaches_field (ts : List Token) {name : List Char} (hname : IsName name)
    (hhead : ∀ n ∈ bs.head?, n ≤ column) (hend : endsWord rest.head? = true) :
    Reaches (Ahead ts bs column (name ++ ':' :: rest))
      (Inside (.value :: .scalar .plain (String.ofList name) :: .key :: (opening column ts bs).1)
        (opening column ts bs).2 false rest) := by
  obtain ⟨x, name, rfl⟩ := List.exists_cons_of_ne_nil hname.ne
  refine (reaches_read ?_).trans (reaches_value hhead hend)
  rw [closing_of_le hhead]
  exact reads_name hname hend

end Layout

end MetricCatalog.Yaml
