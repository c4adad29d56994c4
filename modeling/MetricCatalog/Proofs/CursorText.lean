import MetricCatalog.Yaml.ScalarText
import MetricCatalog.Yaml.Scalar
/-!
# Reading along a written text

What is written is read piece by piece: a piece is passed over, and reading goes
on with the text behind it.  Within a line a cursor counts columns and bytes; a
line break and the indentation after it lead to the next token.
-/

namespace MetricCatalog.Yaml

/-! ## Characters -/

theorem isBreak_of_isPrintable {b : Char} (hp : isPrintable b = true) (hb : isBreak b = true) :
    b = '\n' ∨ b = '\u2028' ∨ b = '\u2029' := by
  simp only [isBreak, Bool.or_eq_true, decide_eq_true_eq, or_assoc] at hb
  rcases hb with rfl | rfl | rfl | rfl | rfl
  · exact .inl rfl
  · exact absurd hp (by decide)
  · exact absurd hp (by decide)
  · exact .inr (.inl rfl)
  · exact .inr (.inr rfl)

theorem isSpace_of_isPrintable {x : Char} (hp : isPrintable x = true) (hx : isSpace x = true) :
    x = ' ' := by
  simp only [isSpace, Bool.or_eq_true, decide_eq_true_eq] at hx
  rcases hx with rfl | rfl
  · rfl
  · exact absurd hp (by decide)

/-- A character that the next token may start with. -/
def StartsToken (x : Char) : Prop :=
  isSpace x = false ∧ isBreak x = false ∧ x ≠ '#' ∧ x ≠ '\uFEFF'

instance (x : Char) : Decidable (StartsToken x) := inferInstanceAs (Decidable (_ ∧ _))

/-- Neither blank nor line break comes next. -/
def Solid (rest : List Char) : Prop := rest.head?.any (fun x => isSpace x || isBreak x) = false

/-- A token comes next, or the end of the text. -/
def TokenAhead (rest : List Char) : Prop := ∀ x ∈ rest.head?, StartsToken x

theorem tokenAhead_nil : TokenAhead [] := fun _ h => nomatch h

theorem tokenAhead_cons {x : Char} (h : StartsToken x) (rest : List Char) :
    TokenAhead (x :: rest) := by
  rintro y ⟨⟩
  exact h

theorem TokenAhead.solid {rest : List Char} (h : TokenAhead rest) : Solid rest := by
  unfold Solid
  cases hhead : rest.head? with
  | none => rfl
  | some x => simp [(h x hhead).1, (h x hhead).2.1]

namespace Cursor

variable {c c' c'' : Cursor} {x : Char} {rest text more : List Char}

/-! ## What is at a cursor -/

theorem peek?_eq (h : c.rest = rest) : c.peek? = rest.head? := by rw [peek?, h]

theorem isAtBreak_eq (h : c.rest = rest) : c.isAtBreak = rest.head?.any isBreak := by
  rw [isAtBreak, peek?_eq h]

theorem isAtSpace_eq (h : c.rest = rest) : c.isAtSpace = rest.head?.any isSpace := by
  rw [isAtSpace, peek?_eq h]

theorem isAt_eq (h : c.rest = rest) : c.isAt x = decide (rest.head? = some x) := by
  rw [isAt, peek?_eq h]

theorem not_isAtSpace (h : Solid rest) (hrest : c.rest = rest) : c.isAtSpace = false := by
  rw [isAtSpace_eq hrest]
  cases hhead : rest.head? with
  | none => rfl
  | some x => simp_all [Solid]

theorem not_isAtBreak (h : Solid rest) (hrest : c.rest = rest) : c.isAtBreak = false := by
  rw [isAtBreak_eq hrest]
  cases hhead : rest.head? with
  | none => rfl
  | some x => simp_all [Solid]

theorem isAtAnyDocumentMark_of_column (h : c.column ≠ 0) : c.isAtAnyDocumentMark = false := by
  simp [isAtAnyDocumentMark, isAtDocumentMark, h]

/-! ## Within a line -/

theorem foldl_byteLength (text : List Char) (n : Nat) :
    text.foldl (fun n x => n + x.utf8Size) n = n + byteLength text := by
  unfold byteLength
  induction text generalizing n with
  | nil => rfl
  | cons x text ih => rw [List.foldl_cons, List.foldl_cons, ih, ih (0 + x.utf8Size)]; omega

theorem byteLength_append (text more : List Char) :
    byteLength (text ++ more) = byteLength text + byteLength more := by
  rw [byteLength, List.foldl_append, foldl_byteLength]
  rfl

/-- The second cursor is where the first one comes after a text. -/
structure Passes (c : Cursor) (text : List Char) (c' : Cursor) : Prop where
  rest : c.rest = text ++ c'.rest
  line : c'.line = c.line
  column : c'.column = c.column + text.length
  offset : c'.offset = c.offset + byteLength text

theorem Passes.refl (c : Cursor) : c.Passes [] c := ⟨rfl, rfl, rfl, rfl⟩

theorem Passes.trans (h : c.Passes text c') (h' : c'.Passes more c'') :
    c.Passes (text ++ more) c'' where
  rest := by rw [h.rest, h'.rest, List.append_assoc]
  line := h'.line.trans h.line
  column := by rw [h'.column, h.column, List.length_append, Nat.add_assoc]
  offset := by rw [h'.offset, h.offset, byteLength_append, Nat.add_assoc]

theorem skip_zero (c : Cursor) : c.skip 0 = c := rfl

theorem passes_skip (h : c.rest = text ++ rest) : c.Passes text (c.skip text.length) where
  rest := by simp [skip, h]
  line := rfl
  column := rfl
  offset := by simp [skip, h]

theorem rest_skip (h : c.rest = text ++ rest) : (c.skip text.length).rest = rest := by
  simp [skip, h]

theorem rest_skip_cons (h : c.rest = x :: rest) : c.skip.rest = rest := by
  simp [skip, h]

theorem left_skip_lt (h : c.rest = x :: rest) : c.skip.left < c.left := by
  rw [left_eq, left_eq, rest_skip_cons h, h]
  exact Nat.lt_succ_self _

theorem Passes.rest_eq (h : c.Passes text c') (hrest : c.rest = text ++ rest) :
    c'.rest = rest :=
  (List.append_cancel_left (h.rest.symm.trans hrest))

theorem Passes.left (h : c.Passes text c') : c.left = text.length + c'.left := by
  rw [c.left_eq, c'.left_eq, h.rest, List.length_append]

theorem takeWhile_eq {p : Char → Bool} (h : c.rest = text ++ rest) (htext : ∀ x ∈ text, p x)
    (hrest : rest.head?.any p = false) : c.takeWhile p = (text, c.skip text.length) := by
  have htaken : c.rest.takeWhile p = text := by
    rw [h, List.takeWhile_append_of_pos htext]
    cases rest with
    | nil => simp
    | cons x rest => rw [List.takeWhile_cons_of_neg (by simpa using hrest), List.append_nil]
  simp only [takeWhile, htaken]

theorem skipWhile_eq_self {p : Char → Bool} (h : c.peek?.any p = false) : c.skipWhile p = c := by
  have htaken : c.takeWhile p = ([], c.skip 0) := takeWhile_eq rfl (by simp) h
  rw [skipWhile, htaken]
  rfl

/-! ## From one line to the next -/

/-- A cursor is in this column with this text behind it. -/
structure StandsAt (c : Cursor) (column : Nat) (rest : List Char) : Prop where
  rest : c.rest = rest
  column : c.column = column

theorem rest_skip_indentation {n : Nat} (h : c.rest = indentation n ++ rest) :
    (c.skip n).rest = rest := by
  have hskip := rest_skip h
  rwa [indentation, List.length_replicate] at hskip

theorem StandsAt.skip_indentation {k n : Nat} (h : c.StandsAt k (indentation n ++ rest)) :
    (c.skip n).StandsAt (k + n) rest :=
  ⟨rest_skip_indentation h.rest, congrArg (· + n) h.column⟩

theorem takeBreak_of_isPrintable {b : Char} (h : c.rest = b :: rest) (hp : isPrintable b = true)
    (hb : isBreak b = true) : ∃ c', c.takeBreak = ([b], c') ∧ c'.StandsAt 0 rest := by
  obtain rfl | rfl | rfl := isBreak_of_isPrintable hp hb <;>
  · refine ⟨{ c.skip with line := c.line + 1, column := 0 }, ?_, ?_, rfl⟩
    · simp [takeBreak, h, break?, isBreak]
    · simp [skip, h]

end Cursor

end MetricCatalog.Yaml
