import MetricCatalog.Proofs.QuotedStyles
import MetricCatalog.Proofs.TreeTokens
/-!
# Written text is printable

Whatever characters a text holds, a tree is written in printable ones, all of
which a document may hold.
-/

namespace MetricCatalog.Yaml

/-- Each character is printable. -/
def IsPrintableText (cs : List Char) : Prop := ∀ x ∈ cs, isPrintable x = true

instance (cs : List Char) : Decidable (IsPrintableText cs) :=
  inferInstanceAs (Decidable (∀ x ∈ cs, isPrintable x = true))

namespace IsPrintableText

variable {cs ds : List Char} {x : Char}

theorem nil : IsPrintableText [] := fun _ hx => absurd hx List.not_mem_nil

theorem append (h : IsPrintableText cs) (h' : IsPrintableText ds) : IsPrintableText (cs ++ ds) :=
  fun x hx => (List.mem_append.1 hx).elim (h x) (h' x)

theorem cons (hx : isPrintable x = true) (h : IsPrintableText cs) : IsPrintableText (x :: cs) :=
  List.forall_mem_cons.2 ⟨hx, h⟩

end IsPrintableText

open IsPrintableText

theorem isReadable_of_isPrintable {x : Char} (h : isPrintable x = true) : isReadable x = true := by
  simp only [isPrintable, isReadable, Bool.or_eq_true, Bool.and_eq_true, beq_iff_eq,
    decide_eq_true_eq] at h ⊢
  omega

theorem isPrintable_of_isHexDigit {x : Char} (h : isHexDigit x = true) : isPrintable x = true := by
  simp only [isHexDigit, Char.isDigit, Bool.or_eq_true, Bool.and_eq_true, decide_eq_true_eq,
    UInt32.le_iff_toNat_le, Char.le_def] at h
  have hrange : 0x20 ≤ x.toNat ∧ x.toNat ≤ 0x7E := by
    rcases h with (h | h) | h
    all_goals exact ⟨Nat.le_trans (by decide) h.1, Nat.le_trans h.2 (by decide)⟩
  simp [isPrintable, hrange]

/-! ## Scalars -/

theorem printable_indentation (n : Nat) : IsPrintableText (indentation n) := fun x hx => by
  rw [List.eq_of_mem_replicate hx]
  decide

theorem printable_singleQuotedBody (indent : Nat) {cs : List Char} (h : IsPrintableText cs)
    (afterBreak : Bool) : IsPrintableText (singleQuotedBody indent afterBreak cs) := by
  induction cs generalizing afterBreak with
  | nil =>
      rw [singleQuotedBody]
      split
      · exact printable_indentation indent
      · exact nil
  | cons x cs ih =>
      obtain ⟨hx, hcs⟩ := List.forall_mem_cons.1 h
      have hsign : IsPrintableText (if x = '\'' then ['\'', '\''] else [x]) := by
        split
        · exact cons (by decide) (cons (by decide) nil)
        · exact cons hx nil
      have hindent : IsPrintableText (if afterBreak then indentation indent else []) := by
        split
        · exact printable_indentation indent
        · exact nil
      rw [singleQuotedBody]
      split
      · exact cons hx (ih hcs true)
      · exact (hindent.append hsign).append (ih hcs false)

theorem printable_hexPadded (width n : Nat) : IsPrintableText (hexPadded width n) := by
  refine append (fun x hx => ?_) fun x hx =>
    isPrintable_of_isHexDigit ((upperDigits_spec n).1 x hx)
  rw [List.eq_of_mem_replicate hx]
  decide

theorem printable_doubleQuotedChar (x : Char) : IsPrintableText (doubleQuotedChar x) := by
  unfold doubleQuotedChar
  split
  · next h =>
    simp only [Bool.and_eq_true] at h
    exact cons h.1.1.1 nil
  · split
    · next letter hletter =>
      have hpairs : ∀ p ∈ [('\x00', '0'), ('\x07', 'a'), ('\x08', 'b'), ('\t', 't'), ('\n', 'n'),
          ('\x0b', 'v'), ('\x0c', 'f'), ('\r', 'r'), ('\x1b', 'e'), ('"', '"'), ('\\', '\\'),
          ('\u0085', 'N'), ('\u00a0', '_'), ('\u2028', 'L'), ('\u2029', 'P')],
          isPrintable p.2 = true := by decide
      obtain ⟨before, after, hlist, -⟩ := List.lookup_eq_some_iff.1 hletter
      have hprintable := hpairs (x, letter) (hlist ▸ List.mem_append_right _ List.mem_cons_self)
      exact cons (by decide) (cons hprintable nil)
    · refine cons (by decide) ?_
      split
      · exact cons (by decide) (printable_hexPadded 2 _)
      · split
        · exact cons (by decide) (printable_hexPadded 4 _)
        · exact cons (by decide) (printable_hexPadded 8 _)

theorem printable_literalMarks (cs : List Char) : IsPrintableText (literalMarks cs) := by
  rw [literalMarks_eq]
  refine append ?_ ?_
  · split
    · exact cons (by decide) nil
    · exact nil
  · cases chompingOf cs <;> decide

theorem printable_literalBody (indent : Nat) {cs : List Char} (h : IsPrintableText cs)
    (atStart : Bool) : IsPrintableText (literalBody indent atStart cs) := by
  induction cs generalizing atStart with
  | nil => exact nil
  | cons x cs ih =>
      obtain ⟨hx, hcs⟩ := List.forall_mem_cons.1 h
      rw [literalBody]
      split
      · exact cons hx (ih hcs true)
      · refine append ?_ (cons hx (ih hcs false))
        split
        · exact printable_indentation indent
        · exact nil

theorem printable_of_needsEscapes {cs : List Char} (h : needsEscapes cs = false) :
    IsPrintableText cs := by
  simp only [needsEscapes, Bool.or_eq_false_iff, List.any_eq_false] at h
  exact fun x hx => by simpa using h.2 x hx

theorem printable_writeScalar (indent : Nat) (s : String) :
    IsPrintableText (writeScalar indent s) := by
  have hend {written : List Char} (h : IsPrintableText written) :
      IsPrintableText (if styleOf s.toList = .literal && s.toList.getLast?.any isBreak then written
        else written ++ ['\n']) := by
    split
    · exact h
    · exact h.append (cons (by decide) nil)
  unfold writeScalar
  dsimp only
  refine hend ?_
  obtain ⟨hstyle, hallows⟩ | ⟨hstyle, -, hallows⟩ | hstyle | ⟨hstyle, hallows⟩ :=
    Layout.styleOf_cases s.toList <;> rw [hstyle]
  · exact (isLine_of_allowsPlain hallows).printable
  · simp only [allowsSingleQuotes, Bool.not_eq_true', Bool.or_eq_false_iff] at hallows
    have hbody := printable_singleQuotedBody indent (printable_of_needsEscapes hallows.1) false
    exact cons (by decide) (hbody.append (cons (by decide) nil))
  · have hbody : IsPrintableText (s.toList.flatMap doubleQuotedChar) := fun x hx => by
      obtain ⟨y, -, hy⟩ := List.mem_flatMap.1 hx
      exact printable_doubleQuotedChar y x hy
    exact cons (by decide) (hbody.append (cons (by decide) nil))
  · simp only [allowsLiteral, Bool.not_eq_true', Bool.or_eq_false_iff] at hallows
    have hbody := printable_literalBody indent (printable_of_needsEscapes hallows.1.2) true
    exact cons (by decide) ((printable_literalMarks _).append (cons (by decide) hbody))

/-! ## Trees -/

namespace Tree

theorem printable_name {name : List Char} (h : IsName name) : IsPrintableText name :=
  fun x hx => isPrintable_of_isLetter (h.letters x hx)

mutual

theorem printable_write : ∀ (value : Tree), value.IsValue → ∀ n, IsPrintableText (write n value)
  | text s, _, n => by
    rw [write]
    exact cons (by decide) (printable_writeScalar (n + 2) s)
  | word s, hvalue, n => by
    rw [IsValue] at hvalue
    rw [write]
    exact (cons (by decide) (printable_name hvalue)).append (cons (by decide) nil)
  | list [], _, n => by
    rw [write]
    decide
  | list (item :: items), hvalue, n => by
    rw [IsValue] at hvalue
    have h := printable_writeItems (item :: items) hvalue n
    simpa [write] using cons (by decide : isPrintable '\n' = true) h
  | record _, hvalue, _ => by
    rw [IsValue] at hvalue
    exact hvalue.elim

theorem printable_writeItems : ∀ (items : List Tree), AreRecords items →
    ∀ n, IsPrintableText (writeItems n items)
  | [], _, n => by
    rw [writeItems]
    exact nil
  | item :: items, hitems, n => by
    rw [AreRecords] at hitems
    rw [writeItems]
    exact ((printable_indentation n).append (cons (by decide)
      (printable_writeItem item hitems.1 n))).append (printable_writeItems items hitems.2 n)

theorem printable_writeItem : ∀ (item : Tree), item.IsRecord →
    ∀ n, IsPrintableText (writeItem n item)
  | record [], _, n => by
    rw [writeItem]
    decide
  | record (field :: fields), hitem, n => by
    rw [IsRecord] at hitem
    have h := printable_writeFields (field :: fields) hitem (n + 2)
    simpa [writeItem] using cons (by decide : isPrintable ' ' = true) h
  | text _, hitem, _ | word _, hitem, _ | list _, hitem, _ => by
    rw [IsRecord] at hitem
    exact hitem.elim

theorem printable_writeFields : ∀ (fields : List (String × Tree)), AreFields fields →
    ∀ n, IsPrintableText (writeFields n fields)
  | [], _, n => by
    rw [writeFields]
    exact nil
  | (name, value) :: fields, hfields, n => by
    rw [AreFields] at hfields
    have hfirst := (printable_name hfields.1).append (cons (by decide : isPrintable ':' = true)
      (printable_write value hfields.2.1 n))
    have hrest := printable_writeFields fields hfields.2.2 n
    rw [Layout.writeFields_cons]
    refine hfirst.append ?_
    cases fields with
    | nil => exact nil
    | cons field fields => exact (printable_indentation n).append hrest

end

end Tree

end MetricCatalog.Yaml
