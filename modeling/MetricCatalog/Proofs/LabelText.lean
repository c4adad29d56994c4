import MetricCatalog.Exposition.LabelSet
import MetricCatalog.Proofs.BlankText
/-!
# Label sets as text

A label set is read off the front of a text, and what follows its closing brace
plays no part.  So the reader is described by the texts that it takes whole: a
pair, a set that a brace closes, and a set that goes on after a comma.
-/

namespace MetricCatalog.Exposition

open Text

/-! ## Quoted values -/

section

variable {c : Char} {cs value after : List Char}

theorem quoted?_cons (hq : c ≠ '"') (hb : c ≠ '\\') :
    quoted? (c :: cs) = (quoted? cs).map fun (value, after) => (c :: value, after) := by
  rw [quoted?]
  · exact hq
  · exact fun h _ => hb h
  · exact fun d ds h _ => hb h

theorem quoted?_escape :
    quoted? ('\\' :: c :: cs) =
      (quoted? cs).map fun (value, after) => (valueEscape c ++ value, after) := by
  rw [quoted?]

/-- A quoted value is read without a look at what follows its quote. -/
theorem exists_quoted (h : quoted? cs = some (value, after)) :
    ∃ used, cs = used ++ after ∧ ∀ rest, quoted? (used ++ rest) = some (value, rest) := by
  fun_induction quoted? cs generalizing value after with
  | case1 => cases h
  | case2 rest =>
      cases h
      exact ⟨['"'], rfl, fun rest => rfl⟩
  | case3 => cases h
  | case4 c cs ih =>
      obtain ⟨⟨value', after'⟩, hread, heq⟩ := Option.map_eq_some_iff.1 h
      obtain ⟨used, rfl, hused⟩ := ih hread
      cases heq
      refine ⟨'\\' :: c :: used, rfl, fun rest => ?_⟩
      rw [List.cons_append, List.cons_append, quoted?_escape, hused]
      rfl
  | case5 c cs hquote hend hescape ih =>
      have hb : c ≠ '\\' := by
        rintro rfl
        cases cs with
        | nil => exact hend rfl rfl
        | cons d cs => exact hescape d cs rfl rfl
      obtain ⟨⟨value', after'⟩, hread, heq⟩ := Option.map_eq_some_iff.1 h
      obtain ⟨used, rfl, hused⟩ := ih hread
      cases heq
      refine ⟨c :: used, rfl, fun rest => ?_⟩
      rw [List.cons_append, quoted?_cons hquote hb, hused]
      rfl

end

/-! ## Pairs -/

/-- A pair in writing: the name, an equals sign and the quoted value, with blanks
around the sign. -/
inductive PairText : String × String → List Char → Prop
  | mk {name value : String} {gap gap' body : List Char} (hne : name.toList ≠ [])
      (hname : ∀ c ∈ name.toList, isNameChar c = true) (hgap : Blank gap) (hgap' : Blank gap')
      (hbody : quoted? body = some (value.toList, [])) :
      PairText (name, value) (name.toList ++ (gap ++ '=' :: (gap' ++ '"' :: body)))

theorem toNat_of_isAlphanum {c : Char} (h : c.isAlphanum = true) :
    (48 ≤ c.toNat ∧ c.toNat ≤ 57) ∨ (65 ≤ c.toNat ∧ c.toNat ≤ 90) ∨
      (97 ≤ c.toNat ∧ c.toNat ≤ 122) := by
  have hclass : (decide (65 ≤ c.val ∧ c.val ≤ 90) || decide (97 ≤ c.val) && decide (c.val ≤ 122) ||
      decide (48 ≤ c.val) && decide (c.val ≤ 57)) = true := h
  simp only [UInt32.le_iff_toNat_le, Bool.or_eq_true, Bool.and_eq_true,
    decide_eq_true_eq] at hclass
  rcases hclass with (h | h) | h
  · exact .inr (.inl h)
  · exact .inr (.inr h)
  · exact .inl h

theorem isNameChar_of_isBlank {c : Char} (h : isBlank c = true) : isNameChar c = false := by
  rw [← Bool.not_eq_true, isNameChar, Bool.or_eq_true, decide_eq_true_eq]
  rintro (hc | rfl)
  · have hrange := toNat_of_isAlphanum hc
    simp only [isBlank, Bool.or_eq_true, Bool.and_eq_true, decide_eq_true_eq, beq_iff_eq] at h
    omega
  · exact absurd h (by decide)

theorem isBlank_of_isNameChar {c : Char} (h : isNameChar c = true) : isBlank c = false := by
  rw [← Bool.not_eq_true]
  intro hb
  rw [isNameChar_of_isBlank hb] at h
  cases h

section

variable {p : String × String} {text cs after : List Char}

/-- The text of a pair begins with a character that is neither blank nor a brace. -/
theorem PairText.head (h : PairText p text) :
    ∃ c rest, text = c :: rest ∧ isBlank c = false ∧ c ≠ '\x7d' := by
  obtain ⟨hne, hname, -, -, -⟩ := h
  obtain ⟨c, cs, hcs⟩ := List.exists_cons_of_ne_nil hne
  have hc : isNameChar c = true := hname c (by simp [hcs])
  refine ⟨c, _, by rw [hcs, List.cons_append], isBlank_of_isNameChar hc, ?_⟩
  rintro rfl
  exact absurd hc (by decide)

theorem PairText.pair_append (h : PairText p text) (rest : List Char) :
    pair (text ++ rest) = .ok (p, rest) := by
  obtain ⟨hne, hname, hgap, hgap', hbody⟩ := h
  rename_i name value gap gap' body
  obtain ⟨used, hused, hread⟩ := exists_quoted hbody
  rw [List.append_nil] at hused
  subst hused
  have hsign : trimStart (gap ++ '=' :: (gap' ++ '"' :: body) ++ rest) =
      '=' :: (gap' ++ '"' :: (body ++ rest)) := by
    rw [List.append_assoc, trimStart_append_of_blank hgap, List.cons_append,
      trimStart_cons (by decide), List.append_assoc, List.cons_append]
  have hquote : trimStart (gap' ++ '"' :: (body ++ rest)) = '"' :: (body ++ rest) := by
    rw [trimStart_append_of_blank hgap', trimStart_cons (by decide)]
  have hstop : ∀ c ∈ (gap ++ '=' :: (gap' ++ '"' :: body) ++ rest).head?, isNameChar c = false := by
    intro c hc
    cases gap with
    | nil => cases hc; decide
    | cons g gap => cases hc; exact isNameChar_of_isBlank (hgap _ (List.mem_cons_self ..))
  obtain ⟨c, cs, hcs⟩ : ∃ c cs, gap ++ '=' :: (gap' ++ '"' :: body) ++ rest = c :: cs :=
    List.exists_cons_of_ne_nil (by simp)
  have hempty : name.isEmpty = false := isEmpty_eq_false hne
  rw [pair, List.append_assoc, takeWhile_append_stop hname hstop,
    dropWhile_append_stop hname hstop, String.ofList_toList]
  rw [hcs] at hsign ⊢
  simp only [hempty, hsign, hquote, hread, Bool.false_eq_true, if_false, String.ofList_toList]

theorem exists_pairText (h : pair cs = .ok (p, after)) :
    ∃ text, PairText p text ∧ cs = text ++ after := by
  unfold pair at h
  dsimp only at h
  split at h
  · cases h
  · next c rest hd =>
    split at h
    · cases h
    · next hempty =>
      split at h
      · next sign hsign =>
        split at h
        · next quote hquote =>
          split at h
          · next value after' hvalue =>
            cases h
            obtain ⟨gap, hgap, hrest⟩ := (trimStart_eq_cons_iff (by decide)).1 hsign
            obtain ⟨gap', hgap', hsign'⟩ := (trimStart_eq_cons_iff (by decide)).1 hquote
            obtain ⟨body, rfl, hread⟩ := exists_quoted hvalue
            have hbody : quoted? body = some ((String.ofList value).toList, []) := by
              rw [String.toList_ofList, ← hread [], List.append_nil]
            have hname := String.toList_ofList (l := cs.takeWhile isNameChar)
            refine ⟨_, .mk ?_ ?_ hgap hgap' hbody, ?_⟩
            · rw [hname]
              exact fun hnil => hempty (by rw [hnil]; rfl)
            · rw [hname]
              exact fun c hc => List.mem_takeWhile_imp hc
            · have hcs : cs = cs.takeWhile isNameChar ++ cs.dropWhile isNameChar :=
                List.takeWhile_append_dropWhile.symm
              rw [hd, hrest, hsign'] at hcs
              rw [hname]
              exact hcs.trans (by simp)
          · cases h
        · cases h
      · cases h

end

/-! ## Sets -/

section

variable {labels labels' : KeyMap String} {p : String × String} {cs rest next after : List Char}

theorem labelSet_of_brace (h : trimStart cs = '\x7d' :: after) :
    labelSet labels cs = .ok (labels, after) := by
  rw [labelSet]
  split
  · next after' h' =>
    cases h.symm.trans h'
    rfl
  · next hnot => exact absurd h (hnot after)

theorem labelSet_of_pair (hnot : ∀ after, trimStart cs ≠ '\x7d' :: after)
    (hp : pair (trimStart cs) = .ok (p, rest)) :
    (∀ next, trimStart rest = ',' :: next →
      labelSet labels cs = labelSet (labels.insert p.1 p.2) next) ∧
    ∀ after, trimStart rest = '\x7d' :: after →
      labelSet labels cs = .ok (labels.insert p.1 p.2, after) := by
  constructor
  · intro next hr
    rw [labelSet]
    split
    · next after h => exact absurd h (hnot after)
    · split
      · next fault h => rw [hp] at h; cases h
      · next name value rest' h =>
        cases hp.symm.trans h
        split
        · next next' h' => cases hr.symm.trans h'; rfl
        · next after h' => cases hr.symm.trans h'
        · next hcomma _ => exact absurd hr (hcomma next)
  · intro after hr
    rw [labelSet]
    split
    · next after h => exact absurd h (hnot after)
    · split
      · next fault h => rw [hp] at h; cases h
      · next name value rest' h =>
        cases hp.symm.trans h
        split
        · next next' h' => cases hr.symm.trans h'
        · next after h' => cases hr.symm.trans h'; rfl
        · next hbrace => exact absurd hr (hbrace after)

theorem labelSet_cases (h : labelSet labels cs = .ok (labels', after)) :
    trimStart cs = '\x7d' :: after ∧ labels' = labels ∨
    ∃ p rest, pair (trimStart cs) = .ok (p, rest) ∧
      ((∃ next, trimStart rest = ',' :: next ∧
          labelSet (labels.insert p.1 p.2) next = .ok (labels', after)) ∨
        trimStart rest = '\x7d' :: after ∧ labels' = labels.insert p.1 p.2) := by
  rw [labelSet] at h
  split at h
  · next after' hbrace =>
    cases h
    exact .inl ⟨hbrace, rfl⟩
  · split at h
    · cases h
    · next name value rest hp =>
      refine .inr ⟨(name, value), rest, hp, ?_⟩
      split at h
      · next next hcomma => exact .inl ⟨next, hcomma, h⟩
      · next after' hbrace =>
        cases h
        exact .inr ⟨hbrace, rfl⟩
      · cases h

end

/-- A label set in writing, after its opening brace, and what it adds to labels:
a closing brace, or a pair and then a closing brace or a comma and more of the
set. -/
inductive SetText : KeyMap String → KeyMap String → List Char → Prop
  | close {labels : KeyMap String} {gap : List Char} (hgap : Blank gap) :
      SetText labels labels (gap ++ ['\x7d'])
  | last {labels : KeyMap String} {p : String × String} {gap text gap' : List Char}
      (hgap : Blank gap) (hpair : PairText p text) (hgap' : Blank gap') :
      SetText labels (labels.insert p.1 p.2) (gap ++ (text ++ (gap' ++ ['\x7d'])))
  | next {labels labels' : KeyMap String} {p : String × String} {gap text gap' more : List Char}
      (hgap : Blank gap) (hpair : PairText p text) (hgap' : Blank gap')
      (hmore : SetText (labels.insert p.1 p.2) labels' more) :
      SetText labels labels' (gap ++ (text ++ (gap' ++ ',' :: more)))

section

variable {labels labels' : KeyMap String} {p : String × String} {cs text gap gap' after : List Char}

/-- Blanks before a pair are skipped, and the pair is read. -/
theorem PairText.trimStart_append (h : PairText p text) (hgap : Blank gap) (rest : List Char) :
    (∀ after, trimStart (gap ++ (text ++ rest)) ≠ '\x7d' :: after) ∧
      pair (trimStart (gap ++ (text ++ rest))) = .ok (p, rest) := by
  obtain ⟨c, cs, hcs, hblank, hbrace⟩ := h.head
  have htrim : trimStart (gap ++ (text ++ rest)) = text ++ rest := by
    rw [trimStart_append_of_blank hgap, hcs]
    exact trimStart_cons hblank
  rw [htrim]
  refine ⟨fun after heq => ?_, h.pair_append rest⟩
  rw [hcs] at heq
  exact hbrace (List.cons.inj heq).1

theorem trimStart_append_cons {c : Char} (hgap : Blank gap) (hc : isBlank c = false)
    (rest : List Char) : trimStart (gap ++ c :: rest) = c :: rest := by
  rw [trimStart_append_of_blank hgap, trimStart_cons hc]

/-- A written label set is read as such, whatever follows it. -/
theorem SetText.labelSet_append (h : SetText labels labels' text) (rest : List Char) :
    labelSet labels (text ++ rest) = .ok (labels', rest) := by
  induction h with
  | close hgap =>
      rw [List.append_assoc]
      exact labelSet_of_brace (trimStart_append_cons hgap (by decide) rest)
  | last hgap hpair hgap' =>
      simp only [List.append_assoc]
      obtain ⟨hnot, hread⟩ := hpair.trimStart_append hgap _
      exact (labelSet_of_pair hnot hread).2 rest (trimStart_append_cons hgap' (by decide) rest)
  | next hgap hpair hgap' hmore ih =>
      simp only [List.append_assoc, List.cons_append]
      obtain ⟨hnot, hread⟩ := hpair.trimStart_append hgap _
      rw [(labelSet_of_pair hnot hread).1 _ (trimStart_append_cons hgap' (by decide) _), ih]

/-- What is read as a label set is a written one, and what follows it. -/
theorem exists_setText (h : labelSet labels cs = .ok (labels', after)) :
    ∃ text, SetText labels labels' text ∧ cs = text ++ after := by
  induction hn : cs.length using Nat.strong_induction_on generalizing labels cs with
  | h n ih =>
      obtain ⟨gap, hgap, hcs⟩ := exists_margin cs
      rcases labelSet_cases h with ⟨hbrace, rfl⟩ | ⟨p, rest, hp, hrest⟩
      · refine ⟨gap ++ ['\x7d'], .close hgap, ?_⟩
        rw [hcs, hbrace, List.append_assoc]
        rfl
      · obtain ⟨text, htext, hstart⟩ := exists_pairText hp
        obtain ⟨gap', hgap', hrest'⟩ := exists_margin rest
        rcases hrest with ⟨next, hcomma, hnext⟩ | ⟨hbrace, rfl⟩
        · have hcs' : cs = gap ++ (text ++ (gap' ++ ',' :: next)) := by
            rw [hcs, hstart, hrest', hcomma]
          obtain ⟨more, hmore, rfl⟩ := ih next.length (by rw [← hn, hcs']; simp; omega) hnext rfl
          exact ⟨_, .next hgap htext hgap' hmore, by rw [hcs']; simp⟩
        · refine ⟨_, .last hgap htext hgap', ?_⟩
          rw [hcs, hstart, hrest', hbrace]
          simp

theorem labelSet_eq_ok_iff :
    labelSet labels cs = .ok (labels', after) ↔
      ∃ text, SetText labels labels' text ∧ cs = text ++ after := by
  constructor
  · exact exists_setText
  · rintro ⟨text, h, rfl⟩
    exact h.labelSet_append after

end

end MetricCatalog.Exposition
