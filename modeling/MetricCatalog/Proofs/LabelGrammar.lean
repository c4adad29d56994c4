import MetricCatalog.Proofs.KeyLookup
import MetricCatalog.Proofs.LabelText
import Mathlib.Data.List.Induction
/-!
# The grammar of label sets

The written forms of a label set, from the characters of a quoted value up to the
set with its closing brace, without regard to how they are read.  The reader takes
a text exactly when it begins with such a form, of which there is at most one, and
answers with the last value that the form gives to each name.
-/

namespace MetricCatalog.Exposition

open Text

/-! ## Forms -/

/-- A label value, and how it may stand between quotes. -/
inductive ValueText : List Char → List Char → Prop
  | done : ValueText [] []
  | plain {c : Char} {value text : List Char} (hquote : c ≠ '"') (hslash : c ≠ '\\')
      (h : ValueText value text) : ValueText (c :: value) (c :: text)
  | newline {value text : List Char} (h : ValueText value text) :
      ValueText ('\n' :: value) ('\\' :: 'n' :: text)
  | slash {value text : List Char} (h : ValueText value text) :
      ValueText ('\\' :: value) ('\\' :: '\\' :: text)
  | quote {value text : List Char} (h : ValueText value text) :
      ValueText ('"' :: value) ('\\' :: '"' :: text)
  /-- Before any other character a backslash stands for itself. -/
  | other {c : Char} {value text : List Char} (hn : c ≠ 'n') (hslash : c ≠ '\\')
      (hquote : c ≠ '"') (h : ValueText value text) :
      ValueText ('\\' :: c :: value) ('\\' :: c :: text)

/-- A letter or a digit of ASCII, or an underscore. -/
def InName (c : Char) : Prop :=
  ('A' ≤ c ∧ c ≤ 'Z') ∨ ('a' ≤ c ∧ c ≤ 'z') ∨ ('0' ≤ c ∧ c ≤ '9') ∨ c = '_'

/-- A pair of a name and a value, with blanks around the equals sign. -/
inductive PairForm : String × String → List Char → Prop
  | mk {name value : String} {gap gap' body : List Char} (hne : name.toList ≠ [])
      (hname : ∀ c ∈ name.toList, InName c) (hgap : Blank gap) (hgap' : Blank gap')
      (hbody : ValueText value.toList body) :
      PairForm (name, value) (name.toList ++ (gap ++ '=' :: (gap' ++ '"' :: (body ++ ['"']))))

/-- One pair or more, with commas between them and blanks around each. -/
inductive PairsForm : List (String × String) → List Char → Prop
  | one {p : String × String} {gap text gap' : List Char} (hgap : Blank gap)
      (hpair : PairForm p text) (hgap' : Blank gap') : PairsForm [p] (gap ++ (text ++ gap'))
  | next {p : String × String} {ps : List (String × String)} {gap text gap' more : List Char}
      (hgap : Blank gap) (hpair : PairForm p text) (hgap' : Blank gap')
      (hmore : PairsForm ps more) :
      PairsForm (p :: ps) (gap ++ (text ++ (gap' ++ ',' :: more)))

/-- A label set after its opening brace: no pairs, or pairs with or without a comma
after the last. -/
inductive SetForm : List (String × String) → List Char → Prop
  | empty {gap : List Char} (hgap : Blank gap) : SetForm [] (gap ++ ['\x7d'])
  | pairs {ps : List (String × String)} {text : List Char} (h : PairsForm ps text) :
      SetForm ps (text ++ ['\x7d'])
  | comma {ps : List (String × String)} {text gap : List Char} (h : PairsForm ps text)
      (hgap : Blank gap) : SetForm ps (text ++ ',' :: (gap ++ ['\x7d']))

/-- The value of the last pair that has the name. -/
def LastValue (ps : List (String × String)) (name value : String) : Prop :=
  ∃ before after, ps = before ++ (name, value) :: after ∧ ∀ p ∈ after, p.1 ≠ name

/-! ## Reading values and pairs -/

theorem ValueText.quoted?_append {value text : List Char} (h : ValueText value text)
    (rest : List Char) : quoted? (text ++ '"' :: rest) = some (value, rest) := by
  induction h with
  | done => rfl
  | plain hquote hslash _ ih =>
      rw [List.cons_append, quoted?_cons hquote hslash, ih]
      rfl
  | newline _ ih =>
      rw [List.cons_append, List.cons_append, quoted?_escape, ih]
      rfl
  | slash _ ih =>
      rw [List.cons_append, List.cons_append, quoted?_escape, ih]
      rfl
  | quote _ ih =>
      rw [List.cons_append, List.cons_append, quoted?_escape, ih]
      rfl
  | other hn hslash hquote _ ih =>
      rw [List.cons_append, List.cons_append, quoted?_escape, ih, valueEscape]
      · rfl
      · exact hn
      · exact hslash
      · exact hquote

/-- An escape and its character spell what the reader takes them for. -/
theorem ValueText.escape (c : Char) {value text : List Char} (h : ValueText value text) :
    ValueText (valueEscape c ++ value) ('\\' :: c :: text) := by
  unfold valueEscape
  split
  · exact h.newline
  · exact h.slash
  · exact h.quote
  · next hn hslash hquote => exact h.other hn hslash hquote

theorem exists_valueText {cs value after : List Char} (h : quoted? cs = some (value, after)) :
    ∃ text, ValueText value text ∧ cs = text ++ '"' :: after := by
  fun_induction quoted? cs generalizing value after with
  | case1 => cases h
  | case2 rest =>
      cases h
      exact ⟨[], .done, rfl⟩
  | case3 => cases h
  | case4 c rest ih =>
      obtain ⟨⟨value', after'⟩, hread, heq⟩ := Option.map_eq_some_iff.1 h
      obtain ⟨text, htext, rfl⟩ := ih hread
      cases heq
      exact ⟨'\\' :: c :: text, htext.escape c, rfl⟩
  | case5 c rest hquote hend hescape ih =>
      have hslash : c ≠ '\\' := by
        rintro rfl
        cases rest with
        | nil => exact hend rfl rfl
        | cons d rest => exact hescape d rest rfl rfl
      obtain ⟨⟨value', after'⟩, hread, heq⟩ := Option.map_eq_some_iff.1 h
      obtain ⟨text, htext, rfl⟩ := ih hread
      cases heq
      exact ⟨c :: text, htext.plain hquote hslash, rfl⟩

theorem isNameChar_iff {c : Char} : isNameChar c = true ↔ InName c := by
  have hclass : isNameChar c = (decide (65 ≤ c.val ∧ c.val ≤ 90) ||
      decide (97 ≤ c.val) && decide (c.val ≤ 122) ||
      decide (48 ≤ c.val) && decide (c.val ≤ 57) || decide (c = '_')) := rfl
  rw [hclass]
  simp only [InName, Bool.or_eq_true, Bool.and_eq_true, decide_eq_true_eq, Char.le_def, or_assoc]
  rfl

theorem pairText_iff {p : String × String} {text : List Char} :
    PairText p text ↔ PairForm p text := by
  constructor
  · rintro ⟨hne, hname, hgap, hgap', hbody⟩
    obtain ⟨body, hvalue, rfl⟩ := exists_valueText hbody
    exact .mk hne (fun c hc => isNameChar_iff.1 (hname c hc)) hgap hgap' hvalue
  · rintro ⟨hne, hname, hgap, hgap', hbody⟩
    exact .mk hne (fun c hc => isNameChar_iff.2 (hname c hc)) hgap hgap' (hbody.quoted?_append [])

/-! ## Reading sets -/

/-- Takes in pairs, of which later ones count. -/
def insertPairs (labels : KeyMap String) (ps : List (String × String)) : KeyMap String :=
  ps.foldl (fun m p => m.insert p.1 p.2) labels

section

variable {ps : List (String × String)} {text gap : List Char}

theorem PairsForm.setText_brace (h : PairsForm ps text) (labels : KeyMap String) :
    SetText labels (insertPairs labels ps) (text ++ ['\x7d']) := by
  induction h generalizing labels with
  | one hgap hpair hgap' =>
      simp only [List.append_assoc]
      exact .last hgap (pairText_iff.2 hpair) hgap'
  | next hgap hpair hgap' _ ih =>
      simp only [List.append_assoc, List.cons_append]
      exact .next hgap (pairText_iff.2 hpair) hgap' (ih _)

theorem PairsForm.setText_comma (h : PairsForm ps text) (hend : Blank gap)
    (labels : KeyMap String) :
    SetText labels (insertPairs labels ps) (text ++ ',' :: (gap ++ ['\x7d'])) := by
  induction h generalizing labels with
  | one hgap hpair hgap' =>
      simp only [List.append_assoc]
      exact .next hgap (pairText_iff.2 hpair) hgap' (.close hend)
  | next hgap hpair hgap' _ ih =>
      simp only [List.append_assoc, List.cons_append]
      exact .next hgap (pairText_iff.2 hpair) hgap' (ih _)

theorem SetForm.setText (h : SetForm ps text) (labels : KeyMap String) :
    SetText labels (insertPairs labels ps) text := by
  cases h with
  | empty hgap => exact .close hgap
  | pairs h => exact h.setText_brace labels
  | comma h hgap => exact h.setText_comma hgap labels

theorem SetText.exists_setForm {labels labels' : KeyMap String} (h : SetText labels labels' text) :
    ∃ ps, SetForm ps text ∧ labels' = insertPairs labels ps := by
  induction h with
  | close hgap => exact ⟨[], .empty hgap, rfl⟩
  | @last _ p _ _ _ hgap hpair hgap' =>
      refine ⟨[p], ?_, rfl⟩
      have hform := SetForm.pairs (.one hgap (pairText_iff.1 hpair) hgap')
      simpa only [List.append_assoc] using hform
  | @next _ _ p _ _ _ _ hgap hpair hgap' _ ih =>
      obtain ⟨ps, hps, rfl⟩ := ih
      refine ⟨p :: ps, ?_, rfl⟩
      have hpair := pairText_iff.1 hpair
      cases hps with
      | empty hend =>
          -- what stands after the comma is only the end of the set
          have hform := SetForm.comma (.one hgap hpair hgap') hend
          simpa only [List.append_assoc] using hform
      | pairs hmore =>
          have hform := SetForm.pairs (.next hgap hpair hgap' hmore)
          simpa only [List.append_assoc, List.cons_append] using hform
      | comma hmore hend =>
          have hform := SetForm.comma (.next hgap hpair hgap' hmore) hend
          simpa only [List.append_assoc, List.cons_append] using hform

theorem labelSet_eq_ok_iff_setForm {cs after : List Char} {m : KeyMap String} :
    labelSet .empty cs = .ok (m, after) ↔
      ∃ ps used, SetForm ps used ∧ cs = used ++ after ∧ m = insertPairs .empty ps := by
  rw [labelSet_eq_ok_iff]
  constructor
  · rintro ⟨used, hused, hcs⟩
    obtain ⟨ps, hps, hm⟩ := hused.exists_setForm
    exact ⟨ps, used, hps, hcs, hm⟩
  · rintro ⟨ps, used, hps, hcs, rfl⟩
    exact ⟨used, hps.setText .empty, hcs⟩

end

/-! ## The last value of a name -/

section

variable {ps : List (String × String)} {p : String × String} {name value : String}

theorem not_lastValue_nil : ¬ LastValue [] name value := by
  rintro ⟨before, after, h, -⟩
  simp at h

theorem lastValue_concat_self : LastValue (ps ++ [p]) p.1 value ↔ value = p.2 := by
  constructor
  · rintro ⟨before, after, hps, hafter⟩
    rcases List.eq_nil_or_concat after with rfl | ⟨after, q, rfl⟩
    · have hlast := List.append_inj_right' hps rfl
      exact (congrArg Prod.snd (List.singleton_inj.1 hlast)).symm
    · -- the pair at the end has the name, so none stands before it
      rw [List.concat_eq_append, ← List.cons_append, ← List.append_assoc] at hps
      have hlast : p = q := List.singleton_inj.1 (List.append_inj_right' hps rfl)
      exact absurd (congrArg Prod.fst hlast.symm) (hafter q (by simp))
  · rintro rfl
    exact ⟨ps, [], rfl, by simp⟩

theorem lastValue_concat_of_ne (hne : p.1 ≠ name) :
    LastValue (ps ++ [p]) name value ↔ LastValue ps name value := by
  constructor
  · rintro ⟨before, after, hps, hafter⟩
    rcases List.eq_nil_or_concat after with rfl | ⟨after, q, rfl⟩
    · have hlast := List.append_inj_right' hps rfl
      exact absurd (congrArg Prod.fst (List.singleton_inj.1 hlast)) hne
    · rw [List.concat_eq_append, ← List.cons_append, ← List.append_assoc] at hps
      exact ⟨before, after, List.append_inj_left' hps rfl, fun p hp => hafter p (by simp [hp])⟩
  · rintro ⟨before, after, rfl, hafter⟩
    refine ⟨before, after ++ [p], by simp, fun q hq => ?_⟩
    rcases List.mem_append.1 hq with hq | hq
    · exact hafter q hq
    · rw [List.mem_singleton.1 hq]
      exact hne

theorem insertPairs_concat (m : KeyMap String) :
    insertPairs m (ps ++ [p]) = (insertPairs m ps).insert p.1 p.2 :=
  List.foldl_append

theorem find?_insertPairs :
    (insertPairs .empty ps).find? name = some value ↔ LastValue ps name value := by
  induction ps using List.reverseRecOn with
  | nil => exact iff_of_false (fun h => nomatch h) not_lastValue_nil
  | append_singleton ps p ih =>
      rw [insertPairs_concat, KeyMap.find?_insert]
      by_cases hname : name = p.1
      · rw [if_pos hname, hname, lastValue_concat_self, Option.some.injEq, eq_comm]
      · rw [if_neg hname, ih, lastValue_concat_of_ne (Ne.symm hname)]

theorem eq_insertPairs_iff {m : KeyMap String} :
    m = insertPairs .empty ps ↔
      ∀ name value, m.find? name = some value ↔ LastValue ps name value := by
  constructor
  · rintro rfl name value
    exact find?_insertPairs
  · intro h
    refine KeyMap.ext_find? fun name => Option.ext fun value => ?_
    rw [h, find?_insertPairs]

end

/-! ## The reader -/

/-- The reader takes a text when it begins with the form of a label set.  Its answer
is the text after the form, and under each name the last value that the form gives
it.  A text begins with one such form at most, and one that begins with none is
refused. -/
theorem labelSet_grammar (cs : List Char) :
    (∀ m after, labelSet .empty cs = .ok (m, after) ↔
      ∃ ps used, SetForm ps used ∧ cs = used ++ after ∧
        ∀ name value, m.find? name = some value ↔ LastValue ps name value) ∧
    (∀ ps used after ps' used' after', SetForm ps used → SetForm ps' used' →
      cs = used ++ after → cs = used' ++ after' → used = used') ∧
    ((∃ fault, labelSet .empty cs = .error fault) ↔
      ∀ ps used after, SetForm ps used → cs ≠ used ++ after) := by
  have hread : ∀ {ps used after}, SetForm ps used → cs = used ++ after →
      labelSet .empty cs = .ok (insertPairs .empty ps, after) := fun {ps used after} hform hcs =>
    labelSet_eq_ok_iff_setForm.2 ⟨ps, used, hform, hcs, rfl⟩
  refine ⟨fun m after => ?_, ?_, ?_⟩
  · simp only [labelSet_eq_ok_iff_setForm, eq_insertPairs_iff]
  · intro ps used after ps' used' after' hform hform' hcs hcs'
    have hsame := (hread hform hcs).symm.trans (hread hform' hcs')
    obtain rfl : after = after' := congrArg Prod.snd (Except.ok.inj hsame)
    exact List.append_cancel_right (hcs.symm.trans hcs')
  · constructor
    · rintro ⟨fault, hfault⟩ ps used after hform hcs
      rw [hread hform hcs] at hfault
      cases hfault
    · intro hnone
      cases h : labelSet .empty cs with
      | error fault => exact ⟨fault, rfl⟩
      | ok answer =>
          obtain ⟨ps, used, hform, hcs, -⟩ := labelSet_eq_ok_iff_setForm.1 h
          exact absurd hcs (hnone ps used answer.2 hform)

/-- Blanks, an escape that stands for itself, a name that comes twice and a comma
at the end. -/
def spacedSet : List Char := " a = \"\\n\\d\" ,b=\"\x7d\",a=\"1\", \x7d".toList

theorem labelSet_spacedSet :
    SetForm [("a", "\n\\d"), ("b", "\x7d"), ("a", "1")] spacedSet ∧
    labelSet .empty (spacedSet ++ " 2".toList) =
      .ok (.ofList [("b", "\x7d"), ("a", "1")], " 2".toList) := by
  have hname : ∀ c ∈ ['a', 'b'], InName c := by
    simp only [← isNameChar_iff]
    decide
  have hspace : Blank [' '] := by decide
  have ha : ValueText "\n\\d".toList "\\n\\d".toList :=
    .newline (.other (by decide) (by decide) (by decide) .done)
  have hb : ValueText "\x7d".toList "\x7d".toList := .plain (by decide) (by decide) .done
  have hc : ValueText "1".toList "1".toList := .plain (by decide) (by decide) .done
  have hpa := @PairForm.mk "a" _ _ _ _ (by decide) (by simpa using hname 'a') hspace hspace ha
  have hpb := @PairForm.mk "b" _ _ _ _ (by decide) (by simpa using hname 'b') blank_nil blank_nil hb
  have hpc := @PairForm.mk "a" _ _ _ _ (by decide) (by simpa using hname 'a') blank_nil blank_nil hc
  have hform : SetForm [("a", "\n\\d"), ("b", "\x7d"), ("a", "1")] spacedSet :=
    .comma (.next hspace hpa hspace (.next blank_nil hpb blank_nil (.one blank_nil hpc blank_nil)))
      hspace
  refine ⟨hform, ((labelSet_grammar _).1 _ _).2 ⟨_, _, hform, rfl, fun name value => ?_⟩⟩
  rw [← find?_insertPairs]
  rfl

end MetricCatalog.Exposition
