import MetricCatalog.Decimal.Double
import MetricCatalog.Proofs.LabelText
/-!
# Numbers as text

A text that reads as a number is one word, and no brace is in it.
-/

namespace MetricCatalog.Double

open Text

/-- Neither blank nor an opening brace. -/
def Plain (c : Char) : Prop := isBlank c = false ∧ c ≠ '\x7b'

instance (c : Char) : Decidable (Plain c) := inferInstanceAs (Decidable (_ ∧ _))

theorem plain_of_isDigit {c : Char} (h : c.isDigit = true) : Plain c := by
  have hname : Exposition.isNameChar c = true := by
    have halnum : c.isAlphanum = true := (congrArg (c.isAlpha || ·) h).trans (Bool.or_true _)
    rw [Exposition.isNameChar, halnum, Bool.true_or]
  refine ⟨Exposition.isBlank_of_isNameChar hname, ?_⟩
  rintro rfl
  exact absurd h (by decide)

theorem toLower_of_isBlank {c : Char} (h : isBlank c = true) : c.toLower = c := by
  refine dif_neg fun hupper => ?_
  have hclass : c.isUpper = true := decide_eq_true hupper
  have halpha : c.isAlphanum = true := by
    show (c.isUpper || c.isLower || c.isDigit) = true
    rw [hclass, Bool.true_or, Bool.true_or]
  have hname := Exposition.isNameChar_of_isBlank h
  rw [Exposition.isNameChar, halpha, Bool.true_or] at hname
  cases hname

/-- A character whose lower case is plain is plain. -/
theorem plain_of_toLower {c : Char} (h : Plain c.toLower) : Plain c := by
  constructor
  · rw [← Bool.not_eq_true]
    intro hb
    rw [Plain, toLower_of_isBlank hb, hb] at h
    exact absurd h.1 (by decide)
  · rintro rfl
    exact absurd h (by decide)

theorem plain_of_map_toLower {cs ds : List Char} (h : cs.map Char.toLower = ds)
    (hds : ∀ d ∈ ds, Plain d) : ∀ c ∈ cs, Plain c := fun _ hc =>
  plain_of_toLower (hds _ (h ▸ List.mem_map_of_mem hc))

theorem plain_of_splitSign {cs : List Char} (h : ∀ c ∈ (splitSign cs).2, Plain c) :
    ∀ c ∈ cs, Plain c := by
  unfold splitSign at h
  split at h
  · exact List.forall_mem_cons.2 ⟨by decide, h⟩
  · exact List.forall_mem_cons.2 ⟨by decide, h⟩
  · exact h

theorem plain_of_exponent? {cs : List Char} {power : Int} (h : exponent? cs = some power) :
    ∀ c ∈ cs, Plain c := by
  unfold exponent? at h
  split at h
  · exact fun _ hc => nomatch hc
  · next c cs =>
    split at h
    · next hletter =>
      rcases hsign : splitSign cs with ⟨negative, digits⟩
      simp only [hsign] at h
      split at h
      · cases h
      · next hdigits =>
        simp only [Bool.or_eq_true, not_or, Bool.not_eq_true', Bool.not_eq_false] at hdigits
        have hall : ∀ d ∈ (splitSign cs).2, Plain d := fun d hd =>
          plain_of_isDigit (List.all_eq_true.1 hdigits.2 d (by rwa [hsign] at hd))
        refine List.forall_mem_cons.2 ⟨?_, plain_of_splitSign hall⟩
        rcases (Bool.or_eq_true ..).mp hletter with hc | hc <;>
          rw [of_decide_eq_true hc] <;> decide
    · cases h

theorem plain_of_digits {cs : List Char} (h : ∀ c ∈ cs.dropWhile Char.isDigit, Plain c) :
    ∀ c ∈ cs, Plain c := by
  intro c hc
  rw [← List.takeWhile_append_dropWhile (p := Char.isDigit) (l := cs)] at hc
  rcases List.mem_append.1 hc with hc | hc
  · exact plain_of_isDigit (List.mem_takeWhile_imp hc)
  · exact h c hc

theorem plain_of_decimal? {negative : Bool} {cs : List Char} {x : Double}
    (h : decimal? negative cs = some x) : ∀ c ∈ cs, Plain c := by
  refine plain_of_digits ?_
  unfold decimal? at h
  dsimp only at h
  split at h
  · next rest hpoint =>
    rw [hpoint]
    refine List.forall_mem_cons.2 ⟨by decide, plain_of_digits ?_⟩
    split at h
    · cases h
    · obtain ⟨power, hpower, -⟩ := Option.map_eq_some_iff.1 h
      exact plain_of_exponent? hpower
  · split at h
    · cases h
    · obtain ⟨power, hpower, -⟩ := Option.map_eq_some_iff.1 h
      exact plain_of_exponent? hpower

theorem plain_of_parse? {text : String} {x : Double} (h : parse? text = some x) :
    ∀ c ∈ text.toList, Plain c := by
  have hword {cs : List Char} {word : String} (hcs : String.ofList (cs.map Char.toLower) = word)
      (hplain : ∀ d ∈ word.toList, Plain d) : ∀ c ∈ cs, Plain c :=
    plain_of_map_toLower (by rw [← hcs, String.toList_ofList]) hplain
  refine plain_of_splitSign ?_
  unfold parse? at h
  dsimp only at h
  split at h
  · next hcs => exact hword hcs (by decide)
  · next hcs => exact hword hcs (by decide)
  · next hcs => exact hword hcs (by decide)
  · exact plain_of_decimal? h

/-- A number in a text is one word that is not taken for the start of a label set. -/
theorem solid_of_parse? {cs : List Char} {x : Double} (h : parse? (String.ofList cs) = some x) :
    cs ≠ [] ∧ Solid cs ∧ cs.head? ≠ some '\x7b' := by
  have hplain := plain_of_parse? h
  rw [String.toList_ofList] at hplain
  refine ⟨?_, fun c hc => (hplain c hc).1, fun hhead => ?_⟩
  · rintro rfl
    have hnone : parse? (String.ofList []) = none := rfl
    rw [hnone] at h
    cases h
  · exact (hplain _ (List.mem_of_mem_head? hhead)).2 rfl

end MetricCatalog.Double
