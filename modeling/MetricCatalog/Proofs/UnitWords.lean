import MetricCatalog.Observe.MeasureUnit
/-!
# Units by where their words stand

A unit is read off a text if and only if its word occurs in it and does not begin it.
The word for seconds ends the word for milliseconds, so seconds are read off a text
only where they stand by themselves, unless the text begins with milliseconds: then it
shows no milliseconds, and what is left of the word reads as seconds.
-/

namespace MetricCatalog

theorem isSome_firstOccurrence?_iff {word cs : List Char} :
    (firstOccurrence? word cs).isSome = true ↔ ∃ n, word <+: cs.drop n := by
  induction cs with
  | nil => cases word <;> simp [firstOccurrence?]
  | cons c cs ih =>
      rw [firstOccurrence?]
      split
      · next hfirst =>
        exact ⟨fun _ => ⟨0, List.isPrefixOf_iff_prefix.1 hfirst⟩, fun _ => rfl⟩
      · next hfirst =>
        rw [Option.isSome_map, ih]
        constructor
        · rintro ⟨n, hn⟩
          exact ⟨n + 1, hn⟩
        · rintro ⟨n, hn⟩
          cases n with
          | zero => exact absurd (List.isPrefixOf_iff_prefix.2 hn) hfirst
          | succ n => exact ⟨n, hn⟩

namespace MeasureUnit

/-- The word stands in the text after its first `n` characters. -/
def OccursAt (word text : String) (n : Nat) : Prop := word.toList <+: text.toList.drop n

instance (word text : String) (n : Nat) : Decidable (OccursAt word text n) :=
  inferInstanceAs (Decidable (_ <+: _))

variable {word text : String} {unit : MeasureUnit}

theorem marks_iff :
    unit.marks text = true ↔ (∃ n, OccursAt unit.word text n) ∧ ¬ OccursAt unit.word text 0 := by
  simp only [marks, OccursAt, List.drop_zero, ← isSome_firstOccurrence?_iff]
  cases text.toList with
  | nil => cases unit.word.toList <;> simp [firstOccurrence?]
  | cons c cs =>
      rw [firstOccurrence?]
      split
      · next hfirst => simp [List.isPrefixOf_iff_prefix.1 hfirst]
      · next hfirst =>
        rw [List.isPrefixOf_iff_prefix] at hfirst
        cases firstOccurrence? unit.word.toList cs <;> simp [hfirst]

/-- Seconds come last, when the text shows no other unit. -/
theorem ofText?_eq_seconds_iff :
    ofText? text = some seconds ↔
      milliseconds.marks text = false ∧ bytes.marks text = false ∧ seconds.marks text = true := by
  rw [ofText?, all, List.find?_cons, List.find?_cons, List.find?_cons, List.find?_nil]
  cases milliseconds.marks text <;> cases bytes.marks text <;> cases seconds.marks text <;> simp

/-- The name, or the help when the name shows no unit. -/
def decidingText (name help : String) : String := if (ofText? name).isSome then name else help

theorem infer?_eq (name help : String) : infer? name help = ofText? (decidingText name help) := by
  rw [infer?, decidingText]
  cases hname : ofText? name with
  | none => simp
  | some unit => simp [hname]

/-! ## Seconds inside milliseconds -/

/-- The word for seconds occurs where it does not end the word for milliseconds. -/
def SecondsApart (text : String) : Prop :=
  ∃ n, OccursAt seconds.word text n ∧
    ∀ k, OccursAt milliseconds.word text k →
      k + milliseconds.word.length ≠ n + seconds.word.length

theorem secondsApart_of_no_milliseconds (hseconds : ∃ n, OccursAt seconds.word text n)
    (hmilli : ¬ ∃ k, OccursAt milliseconds.word text k) : SecondsApart text := by
  obtain ⟨n, hn⟩ := hseconds
  exact ⟨n, hn, fun k hk => absurd ⟨k, hk⟩ hmilli⟩

/-- A text that begins with milliseconds shows seconds, but not milliseconds. -/
theorem marks_of_leading_milliseconds (h : OccursAt milliseconds.word text 0) :
    milliseconds.marks text = false ∧ seconds.marks text = true := by
  obtain ⟨rest, hrest⟩ := h
  rw [List.drop_zero] at hrest
  have htail : OccursAt seconds.word text 5 := by
    rw [OccursAt, ← hrest]
    exact ⟨rest, rfl⟩
  have hhead : ¬ OccursAt seconds.word text 0 := by
    rintro ⟨rest', hrest'⟩
    rw [List.drop_zero, ← hrest] at hrest'
    exact absurd (List.cons.inj hrest').1 (by decide)
  refine ⟨Bool.eq_false_iff.2 fun hmarks => (marks_iff.1 hmarks).2 ⟨rest, ?_⟩,
    marks_iff.2 ⟨⟨5, htail⟩, hhead⟩⟩
  rw [List.drop_zero, hrest]

/-- Where seconds are read off a text that does not begin with milliseconds, they stand
by themselves.  A text that does begin with milliseconds is read as seconds unless it
shows bytes. -/
theorem seconds_apart_unless_leading (name help : String) :
    (infer? name help = some seconds →
      ¬ OccursAt milliseconds.word (decidingText name help) 0 →
        SecondsApart (decidingText name help)) ∧
    (OccursAt milliseconds.word (decidingText name help) 0 →
      (infer? name help = some seconds ↔ bytes.marks (decidingText name help) = false)) := by
  rw [infer?_eq, ofText?_eq_seconds_iff]
  generalize decidingText name help = text
  constructor
  · rintro ⟨hmilli, -, hseconds⟩ hleading
    have hnone : ¬ ∃ k, OccursAt milliseconds.word text k := fun hsome =>
      absurd (marks_iff.2 ⟨hsome, hleading⟩) (Bool.eq_false_iff.1 hmilli)
    exact secondsApart_of_no_milliseconds (marks_iff.1 hseconds).1 hnone
  · intro hleading
    obtain ⟨hmilli, hseconds⟩ := marks_of_leading_milliseconds hleading
    simp [hmilli, hseconds]

theorem seconds_apart_unless_leading_sample :
    infer? "gc_pause" "Pauses in seconds." = some seconds ∧
    ¬ OccursAt milliseconds.word (decidingText "gc_pause" "Pauses in seconds.") 0 ∧
    SecondsApart (decidingText "gc_pause" "Pauses in seconds.") ∧
    OccursAt milliseconds.word (decidingText "milliseconds_busy" "") 0 ∧
    (infer? "milliseconds_busy" "" = some seconds ↔
      bytes.marks (decidingText "milliseconds_busy" "") = false) := by
  have hseconds : infer? "gc_pause" "Pauses in seconds." = some seconds := by decide
  have happart : ¬ OccursAt milliseconds.word (decidingText "gc_pause" "Pauses in seconds.") 0 := by
    decide
  have hleading : OccursAt milliseconds.word (decidingText "milliseconds_busy" "") 0 := by decide
  exact ⟨hseconds, happart, (seconds_apart_unless_leading _ _).1 hseconds happart, hleading,
    (seconds_apart_unless_leading _ _).2 hleading⟩

/-- So seconds are read out of milliseconds that begin a name. -/
theorem seconds_read_out_of_milliseconds :
    infer? "milliseconds_total" "" = some seconds ∧
    ¬ SecondsApart (decidingText "milliseconds_total" "") := by
  refine ⟨by decide, ?_⟩
  rintro ⟨n, hn, happart⟩
  have hle : n < 12 := by
    have hlength := hn.length_le
    rw [List.length_drop] at hlength
    have hword : seconds.word.toList.length = 7 := by decide
    have htext : (decidingText "milliseconds_total" "").toList.length = 18 := by decide
    omega
  have honly : ∀ n < 12,
      OccursAt seconds.word (decidingText "milliseconds_total" "") n → n = 5 := by
    decide
  obtain rfl := honly n hle hn
  exact happart 0 (by decide) (by decide)

end MeasureUnit

end MetricCatalog
