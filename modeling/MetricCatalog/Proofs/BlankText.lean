import MetricCatalog.Text.Blank
import Mathlib.Data.List.TakeWhile
/-!
# Blanks around a text

A text is its margin, its trimmed part and a trail, and its first word is what
stands before the next blank.  These facts say what trimming and taking a word
do to a text that is put together from such parts.
-/

namespace MetricCatalog.Text

/-- Every character is a blank. -/
def Blank (cs : List Char) : Prop := ∀ c ∈ cs, isBlank c = true

/-- No character is a blank. -/
def Solid (cs : List Char) : Prop := ∀ c ∈ cs, isBlank c = false

/-- The text is empty or begins with a blank. -/
def StartsBlank (cs : List Char) : Prop := ∀ c ∈ cs.head?, isBlank c = true

/-- Decided member by member, and not by trying every character there is. -/
instance decidableForallText {p : Char → Prop} [DecidablePred p] (cs : List Char) :
    Decidable (∀ c ∈ cs, p c) :=
  List.decidableBAll p cs

instance decidableForallEnd {p : Char → Prop} [DecidablePred p] (c? : Option Char) :
    Decidable (∀ c ∈ c?, p c) :=
  Option.decidableForallMem c?

instance (cs : List Char) : Decidable (Blank cs) :=
  decidableForallText cs

instance (cs : List Char) : Decidable (Solid cs) :=
  decidableForallText cs

instance (cs : List Char) : Decidable (StartsBlank cs) :=
  decidableForallEnd cs.head?

theorem isEmpty_eq_false {s : String} (h : s.toList ≠ []) : s.isEmpty = false := by
  rw [← Bool.not_eq_true, String.isEmpty_iff]
  rintro rfl
  exact h rfl

theorem blank_nil : Blank [] := fun _ h => nomatch h

theorem Blank.append {cs ds : List Char} (hc : Blank cs) (hd : Blank ds) : Blank (cs ++ ds) :=
  fun c h => (List.mem_append.1 h).elim (hc c) (hd c)

theorem Blank.startsBlank {cs : List Char} (h : Blank cs) : StartsBlank cs :=
  fun c hc => h c (List.mem_of_mem_head? hc)

theorem StartsBlank.append {cs ds : List Char} (hc : StartsBlank cs) (hd : StartsBlank ds) :
    StartsBlank (cs ++ ds) := by
  cases cs with
  | nil => exact hd
  | cons c cs => exact hc

/-! ## The part before a character of a class -/

section

variable {p : Char → Bool} {cs ds : List Char}

theorem takeWhile_append_stop (hc : ∀ c ∈ cs, p c = true) (hd : ∀ d ∈ ds.head?, p d = false) :
    (cs ++ ds).takeWhile p = cs := by
  rw [List.takeWhile_append_of_pos hc]
  cases ds with
  | nil => exact List.append_nil _
  | cons d ds => rw [List.takeWhile_cons_of_neg (by simp [hd d rfl]), List.append_nil]

theorem dropWhile_append_stop (hc : ∀ c ∈ cs, p c = true) (hd : ∀ d ∈ ds.head?, p d = false) :
    (cs ++ ds).dropWhile p = ds := by
  rw [List.dropWhile_append_of_pos hc]
  cases ds with
  | nil => rfl
  | cons d ds => rw [List.dropWhile_cons_of_neg (by simp [hd d rfl])]

theorem head?_dropWhile_stop (p : Char → Bool) (cs : List Char) :
    ∀ d ∈ (cs.dropWhile p).head?, p d = false := by
  intro d hd
  have hne : cs.dropWhile p ≠ [] := fun h => by rw [h] at hd; cases hd
  rw [List.head?_eq_some_head hne] at hd
  rw [← Option.some.inj hd]
  exact List.head_dropWhile_not p hne

end

/-! ## Trimming -/

variable {cs ds : List Char} {c : Char}

theorem trimStart_append_of_blank (h : Blank cs) : trimStart (cs ++ ds) = trimStart ds :=
  List.dropWhile_append_of_pos h

theorem trimStart_cons (h : isBlank c = false) : trimStart (c :: cs) = c :: cs :=
  List.dropWhile_cons_of_neg (by simp [h])

/-- What is dropped in front is blank. -/
theorem exists_margin (cs : List Char) : ∃ margin, Blank margin ∧ cs = margin ++ trimStart cs :=
  ⟨cs.takeWhile isBlank, fun _ h => (List.mem_takeWhile_imp h),
    List.takeWhile_append_dropWhile.symm⟩

theorem trimStart_eq_cons_iff {rest : List Char} (h : isBlank c = false) :
    trimStart cs = c :: rest ↔ ∃ margin, Blank margin ∧ cs = margin ++ c :: rest := by
  constructor
  · intro ht
    obtain ⟨margin, hmargin, hcs⟩ := exists_margin cs
    exact ⟨margin, hmargin, ht ▸ hcs⟩
  · rintro ⟨margin, hmargin, rfl⟩
    rw [trimStart_append_of_blank hmargin, trimStart_cons h]

/-- A character that is not blank keeps what stands before it. -/
theorem trimEnd_append_cons (h : isBlank c = false) :
    trimEnd (cs ++ c :: ds) = cs ++ c :: trimEnd ds := by
  rw [trimEnd, trimEnd, List.reverse_append, List.reverse_cons, List.append_assoc,
    List.dropWhile_append]
  split
  · next hempty =>
    rw [List.isEmpty_iff.1 hempty, List.singleton_append,
      List.dropWhile_cons_of_neg (by simp [h])]
    simp
  · simp

/-- What is dropped at the end is blank. -/
theorem exists_trail (cs : List Char) : ∃ trail, Blank trail ∧ cs = trimEnd cs ++ trail := by
  obtain ⟨margin, hmargin, hcs⟩ := exists_margin cs.reverse
  refine ⟨margin.reverse, fun c hc => hmargin c (List.mem_reverse.1 hc), ?_⟩
  rw [trimEnd, ← List.reverse_append]
  exact (List.reverse_eq_iff.1 hcs)

theorem exists_margins (cs : List Char) :
    ∃ margin trail, Blank margin ∧ Blank trail ∧ cs = margin ++ trim cs ++ trail := by
  obtain ⟨margin, hmargin, hcs⟩ := exists_margin cs
  obtain ⟨trail, htrail, hcs'⟩ := exists_trail (trimStart cs)
  refine ⟨margin, trail, hmargin, htrail, ?_⟩
  rw [trim, List.append_assoc, ← hcs', ← hcs]

/-- A solid part in the middle stays, and so does all that stands before it. -/
theorem trimEnd_append_solid {word tail : List Char} (hne : word ≠ []) (h : Solid word) :
    trimEnd (cs ++ word ++ tail) = cs ++ word ++ trimEnd tail := by
  have hlast : isBlank (word.getLast hne) = false := h _ (List.getLast_mem hne)
  have hword : cs ++ word = (cs ++ word.dropLast) ++ [word.getLast hne] := by
    rw [List.append_assoc, List.dropLast_concat_getLast]
  rw [hword, List.append_assoc, List.singleton_append, trimEnd_append_cons hlast,
    ← List.append_cons]

/-- A text that trimming leaves as it is. -/
structure Trimmed (cs : List Char) : Prop where
  head : ∀ c ∈ cs.head?, isBlank c = false
  last : ∀ c ∈ cs.getLast?, isBlank c = false

instance (cs : List Char) : Decidable (Trimmed cs) :=
  decidable_of_iff
    ((∀ c ∈ cs.head?, isBlank c = false) ∧ ∀ c ∈ cs.getLast?, isBlank c = false)
    ⟨fun ⟨hhead, hlast⟩ => ⟨hhead, hlast⟩, fun ⟨hhead, hlast⟩ => ⟨hhead, hlast⟩⟩

theorem Trimmed.trimStart_eq (h : Trimmed cs) : trimStart cs = cs := by
  cases cs with
  | nil => rfl
  | cons c cs => exact trimStart_cons (h.head c rfl)

theorem Trimmed.trimEnd_append (h : Trimmed cs) (hne : cs ≠ []) (before : List Char) :
    trimEnd (before ++ cs) = before ++ cs := by
  have hlast : isBlank (cs.getLast hne) = false := h.last _ (List.getLast?_eq_some_getLast hne)
  rw [← List.dropLast_concat_getLast hne, ← List.append_assoc, trimEnd_append_cons hlast]
  rfl

theorem Trimmed.trim_eq (h : Trimmed cs) : trim cs = cs := by
  rw [trim, h.trimStart_eq]
  cases cs with
  | nil => rfl
  | cons c cs => exact h.trimEnd_append (List.cons_ne_nil _ _) []

/-- A blank in front of it is all that trimming takes. -/
theorem Trimmed.trimStart_trimEnd (h : Trimmed cs) : trimStart (trimEnd (' ' :: cs)) = cs := by
  cases cs with
  | nil => rfl
  | cons c cs =>
      have hend : trimEnd (' ' :: c :: cs) = ' ' :: c :: cs :=
        h.trimEnd_append (List.cons_ne_nil _ _) [' ']
      rw [hend]
      exact h.trimStart_eq

theorem trimmed_of_solid (h : Solid cs) : Trimmed cs where
  head c hc := h c (List.mem_of_mem_head? hc)
  last c hc := h c (List.mem_of_getLast? hc)

theorem trimmed_trim (cs : List Char) : Trimmed (trim cs) where
  head c hc := by
    obtain ⟨trail, -, htrail⟩ := exists_trail (trimStart cs)
    have hstart : c ∈ (trimStart cs).head? := by
      rw [htrail, List.head?_append, ← trim, Option.mem_def.1 hc]
      rfl
    exact head?_dropWhile_stop isBlank cs c hstart
  last c hc := by
    rw [trim, trimEnd, List.getLast?_reverse] at hc
    exact head?_dropWhile_stop isBlank _ c hc

theorem trimEnd_append_of_blank (h : Blank ds) : trimEnd (cs ++ ds) = trimEnd cs := by
  rw [trimEnd, trimEnd, List.reverse_append,
    List.dropWhile_append_of_pos fun c hc => h c (List.mem_reverse.1 hc)]

/-- Trimming takes the blanks around a text off and nothing else. -/
theorem Trimmed.trim_margins {margin trail : List Char} (h : Trimmed cs) (hmargin : Blank margin)
    (htrail : Blank trail) : trim (margin ++ cs ++ trail) = cs := by
  rw [trim, List.append_assoc, trimStart_append_of_blank hmargin]
  cases cs with
  | nil =>
      have hnone : trimStart trail = [] := List.dropWhile_eq_nil_iff.2 htrail
      rw [List.nil_append, hnone]
      rfl
  | cons c cs =>
      have hstart : trimStart (c :: cs ++ trail) = c :: cs ++ trail := trimStart_cons (h.head c rfl)
      rw [hstart, trimEnd_append_of_blank htrail]
      exact h.trimEnd_append (List.cons_ne_nil _ _) []

/-! ## The first word -/

theorem splitWord_append {gap word tail : List Char} (hgap : Blank gap) (hword : Solid word)
    (hne : word ≠ []) (htail : StartsBlank tail) :
    splitWord (gap ++ word ++ tail) = (word, trimStart tail) := by
  have hstart : trimStart (gap ++ word ++ tail) = word ++ tail := by
    cases word with
    | nil => exact absurd rfl hne
    | cons c word =>
        rw [List.append_assoc, trimStart_append_of_blank hgap]
        exact trimStart_cons (hword c (List.mem_cons_self ..))
  have hin : ∀ c ∈ word, (!isBlank c) = true := fun c hc => by rw [hword c hc]; rfl
  have hout : ∀ c ∈ tail.head?, (!isBlank c) = false := fun c hc => by rw [htail c hc]; rfl
  rw [splitWord, hstart, takeWhile_append_stop hin hout, dropWhile_append_stop hin hout]

/-- The word stands after blanks, is solid, and a blank or nothing follows it. -/
theorem exists_word (cs : List Char) :
    ∃ gap tail, Blank gap ∧ Solid (splitWord cs).1 ∧ StartsBlank tail ∧
      cs = gap ++ (splitWord cs).1 ++ tail := by
  obtain ⟨gap, hgap, hcs⟩ := exists_margin cs
  refine ⟨gap, (trimStart cs).dropWhile (!isBlank ·), hgap, fun c hc => ?_, fun c hc => ?_, ?_⟩
  · simpa using List.mem_takeWhile_imp hc
  · simpa using head?_dropWhile_stop _ _ c hc
  · rw [splitWord, List.append_assoc, List.takeWhile_append_dropWhile, ← hcs]

end MetricCatalog.Text
