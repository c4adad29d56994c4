import MetricCatalog.Proofs.QuotedText
import Mathlib.Algebra.Group.Nat.Defs
/-!
# Single and double quotes

Single quotes spell every character by itself, but for the quote, and allow line
breaks.  Double quotes spell what does not print, and the line breaks, by escapes.
-/

namespace MetricCatalog.Yaml

open Cursor

/-! ## Hexadecimal numbers -/

theorem upperDigit {d : Nat} (hd : d < 16) :
    isHexDigit d.digitChar.toUpper = true ∧ hexValue d.digitChar.toUpper = d := by
  revert d
  decide

/-- The number that hexadecimal digits write. -/
def hexNumber (digits : List Char) : Nat := digits.foldl (fun n d => 16 * n + hexValue d) 0

theorem hexNumber_concat (digits : List Char) (d : Char) :
    hexNumber (digits ++ [d]) = 16 * hexNumber digits + hexValue d := by
  simp [hexNumber]

/-- The digits of a number in upper case. -/
def upperDigits (n : Nat) : List Char := (Nat.toDigits 16 n).map Char.toUpper

theorem upperDigits_step {n : Nat} (h : 16 ≤ n) :
    upperDigits n = upperDigits (n / 16) ++ [(n % 16).digitChar.toUpper] := by
  rw [upperDigits, Nat.toDigits_of_base_le (by decide) h]
  simp [upperDigits]

theorem upperDigits_spec (n : Nat) :
    (∀ d ∈ upperDigits n, isHexDigit d = true) ∧ hexNumber (upperDigits n) = n := by
  induction n using Nat.strongRecOn with
  | ind n ih =>
    by_cases hn : n < 16
    · have hone : upperDigits n = [n.digitChar.toUpper] := by
        simp [upperDigits, Nat.toDigits_of_lt_base hn]
      obtain ⟨hdigit, hvalue⟩ := upperDigit hn
      rw [hone]
      exact ⟨by simpa using hdigit, by simpa [hexNumber] using hvalue⟩
    · obtain ⟨hdigits, hvalue⟩ := ih (n / 16) (by omega)
      obtain ⟨hdigit, hlast⟩ := upperDigit (Nat.mod_lt n (by decide : 16 > 0))
      rw [upperDigits_step (by omega)]
      refine ⟨fun d hd => ?_, ?_⟩
      · rcases List.mem_append.1 hd with hd | hd
        · exact hdigits d hd
        · rwa [List.mem_singleton.1 hd]
      · rw [hexNumber_concat, hvalue, hlast]
        omega

theorem hexPadded_spec {width n : Nat} (hwidth : 0 < width) (hn : n < 16 ^ width) :
    (hexPadded width n).length = width ∧ (∀ d ∈ hexPadded width n, isHexDigit d = true) ∧
      hexNumber (hexPadded width n) = n := by
  obtain ⟨hdigits, hvalue⟩ := upperDigits_spec n
  have hlength : (upperDigits n).length ≤ width := by
    rw [upperDigits, List.length_map]
    exact (Nat.length_toDigits_le_iff (by decide) hwidth).2 hn
  have hzeros (count : Nat) : hexNumber (List.replicate count '0' ++ upperDigits n) = n := by
    induction count with
    | zero => exact hvalue
    | succ count ih => exact ih
  refine ⟨?_, fun d hd => ?_, hzeros _⟩
  · show (List.replicate (width - (upperDigits n).length) '0' ++ upperDigits n).length = width
    rw [List.length_append, List.length_replicate]
    omega
  · rcases List.mem_append.1 hd with hd | hd
    · rw [List.eq_of_mem_replicate hd]
      decide
    · exact hdigits d hd

/-! ## Spellings -/

/-- A character that has no meaning of its own between these quotes. -/
theorem spells_self {quote x : Char} (hblank : (isSpace x || isBreak x) = false)
    (hquote : x ≠ quote) (hescape : quote = '"' → x ≠ '\\') : Spells quote x [x] where
  ne := List.cons_ne_nil _ _
  read c rest taken fuel hrest := by
    refine ⟨c.skip, passes_skip hrest, ?_⟩
    rw [readQuotedRun, hrest]
    have hdoubled : ¬(quote = '\'' ∧ x = '\'') := fun ⟨hq, hx⟩ => hquote (hx.trans hq.symm)
    have hbackslash : ¬(quote = '"' ∧ x = '\\') := fun ⟨hq, hx⟩ => hescape hq hx
    simp [hblank, hquote, hbackslash]
    intro hq hx
    exact absurd ⟨hq, hx⟩ hdoubled

/-- A single quote is written twice. -/
def singleSpelling (x : Char) : List Char := if x = '\'' then ['\'', '\''] else [x]

theorem spells_single {x : Char} (hblank : (isSpace x || isBreak x) = false) :
    Spells '\'' x (singleSpelling x) := by
  unfold singleSpelling
  split
  · next hx =>
    subst hx
    refine ⟨List.cons_ne_nil _ _, fun c rest taken fuel hrest => ⟨c.skip 2, passes_skip hrest, ?_⟩⟩
    rw [readQuotedRun, hrest]
    simp [isSpace, isBreak]
  · next hx => exact spells_self hblank hx (fun h => absurd h (by decide))

theorem spells_escape {x : Char} {letters : List Char}
    (hread : ∀ (c : Cursor) (rest : List Char), c.rest = letters ++ rest →
      readEscape c = .ok (x, c.skip letters.length))
    (hbreak : ∃ letter more, letters = letter :: more ∧ isBreak letter = false) :
    Spells '"' x ('\\' :: letters) where
  ne := List.cons_ne_nil _ _
  read c rest taken fuel hrest := by
    have hrest' : c.rest = ['\\'] ++ (letters ++ rest) := hrest
    have hskip := rest_skip hrest'
    refine ⟨c.skip.skip letters.length, (passes_skip hrest').trans (passes_skip hskip), ?_⟩
    obtain ⟨letter, more, rfl, hbreak⟩ := hbreak
    rw [readQuotedRun, hrest']
    have hescape := hread c.skip rest hskip
    simp [isSpace, (by decide : isBreak '\\' = false), hbreak, hescape, bind, Except.bind]

theorem escapedChar?_of_escapeLetter? {x letter : Char} (h : escapeLetter? x = some letter) :
    escapedChar? letter = some x ∧ isBreak letter = false := by
  have hpairs : ∀ p ∈ [('\x00', '0'), ('\x07', 'a'), ('\x08', 'b'), ('\t', 't'), ('\n', 'n'),
      ('\x0b', 'v'), ('\x0c', 'f'), ('\r', 'r'), ('\x1b', 'e'), ('"', '"'), ('\\', '\\'),
      ('\u0085', 'N'), ('\u00a0', '_'), ('\u2028', 'L'), ('\u2029', 'P')],
      escapedChar? p.2 = some p.1 ∧ isBreak p.2 = false := by decide
  obtain ⟨before, after, hlist, -⟩ := List.lookup_eq_some_iff.1 h
  exact hpairs (x, letter) (hlist ▸ List.mem_append_right _ List.mem_cons_self)

/-- An escape by number, in as many digits as its letter announces. -/
theorem readEscape_number {x mark : Char} {width : Nat} (hmark : escapedChar? mark = none)
    (hwidth : escapeWidth? mark = some width) (hpos : 0 < width) (hx : x.toNat < 16 ^ width)
    (c : Cursor) (rest : List Char) (hrest : c.rest = mark :: hexPadded width x.toNat ++ rest) :
    readEscape c = .ok (x, c.skip (mark :: hexPadded width x.toNat).length) := by
  obtain ⟨hlength, hdigits, hnumber⟩ := hexPadded_spec hpos hx
  generalize hexPadded width x.toNat = digits at *
  subst hlength
  have htake : (c.rest.drop 1).take digits.length = digits := by simp [hrest]
  have hpeek : c.peek? = some mark := by rw [peek?, hrest]; rfl
  have hall : digits.all isHexDigit = true := List.all_eq_true.2 hdigits
  have hvalid : x.toNat.isValidChar := x.valid
  unfold hexNumber at hnumber
  rw [readEscape, hpeek]
  dsimp only
  rw [hmark]
  dsimp only
  rw [hwidth]
  dsimp only
  rw [htake, hnumber, hall, if_pos (by simp [hvalid])]
  simp

theorem spells_double {x : Char} (hx : x ≠ ' ') : Spells '"' x (doubleQuotedChar x) := by
  unfold doubleQuotedChar
  split
  · next h =>
    simp only [Bool.and_eq_true, Bool.not_eq_true', bne_iff_ne, ne_eq] at h
    obtain ⟨⟨⟨hprintable, hbreak⟩, hquote⟩, hbackslash⟩ := h
    have hspace : isSpace x = false := by
      cases hspace : isSpace x with
      | false => rfl
      | true => exact absurd (isSpace_of_isPrintable hprintable hspace) hx
    exact spells_self (by rw [hspace, hbreak]; rfl) hquote fun _ => hbackslash
  · split
    · next letter hletter =>
      obtain ⟨hescaped, hbreak⟩ := escapedChar?_of_escapeLetter? hletter
      refine spells_escape (fun c rest hrest => ?_) ⟨letter, [], rfl, hbreak⟩
      rw [readEscape, peek?, hrest]
      simp [hescaped]
    · dsimp only
      split
      · next hn =>
        exact spells_escape (readEscape_number (by decide) (by decide) (by decide) (by omega))
          ⟨'x', _, rfl, by decide⟩
      · split
        · next hn =>
          exact spells_escape (readEscape_number (by decide) (by decide) (by decide) (by omega))
            ⟨'u', _, rfl, by decide⟩
        · next hn =>
          exact spells_escape (readEscape_number (by decide) (by decide) (by decide)
            (Nat.lt_of_lt_of_le x.val.toNat_lt (by decide)))
            ⟨'U', _, rfl, by decide⟩

/-! ## Double quotes -/

theorem flatMap_indentation {spelling : Char → List Char} (h : spelling ' ' = [' '])
    (count : Nat) : (indentation count).flatMap spelling = indentation count := by
  induction count with
  | zero => rfl
  | succ count ih =>
      rw [indentation, List.replicate_succ, List.flatMap_cons, h, ← indentation, ih]
      rfl

theorem solid_double {x : Char} {rest : List Char} (hx : x ≠ ' ') :
    Solid (doubleQuotedChar x ++ rest) := by
  unfold doubleQuotedChar
  split
  · next h =>
    simp only [Bool.and_eq_true, Bool.not_eq_true', bne_iff_ne, ne_eq] at h
    have hspace : isSpace x = false := by
      cases hspace : isSpace x with
      | false => rfl
      | true => exact absurd (isSpace_of_isPrintable h.1.1.1 hspace) hx
    simp [Solid, hspace, h.1.1.2]
  · split <;> exact (by decide : (isSpace '\\' || isBreak '\\') = false)

theorem quoted_double (indent : Nat) (cs : List Char) :
    Quoted '"' doubleQuotedChar indent cs (cs.flatMap doubleQuotedChar) := by
  induction hlength : cs.length using Nat.strongRecOn generalizing cs with
  | ind length ih =>
    obtain ⟨run, behind, rfl, hrun, hbehind⟩ := exists_span (· ≠ ' ') cs
    have hspells : ∀ x ∈ run, Spells '"' x (doubleQuotedChar x) :=
      fun x hx => spells_double (by simpa using hrun x hx)
    cases behind with
    | nil =>
        rw [List.append_nil]
        exact .run hspells
    | cons x behind =>
        obtain rfl : x = ' ' := by simpa using hbehind
        obtain ⟨count, more, hline, hmore⟩ := exists_blanks behind
        rw [hline, List.flatMap_append, List.flatMap_append, flatMap_indentation (by decide)]
        refine .blanks hspells ?_ (ih more.length ?_ more rfl)
        · cases more with
          | nil => rfl
          | cons y more =>
              rw [List.flatMap_cons]
              exact solid_double (by simpa using hmore)
        · rw [← hlength, hline]
          simp [indentation]
          omega

/-! ## Single quotes -/

section

variable {p q : Char → Bool} {rest : List Char}

theorem hasNeighbours_append (text : List Char) (h : hasNeighbours p q (text ++ rest) = false) :
    hasNeighbours p q rest = false := by
  induction text with
  | nil => exact h
  | cons x text ih =>
      refine ih ?_
      rw [List.cons_append] at h
      cases hmore : text ++ rest with
      | nil => rfl
      | cons y more =>
          rw [hmore] at h
          simp only [hasNeighbours, Bool.or_eq_false_iff] at h
          exact h.2

theorem not_neighbours (text : List Char) {x y : Char}
    (h : hasNeighbours p q (text ++ x :: y :: rest) = false) (hx : p x = true) : q y = false := by
  have h := hasNeighbours_append text h
  simp only [hasNeighbours, hx, Bool.true_and, Bool.or_eq_false_iff] at h
  exact h.1

end

/-- A text that can be written between single quotes. -/
structure SingleQuotable (cs : List Char) : Prop where
  printable : ∀ x ∈ cs, isPrintable x = true
  no_newline : ∀ x ∈ cs, x ≠ '\n'
  space_break : hasNeighbours (· = ' ') isBreak cs = false
  break_space : hasNeighbours isBreak (· = ' ') cs = false

theorem SingleQuotable.behind {text rest : List Char} (h : SingleQuotable (text ++ rest)) :
    SingleQuotable rest where
  printable x hx := h.printable x (List.mem_append_right _ hx)
  no_newline x hx := h.no_newline x (List.mem_append_right _ hx)
  space_break := hasNeighbours_append text h.space_break
  break_space := hasNeighbours_append text h.break_space

/-- Blanks and line breaks are not next to each other. -/
theorem SingleQuotable.solid {text more : List Char} {x : Char}
    (h : SingleQuotable (text ++ ([x] ++ more))) (hx : (isSpace x || isBreak x) = true)
    (hspace : x = ' ' → more.head? ≠ some ' ')
    (hbreak : isBreak x = true → more.head?.any isBreak = false) : Solid more := by
  cases more with
  | nil => rfl
  | cons y more =>
      have hy : isBreak y = false ∧ y ≠ ' ' := by
        rcases Bool.or_eq_true_iff.1 hx with hx | hx
        · obtain rfl := isSpace_of_isPrintable (h.printable x (by simp)) hx
          exact ⟨not_neighbours text h.space_break (by decide), fun hy => hspace rfl (by simp [hy])⟩
        · exact ⟨by simpa using hbreak hx, by simpa using not_neighbours text h.break_space hx⟩
      have hspace : isSpace y = false := by
        cases hspace : isSpace y with
        | false => rfl
        | true => exact absurd (isSpace_of_isPrintable (h.printable y (by simp)) hspace) hy.2
      simp [Solid, hspace, hy.1]

theorem singleQuotedBody_run (indent : Nat) {run : List Char}
    (hrun : ∀ x ∈ run, isBreak x = false) (more : List Char) :
    singleQuotedBody indent false (run ++ more) =
      run.flatMap singleSpelling ++ singleQuotedBody indent false more := by
  induction run with
  | nil => rfl
  | cons x run ih =>
      obtain ⟨hx, hrun⟩ := List.forall_mem_cons.1 hrun
      simp [singleQuotedBody, hx, ih hrun, singleSpelling]

theorem singleQuotedBody_breaks (indent : Nat) {breaks : List Char} (hne : breaks ≠ [])
    (hbreaks : ∀ b ∈ breaks, isBreak b = true) {more : List Char}
    (hmore : more.head?.any isBreak = false) (afterBreak : Bool) :
    singleQuotedBody indent afterBreak (breaks ++ more) =
      breaks ++ (indentation indent ++ singleQuotedBody indent false more) := by
  induction breaks generalizing afterBreak with
  | nil => exact absurd rfl hne
  | cons b breaks ih =>
      obtain ⟨hb, hbreaks⟩ := List.forall_mem_cons.1 hbreaks
      have hstep : singleQuotedBody indent afterBreak (b :: breaks ++ more) =
          b :: singleQuotedBody indent true (breaks ++ more) := by
        simp [singleQuotedBody, hb]
      rw [hstep]
      cases breaks with
      | nil =>
          cases more with
          | nil => simp [singleQuotedBody]
          | cons x more =>
              have hx : isBreak x = false := by simpa using hmore
              simp [singleQuotedBody, hx]
      | cons b' breaks => rw [ih (List.cons_ne_nil _ _) hbreaks true]; rfl

theorem solid_single (indent : Nat) {more : List Char} (h : Solid more) :
    Solid (singleQuotedBody indent false more) := by
  cases more with
  | nil => rfl
  | cons x more =>
      have hx : (isSpace x || isBreak x) = false := h
      obtain ⟨hspace, hbreak⟩ := Bool.or_eq_false_iff.1 hx
      unfold singleQuotedBody Solid
      by_cases hquote : x = '\''
      · simp [hquote, isSpace, (by decide : isBreak '\'' = false)]
      · simp [hbreak, hquote, hspace]

theorem quoted_single (indent : Nat) {cs : List Char} (h : SingleQuotable cs) :
    Quoted '\'' singleSpelling indent cs (singleQuotedBody indent false cs) := by
  induction hlength : cs.length using Nat.strongRecOn generalizing cs with
  | ind length ih =>
    obtain ⟨run, behind, rfl, hrun, hbehind⟩ :=
      exists_span (fun x => !(isSpace x || isBreak x)) cs
    have hblank : ∀ x ∈ run, (isSpace x || isBreak x) = false :=
      fun x hx => by simpa using hrun x hx
    have hspells : ∀ x ∈ run, Spells '\'' x (singleSpelling x) :=
      fun x hx => spells_single (hblank x hx)
    rw [singleQuotedBody_run indent fun x hx => (Bool.or_eq_false_iff.1 (hblank x hx)).2]
    cases behind with
    | nil =>
        have hrun : Quoted '\'' singleSpelling indent run (run.flatMap singleSpelling) :=
          .run hspells
        simpa [singleQuotedBody] using hrun
    | cons x behind =>
        have hx : isSpace x = false → isBreak x = true := by simpa using hbehind
        cases hspace : isSpace x with
        | true =>
            obtain rfl : x = ' ' := isSpace_of_isPrintable (h.printable x (by simp)) hspace
            obtain ⟨count, more, hline, hmore⟩ := exists_blanks behind
            rw [hline] at h hlength ⊢
            have hsolid : Solid more := by
              have h := h
              rw [indentation, List.replicate_succ', List.append_assoc] at h
              exact h.behind.solid (by decide) (fun _ => hmore) (fun h => absurd h (by decide))
            rw [singleQuotedBody_run indent (fun x hx => by
              rw [List.eq_of_mem_replicate hx]; decide), flatMap_indentation (by decide)]
            refine .blanks hspells (solid_single indent hsolid)
              (ih more.length ?_ h.behind.behind rfl)
            rw [← hlength]
            simp [indentation]
            omega
        | false =>
            have hbreak := hx hspace
            obtain ⟨breaks, more, rfl, hbreaks, hmore⟩ := exists_span isBreak behind
            have hall : ∀ b ∈ x :: breaks, isBreak b = true :=
              List.forall_mem_cons.2 ⟨hbreak, hbreaks⟩
            rw [← List.cons_append] at h hlength ⊢
            have hsolid : Solid more := by
              have hlast := hall _ (List.getLast_mem (List.cons_ne_nil x breaks))
              have h := h
              rw [← List.dropLast_concat_getLast (List.cons_ne_nil x breaks),
                List.append_assoc] at h
              refine h.behind.solid (by simp [hlast]) (fun heq => ?_) (fun _ => hmore)
              rw [heq] at hlast
              exact absurd hlast (by decide)
            rw [singleQuotedBody_breaks indent (List.cons_ne_nil _ _) hall hmore]
            refine .breaks hspells (List.cons_ne_nil _ _) (fun b hb => ⟨?_, hall b hb, ?_⟩)
              (solid_single indent hsolid) (ih more.length ?_ h.behind.behind rfl)
            · exact h.printable b (List.mem_append_right _ (List.mem_append_left _ hb))
            · exact h.no_newline b (List.mem_append_right _ (List.mem_append_left _ hb))
            · rw [← hlength]
              simp
              omega

theorem singleQuotable_of_allows {cs : List Char} (h : allowsSingleQuotes cs = true)
    (hnewline : cs.contains '\n' = false) : SingleQuotable cs := by
  simp only [allowsSingleQuotes, needsEscapes, Bool.not_eq_true', Bool.or_eq_false_iff,
    List.any_eq_false] at h
  obtain ⟨⟨hspace, hprintable⟩, hbreak⟩ := h
  exact {
    printable := fun x hx => by simpa using hprintable x hx
    no_newline := fun x hx hnew => by
      rw [← Bool.not_eq_true, List.contains_iff_mem] at hnewline
      exact hnewline (hnew ▸ hx)
    space_break := hspace
    break_space := hbreak }

/-! ## Whole scalars -/

variable {c : Cursor} {cs rest : List Char} {indent : Nat}

theorem Quoted.readQuoted {quote : Char} (hquote : IsQuote quote) {spelling : Char → List Char}
    (hindent : indent ≠ 0) {body : List Char} (h : Quoted quote spelling indent cs body)
    (hrest : c.rest = quote :: body ++ quote :: rest)
    (hafter : quote = '\'' → rest.head? ≠ some '\'') :
    ∃ c', c'.rest = rest ∧ readQuoted quote c = .ok (String.ofList cs, c') := by
  have hrest' : c.rest = [quote] ++ (body ++ quote :: rest) := hrest
  have hskip : c.skip.rest = body ++ quote :: rest := rest_skip hrest'
  have hleft : c.skip.left < c.left + 1 := by
    have := (passes_skip hrest').left
    simp only [List.length_singleton] at this
    omega
  obtain ⟨c', hrest', hread⟩ :=
    h.read hquote hindent hafter [] hskip (Nat.succ_ne_zero c.column) hleft
  refine ⟨c', hrest', ?_⟩
  rw [Yaml.readQuoted, hread]
  simp [bind, Except.bind, pure, Except.pure]

theorem readQuoted_single (h : SingleQuotable cs) (hindent : indent ≠ 0)
    (hrest : c.rest = '\'' :: singleQuotedBody indent false cs ++ '\'' :: rest)
    (hafter : rest.head? ≠ some '\'') :
    ∃ c', c'.rest = rest ∧ readQuoted '\'' c = .ok (String.ofList cs, c') :=
  (quoted_single indent h).readQuoted (.inl rfl) hindent hrest fun _ => hafter

theorem readQuoted_double (hrest : c.rest = '"' :: cs.flatMap doubleQuotedChar ++ '"' :: rest) :
    ∃ c', c'.rest = rest ∧ readQuoted '"' c = .ok (String.ofList cs, c') :=
  (quoted_double 1 cs).readQuoted (.inr rfl) Nat.one_ne_zero hrest fun h => absurd h (by decide)

end MetricCatalog.Yaml
