import MetricCatalog.Proofs.TableRows
import MetricCatalog.Proofs.TextPieces
/-!
# Help texts word by word

Marking words, covering bars and replacing line breaks do not get into each other's way:
a help text is shown word by word, with the spaces between the words as they are, and
each word is shown as it would be by itself.
-/

namespace MetricCatalog.Markdown

open Text

/-- Where no bar ends a cell, each has its backslash directly before it. -/
theorem covered_of_bars_eq_zero {text : String} (h : bars text = 0) {before after : List Char}
    (htext : text.toList = before ++ '|' :: after) : before.getLast? = some '\\' := by
  rw [bars, htext, countBars_append] at h
  have hbar := (Nat.add_eq_zero_iff.1 h).2
  cases hlast : before.getLast? with
  | none => simp [hlast, countBars] at hbar
  | some c =>
      by_cases hc : c = '\\'
      · rw [hc]
      · simp [hlast, countBars, hc] at hbar

theorem flatMap_intercalate {α β : Type} (f : α → List β) (separator : List α)
    (parts : List (List α)) :
    (separator.intercalate parts).flatMap f =
      (separator.flatMap f).intercalate (parts.map (·.flatMap f)) := by
  induction parts with
  | nil => rfl
  | cons part parts ih =>
      cases parts with
      | nil => simp
      | cons next parts =>
          rw [List.intercalate_cons_cons, List.flatMap_append, List.flatMap_append, ih]
          simp only [List.map_cons, List.intercalate_cons_cons]

/-- A text with its bars covered and its line breaks replaced. -/
def celled (text : String) : String := String.ofList (text.toList.flatMap cellChar)

/-- A word as a help text shows it. -/
def wordCell (words : KeySet) (word : String) : String :=
  if words.contains word then code (celled word) else celled word

theorem celled_markWord (words : KeySet) (word : List Char) :
    (markWord words word).flatMap cellChar = (wordCell words (String.ofList word)).toList := by
  have hquote : cellChar backtick = [backtick] := by decide
  rw [markWord, wordCell]
  split
  · simp [code, celled, hquote, String.toList_append]
  · simp [celled]

/-- The spaces of a help text stay, and the words between them are shown one by one. -/
theorem helpCell_eq (words : KeySet) (help : String) :
    helpCell words help = " ".intercalate ((pieces ' ' help).map (wordCell words)) := by
  rw [← String.toList_inj, String.toList_intercalate]
  calc (helpCell words help).toList
      = ([' '].intercalate ((help.toList.splitOn ' ').map (markWord words))).flatMap cellChar := by
        rw [helpCell, String.toList_ofList, List.splitOn_eq_splitOnP]
        rfl
    _ = [' '].intercalate
          (((help.toList.splitOn ' ').map (markWord words)).map (·.flatMap cellChar)) :=
        flatMap_intercalate ..
    _ = [' '].intercalate
          ((help.toList.splitOn ' ').map fun cs => (wordCell words (String.ofList cs)).toList) := by
        rw [List.map_map]
        exact congrArg _ (List.map_congr_left fun cs _ => celled_markWord words cs)
    _ = " ".toList.intercalate (((pieces ' ' help).map (wordCell words)).map String.toList) := by
        rw [pieces, List.map_map, List.map_map]
        rfl

theorem helpCell_eq_map {words : KeySet} {help : String} {cell : String → String}
    (h : ∀ word ∈ pieces ' ' help, wordCell words word = cell word) :
    helpCell words help = " ".intercalate ((pieces ' ' help).map cell) := by
  rw [helpCell_eq, List.map_congr_left h]

theorem helpCell_of_word {word : String} (h : ' ' ∉ word.toList) (words : KeySet) :
    helpCell words word = wordCell words word := by
  rw [helpCell_eq, pieces_of_not_mem h, List.map_singleton, String.intercalate_singleton]

theorem wordCell_empty (word : String) : wordCell .empty word = celled word := rfl

theorem helpCell_empty (help : String) : helpCell .empty help = celled help := by
  have hwords : (help.toList.splitOnP (· = ' ')).map (markWord .empty) =
      help.toList.splitOn ' ' := by
    rw [List.splitOn_eq_splitOnP]
    exact List.map_id' _
  rw [helpCell, hwords, List.intercalate_splitOn, celled]

/-- More words to mark put further words in backticks, and leave the rest. -/
theorem wordCell_of_subset {words more : KeySet} (h : ∀ word ∈ words, word ∈ more)
    (word : String) :
    wordCell more word =
      if more.contains word ∧ ¬ words.contains word then code (wordCell words word)
      else wordCell words word := by
  unfold wordCell
  by_cases hold : words.contains word = true
  · have hnew : more.contains word = true :=
      KeySet.contains_iff.2 (h word (KeySet.contains_iff.1 hold))
    rw [if_pos hnew, if_pos hold, if_neg fun hboth => hboth.2 hold]
  · simp only [hold, not_false_eq_true, and_true, Bool.false_eq_true, if_false]

/-- Whatever words are marked, a help text keeps to its cell.  It is shown word by word,
as without marks but for a backtick on each side of the words to mark, and more words to
mark add backticks around further words. -/
theorem helpCell_word_by_word (words : KeySet) (help : String) :
    '\n' ∉ (helpCell words help).toList ∧
    (∀ before after, (helpCell words help).toList = before ++ '|' :: after →
      before.getLast? = some '\\') ∧
    helpCell .empty help = String.ofList (help.toList.flatMap cellChar) ∧
    (∀ marked : KeySet,
      helpCell marked help = " ".intercalate ((pieces ' ' help).map (helpCell marked))) ∧
    helpCell words help = " ".intercalate ((pieces ' ' help).map fun word =>
      if words.contains word then code (helpCell .empty word) else helpCell .empty word) ∧
    ∀ more : KeySet, (∀ word ∈ words, word ∈ more) →
      helpCell more help = " ".intercalate ((pieces ' ' help).map fun word =>
        if more.contains word ∧ ¬ words.contains word then code (helpCell words word)
        else helpCell words word) := by
  have hword (marked : KeySet) : ∀ word ∈ pieces ' ' help,
      helpCell marked word = wordCell marked word := fun word hword =>
    helpCell_of_word (not_mem_of_mem_pieces hword) marked
  refine ⟨List.count_eq_zero.1 (lineBreaks_helpCell words help),
    fun _ _ => covered_of_bars_eq_zero (bars_helpCell words help), helpCell_empty help,
    fun marked => ?_, ?_, fun more hmore => ?_⟩
  · exact helpCell_eq_map fun word h => (hword marked word h).symm
  · exact helpCell_eq_map fun word h => by rw [hword .empty word h, wordCell_empty, wordCell]
  · exact helpCell_eq_map fun word h => by rw [hword words word h, wordCell_of_subset hmore]

/-- A help text with an empty word, a bar and a line break, under few words and more. -/
theorem helpCell_word_by_word_sample :
    (helpCell (.ofList ["RSS"]) "RSS  a|b\nRSS RSS").toList =
      "\x60RSS\x60  a\\".toList ++ '|' :: "b<br>RSS \x60RSS\x60".toList ∧
    "\x60RSS\x60  a\\".toList.getLast? = some '\\' ∧
    (∀ word ∈ KeySet.ofList ["RSS"], word ∈ KeySet.ofList ["", "RSS", "a|b\nRSS"]) ∧
    helpCell (.ofList ["", "RSS", "a|b\nRSS"]) "RSS  a|b\nRSS RSS" =
      "\x60RSS\x60 \x60\x60 \x60a\\|b<br>RSS\x60 \x60RSS\x60" := by
  obtain ⟨-, hbars, -, -, -, hmore⟩ :=
    helpCell_word_by_word (.ofList ["RSS"]) "RSS  a|b\nRSS RSS"
  have htext : (helpCell (.ofList ["RSS"]) "RSS  a|b\nRSS RSS").toList =
      "\x60RSS\x60  a\\".toList ++ '|' :: "b<br>RSS \x60RSS\x60".toList := by
    decide
  have hsubset : ∀ word ∈ KeySet.ofList ["RSS"],
      word ∈ KeySet.ofList ["", "RSS", "a|b\nRSS"] := by
    simp
  refine ⟨htext, hbars _ _ htext, hsubset, (hmore _ hsubset).trans ?_⟩
  decide

end MetricCatalog.Markdown
