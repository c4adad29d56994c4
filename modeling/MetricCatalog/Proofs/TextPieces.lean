/-!
# Texts in pieces

A separator divides a text into pieces, and empty pieces count.  They are the only
texts without the separator that joining with it makes the whole of.
-/

namespace MetricCatalog.Text

/-- No piece holds a separator. -/
theorem not_of_mem_splitOnP {α : Type} {p : α → Bool} {as piece : List α}
    (h : piece ∈ as.splitOnP p) : ∀ a ∈ piece, p a = false := by
  induction as generalizing piece with
  | nil =>
      rw [List.splitOnP_nil, List.mem_singleton] at h
      rw [h]
      exact fun _ ha => nomatch ha
  | cons b as ih =>
      rw [List.splitOnP_cons_eq_if_modifyHead] at h
      split at h
      · rcases List.mem_cons.1 h with rfl | h
        · exact fun _ ha => nomatch ha
        · exact ih h
      · next hb =>
        -- the first piece is longer by `b`, the others are as before
        obtain ⟨first, rest, hsplit⟩ := List.exists_cons_of_ne_nil (List.splitOnP_ne_nil p as)
        rw [hsplit, List.modifyHead_cons, List.mem_cons] at h
        rcases h with rfl | h
        · exact List.forall_mem_cons.2
            ⟨Bool.eq_false_iff.2 hb, ih (hsplit ▸ List.mem_cons_self ..)⟩
        · exact ih (hsplit ▸ List.mem_cons_of_mem _ h)

/-- The pieces of a text, of which there is at least one. -/
def pieces (separator : Char) (text : String) : List String :=
  (text.toList.splitOn separator).map String.ofList

section

variable {separator : Char} {text piece : String}

theorem pieces_ne_nil : pieces separator text ≠ [] := by
  rw [pieces, Ne, List.map_eq_nil_iff]
  exact List.splitOn_ne_nil separator text.toList

theorem not_mem_of_mem_pieces (h : piece ∈ pieces separator text) : separator ∉ piece.toList := by
  obtain ⟨cs, hcs, rfl⟩ := List.mem_map.1 h
  rw [List.splitOn_eq_splitOnP] at hcs
  rw [String.toList_ofList]
  intro hmem
  simpa using not_of_mem_splitOnP hcs separator hmem

theorem map_toList_pieces (separator : Char) (text : String) :
    (pieces separator text).map String.toList = text.toList.splitOn separator := by
  simp [pieces, Function.comp_def]

theorem intercalate_pieces (separator : Char) (text : String) :
    (String.singleton separator).intercalate (pieces separator text) = text := by
  rw [← String.toList_inj, String.toList_intercalate, String.toList_singleton, map_toList_pieces]
  exact List.intercalate_splitOn separator

theorem pieces_intercalate {ps : List String} (hps : ∀ p ∈ ps, separator ∉ p.toList)
    (hne : ps ≠ []) : pieces separator ((String.singleton separator).intercalate ps) = ps := by
  have hsplit : List.splitOn separator ([separator].intercalate (ps.map String.toList)) =
      ps.map String.toList :=
    List.splitOn_intercalate separator (List.forall_mem_map.2 hps) (by simpa using hne)
  rw [pieces, String.toList_intercalate, String.toList_singleton, hsplit]
  simp [Function.comp_def]

theorem pieces_of_not_mem (h : separator ∉ text.toList) : pieces separator text = [text] := by
  rw [pieces, List.splitOn_eq_singleton h, List.map_singleton, String.ofList_toList]

end

end MetricCatalog.Text
