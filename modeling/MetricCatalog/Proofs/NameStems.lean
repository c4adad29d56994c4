import MetricCatalog.Observe.Grouping
import MetricCatalog.Proofs.TextPieces
/-!
# Stems by segments

The stem of a name is its first segments, joined as they were.  So taking stems one
after another leaves what the shortest of them leaves, and longer stems tell more names
apart.
-/

namespace MetricCatalog

open Text

theorem cutAtUnderscore_eq (n : Nat) (cs : List Char) :
    cutAtUnderscore n cs = ['_'].intercalate ((cs.splitOn '_').take (n + 1)) := by
  induction cs generalizing n with
  | nil => simp [cutAtUnderscore]
  | cons c cs ih =>
      obtain ⟨first, rest, hsplit⟩ := List.exists_cons_of_ne_nil (List.splitOn_ne_nil '_' cs)
      rw [List.splitOn_cons_eq_if_modifyHead]
      unfold cutAtUnderscore
      split
      · next hc =>
        rw [if_pos (by simp [hc])]
        cases n with
        | zero => simp
        | succ n =>
            -- the empty piece before the underscore is one of the `n + 2`
            show c :: cutAtUnderscore n cs = _
            rw [ih n, hsplit, List.take_succ_cons, List.take_succ_cons, List.take_succ_cons,
              List.intercalate_cons_cons, hc]
            rfl
      · next hc =>
        rw [if_neg (by simpa using hc), ih n, hsplit, List.modifyHead_cons, List.take_succ_cons,
          List.take_succ_cons, List.intercalate_cons_cons_left]

namespace StemGrouping

variable (g g' : StemGrouping) (name : String)

/-- The parts of a name that underscores divide, empty ones included. -/
def segmentsOf (name : String) : List String := pieces '_' name

theorem one_le_segments : 1 ≤ g.segments := Nat.le_max_left 1 g.requested

theorem stemOf_eq : g.stemOf name = "_".intercalate ((segmentsOf name).take g.segments) := by
  have hcount : g.segments - 1 + 1 = g.segments := Nat.sub_add_cancel g.one_le_segments
  rw [stemOf, cutAtUnderscore_eq, hcount, ← map_toList_pieces, ← List.map_take,
    ← String.toList_inj, String.toList_ofList, String.toList_intercalate]
  rfl

example : ({ requested := 2 } : StemGrouping).stemOf "a__b_c" = "a_" := by decide

example : ({ requested := 0 } : StemGrouping).stemOf "_a_b" = "" := by decide

/-- The segments of a stem are the first ones of the name. -/
theorem segmentsOf_stemOf : segmentsOf (g.stemOf name) = (segmentsOf name).take g.segments := by
  have hpos := g.one_le_segments
  rw [stemOf_eq]
  refine pieces_intercalate (fun p hp => not_mem_of_mem_pieces (List.mem_of_mem_take hp)) ?_
  rw [Ne, List.take_eq_nil_iff]
  rintro (hzero | hnil)
  · omega
  · exact pieces_ne_nil hnil

theorem stemOf_of_length_le (hlength : (segmentsOf name).length ≤ g.segments) :
    g.stemOf name = name := by
  rw [stemOf_eq, List.take_of_length_le hlength]
  exact intercalate_pieces '_' name

theorem segments_min :
    segments { requested := min g.requested g'.requested } = min g.segments g'.segments :=
  Nat.max_min_distrib_left ..

theorem stemOf_stemOf_eq : g.stemOf (g'.stemOf name) =
    "_".intercalate ((segmentsOf name).take (min g.segments g'.segments)) := by
  rw [g.stemOf_eq, segmentsOf_stemOf, List.take_take]

theorem stemOf_stemOf_of_le (hle : g.segments ≤ g'.segments) :
    g.stemOf (g'.stemOf name) = g.stemOf name := by
  rw [stemOf_stemOf_eq, g.stemOf_eq, Nat.min_eq_left hle]

/-- A stem is the first segments of the name, and of two stems one after the other the
shorter is left.  So a stem is its own stem, and a longer stem tells apart whatever a
shorter one does. -/
theorem stemOf_first_segments :
    g.stemOf name = "_".intercalate ((segmentsOf name).take g.segments) ∧
    ((segmentsOf name).length ≤ g.segments → g.stemOf name = name) ∧
    g'.stemOf (g.stemOf name) = stemOf { requested := min g'.requested g.requested } name ∧
    g.stemOf (g.stemOf name) = g.stemOf name ∧
    ∀ other, g.segments ≤ g'.segments → g'.stemOf name = g'.stemOf other →
      g.stemOf name = g.stemOf other := by
  have hcompose : g'.stemOf (g.stemOf name) =
      stemOf { requested := min g'.requested g.requested } name := by
    rw [stemOf_stemOf_eq, stemOf_eq, segments_min]
  refine ⟨g.stemOf_eq name, g.stemOf_of_length_le name, hcompose,
    g.stemOf_stemOf_of_le g name (Nat.le_refl _), fun other hle heq => ?_⟩
  rw [← g.stemOf_stemOf_of_le g' name hle, heq, g.stemOf_stemOf_of_le g' other hle]

/-- Names with empty segments, with as many segments as asked for, and with more. -/
theorem stemOf_first_segments_sample :
    (segmentsOf "_a_").length ≤ segments { requested := 3 } ∧
    stemOf { requested := 3 } "_a_" = "_a_" ∧
    segments { requested := 0 } ≤ segments { requested := 3 } ∧
    stemOf { requested := 3 } "_a__b_c" = stemOf { requested := 3 } "_a__d" ∧
    stemOf { requested := 0 } "_a__b_c" = stemOf { requested := 0 } "_a__d" := by
  have hlength : (segmentsOf "_a_").length ≤ segments { requested := 3 } := by decide
  have hle : segments { requested := 0 } ≤ segments { requested := 3 } := by decide
  have heq : stemOf { requested := 3 } "_a__b_c" = stemOf { requested := 3 } "_a__d" := by decide
  obtain ⟨-, hwhole, -, -, -⟩ := stemOf_first_segments { requested := 3 } {} "_a_"
  obtain ⟨-, -, -, -, hrefines⟩ :=
    stemOf_first_segments { requested := 0 } { requested := 3 } "_a__b_c"
  exact ⟨hlength, hwhole hlength, hle, heq, hrefines "_a__d" hle heq⟩

end StemGrouping

end MetricCatalog
