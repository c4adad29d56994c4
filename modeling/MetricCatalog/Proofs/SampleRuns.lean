import MetricCatalog.Proofs.Attribution
import MetricCatalog.Proofs.KeyLookup
import Mathlib.Data.List.Induction
/-!
# Runs of samples

Samples keep whose each series is, so those of a run can be given to their
families all at once: each family gets its share of the run, in the order of the
run, and is otherwise as it was.
-/

namespace MetricCatalog.Exposition

/-- The line of a sample of a series. -/
def sampleLineOf (p : String × Sample) : Line := .sample p.1 p.2.labels p.2.value

namespace Draft

variable {d : Draft} {name series : String} {run : List (String × Sample)}

/-- What the draft holds of a name; nothing, if it has no family of the name. -/
def entry (d : Draft) (name : String) : Entry := (d.families.find? name).getD {}

theorem find?_eq_ite (d : Draft) (name : String) :
    d.families.find? name = if d.families.contains name then some (d.entry name) else none := by
  rw [KeyMap.contains, entry]
  cases d.families.find? name <;> rfl

theorem entry_eq_of_not_contains (h : d.families.contains name = false) : d.entry name = {} := by
  rw [entry, find?_eq_ite, h]
  rfl

/-- A name that the draft has no family of lends nothing, as an entry of no kind
allows no suffix. -/
theorem lends_iff : d.Lends name series ↔
    ∃ suffix ∈ (d.entry name).kind.suffixes, series = name ++ suffix := by
  rw [Lends, entry]
  cases d.families.find? name <;> simp [Kind.suffixes]

/-- Whose a series is depends on the names and the kinds of the families. -/
theorem owner_congr {d' : Draft}
    (hc : ∀ name, d.families.contains name = d'.families.contains name)
    (hk : ∀ name, (d.entry name).kind = (d'.entry name).kind) :
    d.owner series = d'.owner series := by
  have hlends : ∀ name, d.Lends name series ↔ d'.Lends name series := fun name => by
    rw [lends_iff, lends_iff, hk]
  by_cases hown : d.families.contains series = true
  · rw [owner_of_contains hown, owner_of_contains (hc series ▸ hown)]
  · rw [Bool.not_eq_true] at hown
    by_cases hl : ∃ name, d.Lends name series
    · obtain ⟨name, hl⟩ := hl
      rw [owner_of_lends hown hl, owner_of_lends (hc series ▸ hown) ((hlends name).1 hl)]
    · rw [owner_of_not_lends fun name h => hl ⟨name, h⟩,
        owner_of_not_lends fun name h => hl ⟨name, (hlends name).2 h⟩]

theorem entry_modify {f : Entry → Entry} {a : String} :
    (d.modify name f).entry a = if a = name then f (d.entry name) else d.entry a := by
  rw [entry, find?_modify]
  split <;> rfl

theorem toFamilies_eq (d : Draft) : d.toFamilies = d.families.keys.map fun name =>
    { name, kind := (d.entry name).kind, help := (d.entry name).help,
      samples := (d.entry name).samples } := by
  have hentries : d.families.entries = d.families.keys.map fun name => (name, d.entry name) :=
    KeyMap.entries_eq_map fun name e h => by rw [entry, h, Option.getD_some]
  rw [toFamilies, hentries, List.map_map]
  rfl

/-! ## Taking in a run -/

/-- Takes in samples of the series one after another. -/
def addRun (d : Draft) (run : List (String × Sample)) : Draft :=
  run.foldl (fun d p => d.addSample p.1 p.2.labels p.2.value) d

/-- The samples of a run that a family gets, with the labels that they keep. -/
def share (d : Draft) (name : String) (run : List (String × Sample)) : List Sample :=
  (run.filter fun p => d.owner p.1 = name).map fun p =>
    { p.2 with labels := metricLabels name (d.entry name).kind p.1 p.2.labels }

theorem addRun_concat {p : String × Sample} :
    d.addRun (run ++ [p]) = (d.addRun run).addSample p.1 p.2.labels p.2.value :=
  List.foldl_append

theorem addAll_sampleLineOf : d.addAll (run.map sampleLineOf) = .ok (d.addRun run) := by
  induction run generalizing d with
  | nil => rfl
  | cons p run ih => exact addAll_cons_eq_ok.2 ⟨_, addLine_sample, ih⟩

theorem typed_addRun : (d.addRun run).typed = d.typed := by
  induction run using List.reverseRecOn with
  | nil => rfl
  | append_singleton run p ih =>
      rw [addRun_concat]
      exact ih

theorem owner_addRun : (d.addRun run).owner series = d.owner series := by
  induction run using List.reverseRecOn with
  | nil => rfl
  | append_singleton run p ih => rw [addRun_concat, owner_addSample, ih]

theorem contains_addRun : (d.addRun run).families.contains name = true ↔
    (∃ p ∈ run, d.owner p.1 = name) ∨ d.families.contains name = true := by
  induction run using List.reverseRecOn with
  | nil => simp [addRun]
  | append_singleton run p ih =>
      rw [addRun_concat, addSample, contains_modify, ih, owner_addRun]
      simp only [List.mem_append, List.mem_singleton, or_and_right, exists_or, exists_eq_left]
      rw [eq_comm (a := name), ← or_assoc, or_comm (a := d.owner p.1 = name)]

theorem entry_addRun : (d.addRun run).entry name =
    { d.entry name with samples := (d.entry name).samples ++ d.share name run } := by
  induction run using List.reverseRecOn with
  | nil => simp [addRun, share]
  | append_singleton run p ih =>
      rw [addRun_concat, addSample, entry_modify, owner_addRun]
      by_cases hname : d.owner p.1 = name
      · subst hname
        rw [if_pos rfl, ih]
        simp [addToEntry, share]
      · rw [if_neg (Ne.symm hname), ih]
        simp [share, hname]

end Draft

end MetricCatalog.Exposition
