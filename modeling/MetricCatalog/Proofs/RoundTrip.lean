import MetricCatalog.Proofs.SampleRuns
import MetricCatalog.Proofs.WrittenText
/-!
# Decoding what was written

The lines of each family build it up whole, whatever was taken in before, as long
as no family of its name was.  So a written snapshot decodes to its families,
sorted by name.
-/

namespace MetricCatalog

instance : Keyed Family := ⟨Family.name⟩

namespace Exposition

/-- All that a family says but its name. -/
def entryOfFamily (f : Family) : Entry := { kind := f.kind, help := f.help, samples := f.samples }

variable {f : Family} {fs : List Family}

/-- Samples of the series of its name keep all labels in an expressible family. -/
theorem Expressible.metricLabels_eq (h : Expressible f) {s : Sample} (hs : s ∈ f.samples) :
    metricLabels f.name f.kind f.name s.labels = s.labels := by
  have hbound : f.kind = .histogram ∨ f.kind = .gaugeHistogram →
      (if (stem? "_bucket" f.name).isSome then s.labels.erase "le" else s.labels) = s.labels := by
    intro hkind
    split
    · next hsuffix => exact KeyMap.erase_of_not_mem (h.bounds hkind (isSome_stem?.1 hsuffix) s hs)
    · rfl
  cases hkind : f.kind with
  | histogram => exact hbound (.inl hkind)
  | gaugeHistogram => exact hbound (.inr hkind)
  | summary =>
      rw [metricLabels, if_pos rfl]
      exact KeyMap.erase_of_not_mem (h.quantiles hkind s hs)
  | _ => rfl

namespace Draft

variable {d : Draft}

/-- The draft after the help and the kind of a family. -/
def declare (d : Draft) (f : Family) : Draft :=
  { (d.modify f.name ({ · with help := f.help })).modify f.name ({ · with kind := f.kind }) with
    typed := d.typed.insert f.name }

theorem entry_declare (hnew : d.families.contains f.name = false) {name : String} :
    (d.declare f).entry name =
      if name = f.name then { kind := f.kind, help := f.help } else d.entry name := by
  have hmodify : (d.declare f).entry name =
      ((d.modify f.name ({ · with help := f.help })).modify f.name
        ({ · with kind := f.kind })).entry name := rfl
  rw [hmodify, entry_modify, entry_modify, entry_modify, if_pos rfl,
    entry_eq_of_not_contains hnew]
  split <;> rfl

theorem contains_declare {name : String} :
    (d.declare f).families.contains name = true ↔
      name = f.name ∨ d.families.contains name = true := by
  have hmodify : (d.declare f).families =
      ((d.modify f.name ({ · with help := f.help })).modify f.name
        ({ · with kind := f.kind })).families := rfl
  rw [hmodify, contains_modify, contains_modify, ← or_assoc, or_self]

theorem owner_declare : (d.declare f).owner f.name = f.name :=
  owner_of_contains (contains_declare.2 (.inl rfl))

theorem addAll_block (h : d.typed.contains f.name = false) :
    d.addAll (block f) = .ok ((d.declare f).addRun (f.samples.map fun s => (f.name, s))) := by
  have hkind : (d.modify f.name ({ · with help := f.help })).addLine (.kind f.name f.kind) =
      .ok (d.declare f) := by
    have htyped : (d.modify f.name ({ · with help := f.help })).typed.contains f.name = false := h
    rw [addLine, htyped]
    rfl
  have hrun : (f.samples.map fun s => (f.name, s)).map sampleLineOf =
      f.samples.map fun s => .sample f.name s.labels s.value := List.map_map
  refine addAll_cons_eq_ok.2 ⟨_, rfl, addAll_cons_eq_ok.2 ⟨_, hkind, ?_⟩⟩
  rw [← hrun, addAll_sampleLineOf]

/-- The series of its name are those of a declared family, and no other's. -/
theorem share_declare (hf : Expressible f) (hnew : d.families.contains f.name = false)
    {name : String} :
    (d.declare f).share name (f.samples.map fun s => (f.name, s)) =
      if name = f.name then f.samples else [] := by
  rw [share, List.filter_map, List.map_map]
  by_cases hname : name = f.name
  · subst hname
    have hall : (f.samples.filter ((fun p => decide ((d.declare f).owner p.1 = f.name)) ∘
        fun s => (f.name, s))) = f.samples := by
      simp [owner_declare]
    rw [hall, if_pos rfl, entry_declare hnew, if_pos rfl]
    refine (List.map_congr_left fun s hs => ?_).trans (List.map_id _)
    simp only [Function.comp, hf.metricLabels_eq hs, id]
  · simp [owner_declare, Ne.symm hname, hname]

/-- The draft holds these families and no other. -/
structure Holds (d : Draft) (fs : List Family) : Prop where
  contains : ∀ name, d.families.contains name = true ↔ name ∈ Keyed.keys fs
  typed : ∀ name ∈ d.typed, name ∈ Keyed.keys fs
  entry : ∀ f ∈ fs, d.entry f.name = entryOfFamily f

theorem holds_nil : Holds {} [] where
  contains name := by simp [KeyMap.contains]
  typed name h := absurd h KeySet.not_mem_empty
  entry f h := nomatch h

/-- The lines of a family add it. -/
theorem Holds.addBlock (h : d.Holds fs) (hf : Expressible f) (hnew : f.name ∉ Keyed.keys fs) :
    ∃ next, d.addAll (block f) = .ok next ∧ next.Holds (fs ++ [f]) := by
  have htyped : d.typed.contains f.name = false := by
    rw [← Bool.not_eq_true, KeySet.contains_iff]
    exact fun hmem => hnew (h.typed _ hmem)
  have hcontains : d.families.contains f.name = false := by
    rw [← Bool.not_eq_true, h.contains]
    exact hnew
  have hkeys : ∀ name, name ∈ Keyed.keys (fs ++ [f]) ↔ name = f.name ∨ name ∈ Keyed.keys fs := by
    intro name
    rw [Keyed.keys, List.map_append, List.mem_append, or_comm]
    exact or_congr_left List.mem_singleton
  refine ⟨_, addAll_block htyped, fun name => ?_, fun name hname => ?_, fun g hg => ?_⟩
  · rw [contains_addRun, contains_declare, h.contains, hkeys]
    refine or_iff_right_of_imp ?_
    rintro ⟨p, hp, rfl⟩
    obtain ⟨s, hs, rfl⟩ := List.mem_map.1 hp
    exact .inl owner_declare
  · rw [typed_addRun] at hname
    exact (hkeys name).2 ((KeySet.mem_insert.1 hname).imp_right (h.typed name))
  · rw [entry_addRun, share_declare hf hcontains, entry_declare hcontains]
    rcases List.mem_append.1 hg with hg | hg
    · have hne : g.name ≠ f.name := fun heq => hnew (heq ▸ Keyed.key_mem_keys hg)
      rw [if_neg hne, if_neg hne, List.append_nil, h.entry g hg]
    · rw [List.mem_singleton.1 hg, if_pos rfl, if_pos rfl]
      rfl

theorem Holds.addBlocks (h : d.Holds fs) {gs : List Family} (hexpr : ∀ g ∈ gs, Expressible g)
    (hd : Keyed.Distinct (fs ++ gs)) :
    ∃ next, d.addAll (gs.flatMap block) = .ok next ∧ next.Holds (fs ++ gs) := by
  induction gs generalizing d fs with
  | nil => exact ⟨d, rfl, by rwa [List.append_nil]⟩
  | cons g gs ih =>
      obtain ⟨hg, hgs⟩ := List.forall_mem_cons.1 hexpr
      have hnew : g.name ∉ Keyed.keys fs := fun hmem => by
        rw [Keyed.Distinct, Keyed.keys, List.map_append] at hd
        exact (List.nodup_append.1 hd).2.2 _ hmem _ (List.mem_cons_self ..) rfl
      obtain ⟨mid, hmid, hholds⟩ := h.addBlock hg hnew
      rw [List.append_cons] at hd ⊢
      obtain ⟨next, hnext, hlast⟩ := ih hholds hgs hd
      exact ⟨next, addAll_append_eq_ok.2 ⟨mid, hmid, hnext⟩, hlast⟩

/-- A draft lists the families that it holds by name. -/
theorem Holds.toFamilies (h : d.Holds fs) (hd : Keyed.Distinct fs) :
    d.toFamilies = Keyed.sort fs := by
  have hkeys : d.families.keys = (Keyed.sort fs).map Family.name :=
    eq_of_ascending d.families.ascending (Keyed.ascending_iff_keys.1 hd.ascending_sort)
      fun name => by
        rw [KeyMap.mem_keys, h.contains]
        exact (Keyed.keys_sort_perm fs).mem_iff.symm
  rw [toFamilies_eq, hkeys, List.map_map]
  refine (List.map_congr_left fun f hf => ?_).trans (List.map_id _)
  simp only [Function.comp, h.entry f (Keyed.mem_sort.1 hf), entryOfFamily, id]

end Draft

/-- Decoding a written snapshot gives its families back, sorted by name. -/
theorem decode_writtenText {fs : List (Family × FamilyForm)}
    (h : ∀ p ∈ fs, Expressible p.1 ∧ p.2.Writes p.1) (hd : Keyed.Distinct (fs.map Prod.fst)) :
    decode (writtenText fs) = .ok (Keyed.sort (fs.map Prod.fst)) := by
  have hexpr : ∀ f ∈ fs.map Prod.fst, Expressible f := by
    simp only [List.mem_map]
    rintro _ ⟨p, hp, rfl⟩
    exact (h p hp).1
  obtain ⟨d, hall, hholds⟩ := Draft.holds_nil.addBlocks hexpr hd
  have hsilent : d.addAll [.silent] = .ok d := rfl
  rw [List.flatMap_map] at hall
  exact decode_eq_ok.2 ⟨_, d, reads_writtenText h,
    Draft.addAll_append_eq_ok.2 ⟨d, hall, hsilent⟩, hholds.toFamilies hd⟩

/-- A gauge of the name of the sums of a histogram, with signs to escape. -/
def sumAndHistogram : List (Family × FamilyForm) := [
  ({ name := "a_sum", kind := .gauge, help := "\\\n", samples := [⟨.ofList [("x", "\"\x7d")], ⟨0⟩⟩] },
    { tag := "gauge", samples := [{ pairs := [("x", "\"\x7d")], comma := true, token := "0" }] }),
  ({ name := "a", kind := .histogram, samples := [⟨.ofList [("b", ""), ("le", "#")], ⟨0⟩⟩] },
    { tag := "HISTOGRAM"
      samples := [{ pairs := [("le", "#"), ("b", "")], token := "0e1", time := some "7" }] })]

theorem decode_writtenText_sample :
    (∀ p ∈ sumAndHistogram, Expressible p.1 ∧ p.2.Writes p.1) ∧
    Keyed.Distinct (sumAndHistogram.map Prod.fst) ∧
    writtenText sumAndHistogram =
      "# HELP a_sum \\\\\\n\n# TYPE a_sum gauge\na_sum\x7bx=\"\\\"\x7d\",\x7d 0\n" ++
      "# HELP a \n# TYPE a HISTOGRAM\na\x7ble=\"#\",b=\"\"\x7d 0e1 7\n" ∧
    decode (writtenText sumAndHistogram) = .ok [
      { name := "a", kind := .histogram, samples := [⟨.ofList [("b", ""), ("le", "#")], ⟨0⟩⟩] },
      { name := "a_sum", kind := .gauge, help := "\\\n",
        samples := [⟨.ofList [("x", "\"\x7d")], ⟨0⟩⟩] }] := by
  have hseries : ∀ name ∈ ["a_sum", "a"], IsSeries name := by
    intro name h
    constructor <;> revert name <;> decide
  have hall : ∀ p ∈ sumAndHistogram, Expressible p.1 ∧ p.2.Writes p.1 := by
    rintro _ (_ | ⟨_, _ | ⟨_, ⟨⟩⟩⟩)
    · have hform : SampleForm.Writes { pairs := [("x", "\"\x7d")], comma := true, token := "0" }
          ⟨.ofList [("x", "\"\x7d")], ⟨0⟩⟩ := ⟨by decide, by decide, rfl, by decide⟩
      exact ⟨⟨hseries "a_sum" (by decide), by decide, by decide, by decide, by decide, by decide⟩,
        rfl, .cons hform .nil⟩
    · have hform : SampleForm.Writes
          { pairs := [("le", "#"), ("b", "")], token := "0e1", time := some "7" }
          ⟨.ofList [("b", ""), ("le", "#")], ⟨0⟩⟩ := ⟨by decide, by decide, rfl, by decide⟩
      exact ⟨⟨hseries "a" (by decide), by decide, by decide, by decide, by decide, by decide⟩,
        rfl, .cons hform .nil⟩
  have hdistinct : Keyed.Distinct (sumAndHistogram.map Prod.fst) := by
    rw [Keyed.Distinct]
    decide
  exact ⟨hall, hdistinct, by decide +kernel, decode_writtenText hall hdistinct⟩

end Exposition

end MetricCatalog
