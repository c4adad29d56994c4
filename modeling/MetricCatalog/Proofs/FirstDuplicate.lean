import MetricCatalog.Proofs.KeyBytes
import MetricCatalog.Proofs.Validation
/-!
# The duplicate that validation reports

The sequences of a catalog are listed with their owners before what they hold, and
otherwise as they stand in the document.  Validation reports the first of them that
repeats a key, and of the keys that this one repeats the least.
-/

namespace MetricCatalog

open Keyed

/-! ## The least repeated key -/

/-- The key stands there more than once. -/
def Repeats (ks : List String) (k : String) : Prop := 2 ≤ ks.count k

/-- The least of the keys that stand there more than once, by their bytes. -/
def LeastRepeated (ks : List String) (k : String) : Prop :=
  Repeats ks k ∧ ∀ k', Repeats ks k' → utf8Bytes k ≤ utf8Bytes k'

theorem Repeats.mem {ks : List String} {k : String} (h : Repeats ks k) : k ∈ ks :=
  List.one_le_count_iff.1 (Nat.le_of_succ_le h)

theorem Repeats.not_nodup {ks : List String} {k : String} (h : Repeats ks k) : ¬ ks.Nodup :=
  fun hnodup => Nat.not_le_of_lt h (List.nodup_iff_count.1 hnodup k)

theorem LeastRepeated.unique {ks : List String} {k k' : String} (h : LeastRepeated ks k)
    (h' : LeastRepeated ks k') : k = k' :=
  String.le_antisymm (le_iff_utf8Bytes_le.2 (h.2 k' h'.1)) (le_iff_utf8Bytes_le.2 (h'.2 k h.1))

theorem LeastRepeated.perm {ks ks' : List String} {k : String} (h : LeastRepeated ks k)
    (hperm : ks.Perm ks') : LeastRepeated ks' k := by
  simpa only [LeastRepeated, Repeats, hperm.count_eq] using h

/-- Equal keys of an ascending sequence are neighbours, and the first such are the least. -/
theorem leastRepeated_of_equalNeighbour? {ks : List String} (h : Sorted ks) {k : String}
    (hk : equalNeighbour? ks = some k) : LeastRepeated ks k := by
  induction ks with
  | nil => cases hk
  | cons a rest ih =>
      cases rest with
      | nil => cases hk
      | cons b rest =>
          unfold equalNeighbour? at hk
          split at hk
          · next hab =>
            obtain rfl := Option.some.inj hk
            have htwice : Repeats (a :: b :: rest) a := by simp [Repeats, hab]
            exact ⟨htwice, fun k' hk' => le_iff_utf8Bytes_le.1 (h.key_le_of_mem hk'.mem)⟩
          · next hab =>
            have hnot : a ∉ b :: rest := not_mem_of_ne_neighbour h hab
            have hrepeats (k : String) : Repeats (a :: b :: rest) k ↔ Repeats (b :: rest) k := by
              rw [Repeats, Repeats, List.count_cons]
              by_cases heq : a = k
              · have hzero : (b :: rest).count k = 0 := List.count_eq_zero.2 (heq ▸ hnot)
                simp [hzero, heq]
              · simp [heq]
            simpa only [LeastRepeated, hrepeats] using ih h.of_cons hk

theorem repeatedKey?_eq_some {α : Type} [Keyed α] {xs : List α} {k : String} :
    repeatedKey? xs = some k ↔ LeastRepeated (keys xs) k := by
  have hleast {k : String} (h : repeatedKey? xs = some k) : LeastRepeated (keys xs) k :=
    (leastRepeated_of_equalNeighbour? (sorted_sort _) h).perm (sort_perm (keys xs))
  refine ⟨hleast, fun h => ?_⟩
  cases hfound : repeatedKey? xs with
  | none => exact absurd (repeatedKey?_eq_none.1 hfound) h.1.not_nodup
  | some k' => rw [(hleast hfound).unique h]

/-! ## The sequences of a catalog -/

/-- A sequence of siblings: its level, the keys from the component down to its owner,
and its own keys. -/
structure KeySequence where
  level : Level
  owner : List String
  keys : List String

def Label.sequence (stem metric : String) (l : Label) : KeySequence :=
  ⟨.value, [stem, metric, l.name], keys l.values⟩

def Metric.sequences (stem : String) (m : Metric) : List KeySequence :=
  ⟨.label, [stem, m.name], keys m.labels⟩ :: m.labels.map (Label.sequence stem m.name)

def Component.sequences (c : Component) : List KeySequence :=
  ⟨.metric, [c.stem], keys c.metrics⟩ :: c.metrics.flatMap (Metric.sequences c.stem)

/-- Each sequence before those of its elements, and the elements in their order. -/
def Catalog.sequences (c : Catalog) : List KeySequence :=
  ⟨.component, [], keys c.components⟩ :: c.components.flatMap Component.sequences

/-- The sequence repeats a key, and the duplicate says which and where. -/
def KeySequence.Shows (s : KeySequence) (d : DuplicateKey) : Prop :=
  d.level = s.level ∧ d.parent = "/".intercalate s.owner ∧ LeastRepeated s.keys d.key

def KeySequence.duplicate? (s : KeySequence) : Option DuplicateKey :=
  duplicateIn? s.level ("/".intercalate s.owner) s.keys

theorem duplicateIn?_keys {α : Type} [Keyed α] (level : Level) (parent : String) (xs : List α) :
    duplicateIn? level parent (keys xs) = duplicateIn? level parent xs := by
  have hkeys : (keys xs).map key = keys xs := List.map_id _
  rw [duplicateIn?, duplicateIn?, repeatedKey?, repeatedKey?, hkeys]
  rfl

theorem KeySequence.duplicate?_eq_none {s : KeySequence} : s.duplicate? = none ↔ s.keys.Nodup := by
  have hkeys : Keyed.keys s.keys = s.keys := List.map_id _
  rw [duplicate?, duplicateIn?_eq_none, Keyed.Distinct, hkeys]

theorem KeySequence.duplicate?_eq_some {s : KeySequence} {d : DuplicateKey} :
    s.duplicate? = some d ↔ s.Shows d := by
  have hkeys : Keyed.keys s.keys = s.keys := List.map_id _
  rw [duplicate?, duplicateIn?, Option.map_eq_some_iff]
  constructor
  · rintro ⟨k, hk, rfl⟩
    rw [repeatedKey?_eq_some, hkeys] at hk
    exact ⟨rfl, rfl, hk⟩
  · rintro ⟨hlevel, hparent, hleast⟩
    rw [← hkeys, ← repeatedKey?_eq_some] at hleast
    refine ⟨d.key, hleast, ?_⟩
    rw [← hlevel, ← hparent]

section

variable {α β γ : Type}

theorem findSome?_cons_or (f : α → Option β) (x : α) (xs : List α) :
    (x :: xs).findSome? f = (f x).or (xs.findSome? f) := by
  rw [List.findSome?_cons]
  cases f x <;> rfl

theorem findSome?_flatMap (f : β → Option γ) (g : α → List β) (xs : List α) :
    (xs.flatMap g).findSome? f = xs.findSome? fun x => (g x).findSome? f := by
  induction xs with
  | nil => rfl
  | cons x xs ih => rw [List.flatMap_cons, List.findSome?_append, findSome?_cons_or, ih]

end

theorem Label.duplicate?_eq (stem metric : String) (l : Label) :
    l.duplicate? (stem ++ "/" ++ metric) = (l.sequence stem metric).duplicate? := by
  have hpath : stem ++ "/" ++ metric ++ "/" ++ l.name = "/".intercalate [stem, metric, l.name] := by
    rw [String.intercalate_cons_cons, String.intercalate_cons_cons, String.intercalate_singleton]
    simp only [String.append_assoc]
  rw [duplicate?, sequence, KeySequence.duplicate?, duplicateIn?_keys, hpath]

theorem Metric.duplicate?_eq_findSome? (stem : String) (m : Metric) :
    m.duplicate? stem = (m.sequences stem).findSome? KeySequence.duplicate? := by
  have hpath : stem ++ "/" ++ m.name = "/".intercalate [stem, m.name] := by
    rw [String.intercalate_cons_cons, String.intercalate_singleton]
  have hlabels : Label.duplicate? (stem ++ "/" ++ m.name) =
      KeySequence.duplicate? ∘ Label.sequence stem m.name :=
    funext fun l => l.duplicate?_eq stem m.name
  rw [sequences, findSome?_cons_or, List.findSome?_map, ← hlabels, KeySequence.duplicate?,
    duplicateIn?_keys, ← hpath]
  rfl

theorem Component.duplicate?_eq_findSome? (c : Component) :
    c.duplicate? = c.sequences.findSome? KeySequence.duplicate? := by
  rw [sequences, findSome?_cons_or, findSome?_flatMap, KeySequence.duplicate?, duplicateIn?_keys]
  simp only [← Metric.duplicate?_eq_findSome?]
  rfl

theorem Catalog.duplicate?_eq_findSome? (c : Catalog) :
    c.duplicate? = c.sequences.findSome? KeySequence.duplicate? := by
  rw [sequences, findSome?_cons_or, findSome?_flatMap, KeySequence.duplicate?, duplicateIn?_keys]
  simp only [← Component.duplicate?_eq_findSome?]
  rfl

theorem Catalog.validate_eq_error_iff {c : Catalog} {d : DuplicateKey} :
    c.validate = .error d ↔ c.duplicate? = some d := by
  rw [validate]
  cases c.duplicate? <;> simp

/-- Validation accepts a catalog when no sequence repeats a key.  Otherwise it reports
the first sequence that does, with the least key that it repeats. -/
theorem Catalog.validate_reports_first (c : Catalog) :
    (c.validate = .ok () ↔ ∀ s ∈ c.sequences, s.keys.Nodup) ∧
    ∀ d, c.validate = .error d ↔
      ∃ before s after, c.sequences = before ++ s :: after ∧
        (∀ t ∈ before, t.keys.Nodup) ∧ s.Shows d := by
  refine ⟨?_, fun d => ?_⟩
  · rw [validate_eq_ok, ← duplicate?_eq_none, duplicate?_eq_findSome?, List.findSome?_eq_none_iff]
    simp only [KeySequence.duplicate?_eq_none]
  · rw [validate_eq_error_iff, duplicate?_eq_findSome?, List.findSome?_eq_some_iff]
    simp only [KeySequence.duplicate?_eq_none, KeySequence.duplicate?_eq_some]
    constructor
    · rintro ⟨before, s, after, heq, hshows, hbefore⟩
      exact ⟨before, s, after, heq, hbefore, hshows⟩
    · rintro ⟨before, s, after, heq, hbefore, hshows⟩
      exact ⟨before, s, after, heq, hshows, hbefore⟩

example : Catalog.duplicate? { components := [
    { stem := "go", metrics := [
      { name := "go_b", labels := [
        { name := "pod", values := [⟨"z", ""⟩, ⟨"a", ""⟩, ⟨"z", ""⟩] }] },
      { name := "go_a", labels := [{ name := "pod" }, { name := "pod" }] }] }] } =
    some { level := .value, key := "z", parent := "go/go_b/pod" } := by
  decide

end MetricCatalog
