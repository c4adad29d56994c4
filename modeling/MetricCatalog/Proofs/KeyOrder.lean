import MetricCatalog.Catalog.Order
/-!
# Sequences by key

Sorting by key is described by three facts: the result is a permutation, its
keys never descend, and the first element of a key stays the first.  With
unique keys the result is strictly ascending, hence determined by its elements.
-/

namespace MetricCatalog

theorem nodup_of_pairwise_lt {ks : List String} (h : ks.Pairwise (· < ·)) : ks.Nodup := by
  show ks.Pairwise (· ≠ ·)
  refine h.imp fun {a b} hlt heq => ?_
  subst heq
  exact String.lt_irrefl a hlt

namespace Keyed

variable {α β : Type} [Keyed α] [Keyed β]

/-- The keys of a sequence, in its order. -/
def keys (xs : List α) : List String := xs.map key

/-- No key occurs twice. -/
def Distinct (xs : List α) : Prop := (keys xs).Nodup

/-- Keys never descend. -/
def Sorted (xs : List α) : Prop := xs.Pairwise fun x y => key x ≤ key y

@[simp] theorem keys_nil : keys ([] : List α) = [] := rfl

@[simp] theorem keys_cons {x : α} {xs : List α} : keys (x :: xs) = key x :: keys xs := rfl

theorem mem_keys {k : String} {xs : List α} : k ∈ keys xs ↔ ∃ x ∈ xs, key x = k :=
  List.mem_map

theorem key_mem_keys {x : α} {xs : List α} (hx : x ∈ xs) : key x ∈ keys xs :=
  List.mem_map_of_mem hx

theorem keys_map {f : α → β} (hf : ∀ x, key (f x) = key x) (xs : List α) :
    keys (xs.map f) = keys xs := by
  simp [keys, hf]

theorem map_keys {γ : Type} (f : String → γ) (xs : List α) :
    (keys xs).map f = xs.map fun x => f (key x) :=
  List.map_map

theorem countP_keys (p : String → Bool) (xs : List α) :
    (keys xs).countP p = xs.countP fun x => p (key x) :=
  List.countP_map

theorem ascending_iff_keys {xs : List α} : Ascending xs ↔ (keys xs).Pairwise (· < ·) := by
  rw [keys, List.pairwise_map, Ascending]

theorem Ascending.distinct {xs : List α} (h : Ascending xs) : Distinct xs :=
  nodup_of_pairwise_lt (ascending_iff_keys.1 h)

theorem Ascending.sorted {xs : List α} (h : Ascending xs) : Sorted xs :=
  h.imp Std.le_of_lt

theorem Sorted.ascending {xs : List α} (hs : Sorted xs) (hd : Distinct xs) : Ascending xs := by
  have hne : xs.Pairwise fun x y => key x ≠ key y := List.pairwise_map.1 hd
  exact (hs.and hne).imp fun h => Std.lt_of_le_of_ne h.1 h.2

theorem Sorted.key_le_of_mem {x y : α} {xs : List α} (h : Sorted (x :: xs)) (hy : y ∈ x :: xs) :
    key x ≤ key y := by
  rcases List.mem_cons.1 hy with rfl | hy
  · exact Std.le_refl _
  · exact List.rel_of_pairwise_cons h hy

theorem Ascending.lt_of_lt_head {k : String} {x : α} {xs : List α} (h : Ascending (x :: xs))
    (hlt : k < key x) : ∀ y ∈ x :: xs, k < key y := by
  intro y hy
  rcases List.mem_cons.1 hy with rfl | hy
  · exact hlt
  · exact String.lt_trans hlt (List.rel_of_pairwise_cons h hy)

/-- The tail lies above whatever shares the key of the head. -/
theorem Ascending.lt_of_eq_head {k : String} {x : α} {xs : List α} (h : Ascending (x :: xs))
    (heq : k = key x) : ∀ y ∈ xs, k < key y := by
  intro y hy
  rw [heq]
  exact List.rel_of_pairwise_cons h hy

/-! ## Sorting -/

theorem mem_sort {x : α} {xs : List α} : x ∈ sort xs ↔ x ∈ xs :=
  (sort_perm xs).mem_iff

theorem keys_sort_perm (xs : List α) : (keys (sort xs)).Perm (keys xs) :=
  (sort_perm xs).map key

theorem length_map_sort {γ : Type} (f : α → γ) (xs : List α) :
    ((sort xs).map f).length = xs.length := by
  rw [List.length_map, (sort_perm xs).length_eq]

theorem distinct_sort {xs : List α} : Distinct (sort xs) ↔ Distinct xs :=
  (keys_sort_perm xs).nodup_iff

theorem sorted_insertSorted {x : α} {ys : List α} (h : Sorted ys) :
    Sorted (insertSorted x ys) := by
  induction ys with
  | nil => exact List.pairwise_singleton ..
  | cons y ys ih =>
      have hhead : ∀ z ∈ ys, key y ≤ key z := fun z hz => List.rel_of_pairwise_cons h hz
      unfold insertSorted
      split
      · next hlt =>
        refine .cons (fun z hz => ?_) (ih h.of_cons)
        rcases List.mem_cons.1 ((insertSorted_perm x ys).mem_iff.1 hz) with rfl | hz
        · exact Std.le_of_lt hlt
        · exact hhead z hz
      · next hge =>
        have hxy : key x ≤ key y := String.not_lt.1 hge
        refine .cons (fun z hz => ?_) h
        rcases List.mem_cons.1 hz with rfl | hz
        · exact hxy
        · exact Std.le_trans hxy (hhead z hz)

theorem sorted_sort (xs : List α) : Sorted (sort xs) := by
  induction xs with
  | nil => exact .nil
  | cons x xs ih => exact sorted_insertSorted ih

/-- Unique keys sort strictly ascending. -/
theorem Distinct.ascending_sort {xs : List α} (h : Distinct xs) : Ascending (sort xs) :=
  (sorted_sort xs).ascending (distinct_sort.2 h)

/-- The assertion that a merge makes of a sequence, after sorting it. -/
theorem isAscending_sort_iff {xs : List α} : isAscending (sort xs) = true ↔ Distinct xs := by
  rw [isAscending_iff]
  exact ⟨fun h => distinct_sort.1 h.distinct, Distinct.ascending_sort⟩

theorem Sorted.sort_eq {xs : List α} (h : Sorted xs) : sort xs = xs := by
  induction xs with
  | nil => rfl
  | cons x xs ih =>
      rw [sort_cons, ih h.of_cons]
      cases xs with
      | nil => rfl
      | cons y ys =>
          have hxy : ¬ key y < key x :=
            String.not_lt.2 (List.rel_of_pairwise_cons h (List.mem_cons_self ..))
          rw [insertSorted, if_neg hxy]

@[simp] theorem sort_sort (xs : List α) : sort (sort xs) = sort xs :=
  (sorted_sort xs).sort_eq

theorem map_insertSorted {f : α → β} (hf : ∀ x, key (f x) = key x) (x : α) (ys : List α) :
    insertSorted (f x) (ys.map f) = (insertSorted x ys).map f := by
  induction ys with
  | nil => rfl
  | cons y ys ih =>
      simp only [List.map_cons, insertSorted, hf]
      split
      · rw [ih, List.map_cons]
      · rfl

theorem sort_map {f : α → β} (hf : ∀ x, key (f x) = key x) (xs : List α) :
    sort (xs.map f) = (sort xs).map f := by
  induction xs with
  | nil => rfl
  | cons x xs ih => rw [List.map_cons, sort_cons, sort_cons, ih, map_insertSorted hf]

/-! ## Lookup by key -/

theorem find?_cons {k : String} {x : α} {xs : List α} :
    find? k (x :: xs) = if key x = k then some x else find? k xs := by
  by_cases h : key x = k <;> simp [find?, h]

theorem key_of_find? {k : String} {x : α} {xs : List α} (h : find? k xs = some x) :
    key x = k := by
  simpa using List.find?_some h

theorem mem_of_find? {k : String} {x : α} {xs : List α} (h : find? k xs = some x) : x ∈ xs :=
  List.mem_of_find?_eq_some h

theorem find?_eq_none {k : String} {xs : List α} : find? k xs = none ↔ k ∉ keys xs := by
  simp [find?, mem_keys]

theorem isSome_find? {k : String} {xs : List α} : (find? k xs).isSome = true ↔ k ∈ keys xs := by
  rw [← Option.ne_none_iff_isSome, Ne, find?_eq_none, Decidable.not_not]

theorem Distinct.find?_key {x : α} {xs : List α} (h : Distinct xs) (hx : x ∈ xs) :
    find? (key x) xs = some x := by
  induction xs with
  | nil => cases hx
  | cons y ys ih =>
      obtain ⟨hy, hys⟩ := List.nodup_cons.1 h
      rw [find?_cons]
      rcases List.mem_cons.1 hx with rfl | hx
      · rw [if_pos rfl]
      · have hne : key y ≠ key x := fun heq => hy (by rw [heq]; exact key_mem_keys hx)
        rw [if_neg hne, ih hys hx]

theorem find?_map {f : α → β} (hf : ∀ x, key (f x) = key x) (k : String) (xs : List α) :
    find? k (xs.map f) = (find? k xs).map f := by
  induction xs with
  | nil => rfl
  | cons x xs ih =>
      rw [List.map_cons, find?_cons, find?_cons, hf, ih]
      split <;> rfl

theorem Distinct.find?_filter {xs : List α} (h : Distinct xs) (p : α → Bool) (k : String) :
    find? k (xs.filter p) = (find? k xs).filter p := by
  induction xs with
  | nil => rfl
  | cons x xs ih =>
      obtain ⟨hx, hxs⟩ := List.nodup_cons.1 h
      have ih := ih hxs
      by_cases hk : key x = k
      · -- the key stands nowhere else, so it is found here or not at all
        have hnone : find? k xs = none := find?_eq_none.2 (hk ▸ hx)
        cases hp : p x <;> simp [find?_cons, hk, hp, ih, hnone, Option.filter]
      · cases hp : p x <;> simp [find?_cons, hk, hp, ih]

theorem find?_insertSorted (k : String) (x : α) (ys : List α) :
    find? k (insertSorted x ys) = find? k (x :: ys) := by
  induction ys with
  | nil => rfl
  | cons y ys ih =>
      unfold insertSorted
      split
      · next hlt =>
        -- `x` moves past `y`, and the two keys differ
        rw [find?_cons, ih, find?_cons, find?_cons, find?_cons]
        split
        · next hy => rw [if_neg fun hx => String.lt_irrefl k (by rwa [hy, hx] at hlt)]
        · rfl
      · rfl

/-- Sorting is stable, so a key still finds the same element. -/
@[simp] theorem find?_sort (k : String) (xs : List α) : find? k (sort xs) = find? k xs := by
  induction xs with
  | nil => rfl
  | cons x xs ih => rw [sort_cons, find?_insertSorted, find?_cons, find?_cons, ih]

end Keyed

end MetricCatalog
