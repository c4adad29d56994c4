import MetricCatalog.Catalog.Basic
/-!
# Key order

Sequences sort by key, and elements with one key keep their order.  A catalog
is canonical when each of its sequences is strictly ascending.
-/

namespace MetricCatalog

namespace Keyed

variable {α : Type} [Keyed α]

/-- Puts `x` before the first element whose key is not smaller. -/
def insertSorted (x : α) : List α → List α
  | [] => [x]
  | y :: ys => if key y < key x then y :: insertSorted x ys else x :: y :: ys

/-- Sorts by key; equal keys keep their order. -/
def sort (xs : List α) : List α :=
  xs.foldr insertSorted []

/-- Strictly ascending by key, so no key occurs twice. -/
def Ascending (xs : List α) : Prop :=
  xs.Pairwise fun x y => key x < key y

/-- Compares neighbours only. -/
def isAscending : List α → Bool
  | [] => true
  | [_] => true
  | x :: y :: rest => decide (key x < key y) && isAscending (y :: rest)

theorem isAscending_iff {xs : List α} : isAscending xs = true ↔ Ascending xs := by
  induction xs with
  | nil => simp [isAscending, Ascending]
  | cons x xs ih =>
    cases xs with
    | nil => simp [isAscending, Ascending]
    | cons y ys =>
      rw [isAscending, Bool.and_eq_true, decide_eq_true_eq, ih]
      constructor
      · intro ⟨hxy, h⟩
        refine .cons (fun z hz => ?_) h
        rcases List.mem_cons.1 hz with rfl | hz
        · exact hxy
        · exact String.lt_trans hxy (List.rel_of_pairwise_cons h hz)
      · intro h
        exact ⟨List.rel_of_pairwise_cons h (List.mem_cons_self ..), h.of_cons⟩

@[simp] theorem sort_nil : sort ([] : List α) = [] := rfl

@[simp] theorem sort_cons {x : α} {xs : List α} :
    sort (x :: xs) = insertSorted x (sort xs) := rfl

theorem insertSorted_perm (x : α) (ys : List α) : (insertSorted x ys).Perm (x :: ys) := by
  induction ys with
  | nil => exact .refl _
  | cons y ys ih =>
    unfold insertSorted
    split
    · exact (ih.cons y).trans (.swap x y ys)
    · exact .refl _

theorem sort_perm (xs : List α) : (sort xs).Perm xs := by
  induction xs with
  | nil => exact .refl _
  | cons x xs ih => exact (insertSorted_perm x _).trans (ih.cons x)

end Keyed

instance : Keyed String := ⟨id⟩

def Label.canonical (l : Label) : Label :=
  { l with values := Keyed.sort l.values }

def Metric.canonical (m : Metric) : Metric :=
  { m with labels := (Keyed.sort m.labels).map Label.canonical }

def Component.canonical (c : Component) : Component :=
  { c with metrics := (Keyed.sort c.metrics).map Metric.canonical }

namespace Catalog

/-- Sorts every sequence by key and changes nothing else. -/
def canonical (c : Catalog) : Catalog :=
  { c with components := (Keyed.sort c.components).map Component.canonical }

def labels (c : Catalog) : List Label := c.metrics.flatMap (·.labels)

def isAscendingAt (c : Catalog) : Level → Bool
  | .component => Keyed.isAscending c.components
  | .metric => c.components.all (Keyed.isAscending ·.metrics)
  | .label => c.metrics.all (Keyed.isAscending ·.labels)
  | .value => c.labels.all (Keyed.isAscending ·.values)

end Catalog

end MetricCatalog
