/-!
# Finite sets of names

A set is its list of members in strictly ascending order, so two sets with the
same members are equal.  Names compare by code point, which is the byte order
of their UTF-8 form.
-/

namespace MetricCatalog

/-- Adds a name to an ascending list that may hold it already. -/
def insertName (name : String) : List String → List String
  | [] => [name]
  | n :: ns =>
    if name < n then name :: n :: ns
    else if n < name then n :: insertName name ns
    else n :: ns

theorem mem_insertName {a name : String} {ns : List String} :
    a ∈ insertName name ns ↔ a = name ∨ a ∈ ns := by
  induction ns with
  | nil => simp [insertName]
  | cons n ns ih =>
    unfold insertName
    split
    · simp
    · split
      · simp [ih, or_left_comm]
      · next hl hg =>
        have : name = n := String.le_antisymm (String.not_lt.1 hg) (String.not_lt.1 hl)
        simp [this]

theorem pairwise_insertName {name : String} {ns : List String}
    (h : ns.Pairwise (· < ·)) : (insertName name ns).Pairwise (· < ·) := by
  induction ns with
  | nil => simp [insertName]
  | cons n ns ih =>
    rw [List.pairwise_cons] at h
    unfold insertName
    split
    · next hl =>
      exact .cons (fun a ha => by
        rcases List.mem_cons.1 ha with rfl | ha
        · exact hl
        · exact String.lt_trans hl (h.1 a ha)) (.cons h.1 h.2)
    · split
      · next hg =>
        exact .cons (fun a ha => by
          rcases mem_insertName.1 ha with rfl | ha
          · exact hg
          · exact h.1 a ha) (ih h.2)
      · exact .cons h.1 h.2

/-- A finite set of names, listed in ascending order. -/
structure KeySet where
  toList : List String
  ascending : toList.Pairwise (· < ·)
deriving DecidableEq

namespace KeySet

@[ext] theorem ext {s t : KeySet} (h : s.toList = t.toList) : s = t := by
  cases s; cases t; simp_all

theorem ascending_nil : ([] : List String).Pairwise (· < ·) := .nil

def empty : KeySet := ⟨[], ascending_nil⟩

def insert (s : KeySet) (name : String) : KeySet :=
  ⟨insertName name s.toList, pairwise_insertName s.ascending⟩

def insertAll (s : KeySet) (names : List String) : KeySet :=
  names.foldl insert s

def ofList (names : List String) : KeySet :=
  empty.insertAll names

def contains (s : KeySet) (name : String) : Bool :=
  s.toList.contains name

def size (s : KeySet) : Nat := s.toList.length

def isEmpty (s : KeySet) : Bool := s.toList.isEmpty

instance : Membership String KeySet := ⟨fun s name => name ∈ s.toList⟩

instance : EmptyCollection KeySet := ⟨empty⟩

theorem mem_toList {name : String} {s : KeySet} : name ∈ s.toList ↔ name ∈ s := Iff.rfl

@[simp] theorem not_mem_empty {name : String} : name ∉ empty := by
  simp [← mem_toList, empty]

@[simp] theorem mem_insert {s : KeySet} {a name : String} :
    a ∈ s.insert name ↔ a = name ∨ a ∈ s := mem_insertName

@[simp] theorem mem_insertAll {s : KeySet} {a : String} {names : List String} :
    a ∈ s.insertAll names ↔ a ∈ names ∨ a ∈ s := by
  unfold insertAll
  induction names generalizing s with
  | nil => simp
  | cons n names ih => simp [ih, or_left_comm, or_assoc]

@[simp] theorem mem_ofList {a : String} {names : List String} :
    a ∈ ofList names ↔ a ∈ names := by
  simp [ofList]

@[simp] theorem contains_iff {s : KeySet} {name : String} :
    s.contains name = true ↔ name ∈ s := by
  simp [contains, ← mem_toList]

end KeySet

end MetricCatalog
