/-!
# Finite maps keyed by name

A map is its list of entries in strictly ascending key order, so it has one
representation and reads out sorted.  `find?` is its view: each operation says
what it does to `find?`.
-/

namespace MetricCatalog

/-- The value under a key: the first entry that has it. -/
def lookupEntry {α : Type} (key : String) : List (String × α) → Option α
  | [] => none
  | (k, a) :: rest => if key = k then some a else lookupEntry key rest

theorem lookupEntry_eq_none {α : Type} {key : String} {es : List (String × α)}
    (h : key ∉ es.map Prod.fst) : lookupEntry key es = none := by
  induction es with
  | nil => rfl
  | cons e es ih =>
    simp only [List.map_cons, List.mem_cons, not_or] at h
    simp [lookupEntry, h.1, ih h.2]

/-- Sets the entry of a key from what the key held before. -/
def alterEntry {α : Type} (key : String) (f : Option α → α) :
    List (String × α) → List (String × α)
  | [] => [(key, f none)]
  | (k, a) :: rest =>
    if key < k then (key, f none) :: (k, a) :: rest
    else if k < key then (k, a) :: alterEntry key f rest
    else (k, f (some a)) :: rest

theorem mem_keys_alterEntry {α : Type} {a key : String} {f : Option α → α}
    {es : List (String × α)} :
    a ∈ (alterEntry key f es).map Prod.fst ↔ a = key ∨ a ∈ es.map Prod.fst := by
  induction es with
  | nil => simp [alterEntry]
  | cons e es ih =>
    obtain ⟨k, x⟩ := e
    unfold alterEntry
    split
    · simp
    · split
      · simp only [List.map_cons, List.mem_cons, ih]
        exact or_left_comm
      · next hl hg =>
        have : key = k := String.le_antisymm (String.not_lt.1 hg) (String.not_lt.1 hl)
        simp [this]

theorem pairwise_alterEntry {α : Type} {key : String} {f : Option α → α}
    {es : List (String × α)} (h : (es.map Prod.fst).Pairwise (· < ·)) :
    ((alterEntry key f es).map Prod.fst).Pairwise (· < ·) := by
  induction es with
  | nil => simp [alterEntry]
  | cons e es ih =>
    obtain ⟨k, x⟩ := e
    rw [List.map_cons, List.pairwise_cons] at h
    unfold alterEntry
    split
    · next hl =>
      exact .cons (fun a ha => by
        rcases List.mem_cons.1 ha with rfl | ha
        · exact hl
        · exact String.lt_trans hl (h.1 a ha)) (.cons h.1 h.2)
    · split
      · next hg =>
        exact .cons (fun a ha => by
          rcases mem_keys_alterEntry.1 ha with rfl | ha
          · exact hg
          · exact h.1 a ha) (ih h.2)
      · exact .cons h.1 h.2

/-- A finite map from names, listed in ascending key order. -/
structure KeyMap (α : Type) where
  entries : List (String × α)
  ascending : (entries.map Prod.fst).Pairwise (· < ·)
deriving DecidableEq

namespace KeyMap

variable {α : Type}

@[ext] theorem ext {m n : KeyMap α} (h : m.entries = n.entries) : m = n := by
  cases m; cases n; simp_all

def empty : KeyMap α := ⟨[], List.Pairwise.nil⟩

instance : EmptyCollection (KeyMap α) := ⟨empty⟩

instance : Inhabited (KeyMap α) := ⟨empty⟩

def keys (m : KeyMap α) : List String := m.entries.map Prod.fst

def find? (m : KeyMap α) (key : String) : Option α :=
  lookupEntry key m.entries

def contains (m : KeyMap α) (key : String) : Bool :=
  (m.find? key).isSome

def alter (m : KeyMap α) (key : String) (f : Option α → α) : KeyMap α :=
  ⟨alterEntry key f m.entries, pairwise_alterEntry m.ascending⟩

def insert (m : KeyMap α) (key : String) (value : α) : KeyMap α :=
  m.alter key fun _ => value

def erase (m : KeyMap α) (key : String) : KeyMap α :=
  ⟨m.entries.filter (·.1 ≠ key),
    m.ascending.sublist (List.filter_sublist.map Prod.fst)⟩

/-- The later of two entries with one key counts. -/
def ofList (entries : List (String × α)) : KeyMap α :=
  entries.foldl (fun m e => m.insert e.1 e.2) empty

/-! ## What each operation does to `find?` -/

private theorem lookup_alterEntry {key a : String} {f : Option α → α}
    {es : List (String × α)} (h : (es.map Prod.fst).Pairwise (· < ·)) :
    lookupEntry a (alterEntry key f es) =
      if a = key then some (f (lookupEntry key es)) else lookupEntry a es := by
  induction es with
  | nil => rfl
  | cons e es ih =>
    obtain ⟨k, x⟩ := e
    rw [List.map_cons, List.pairwise_cons] at h
    unfold alterEntry
    split
    · next hl =>
      have hne : key ≠ k := fun he => String.lt_irrefl k (he ▸ hl)
      have hnone : lookupEntry key es = none := lookupEntry_eq_none fun hm =>
        String.lt_irrefl key (String.lt_trans hl (h.1 key hm))
      by_cases ha : a = key <;> simp [lookupEntry, ha, hne, hnone]
    · split
      · next hg =>
        have hne : key ≠ k := fun he => String.lt_irrefl k (he ▸ hg)
        by_cases hk : a = k
        · subst hk
          simp [lookupEntry, Ne.symm hne]
        · simp [lookupEntry, hk, hne, ih h.2]
      · next hl hg =>
        have : key = k := String.le_antisymm (String.not_lt.1 hg) (String.not_lt.1 hl)
        subst this
        by_cases ha : a = key <;> simp [lookupEntry, ha]

@[simp] theorem find?_empty {key : String} : (empty : KeyMap α).find? key = none := rfl

theorem find?_alter {m : KeyMap α} {key a : String} {f : Option α → α} :
    (m.alter key f).find? a = if a = key then some (f (m.find? key)) else m.find? a :=
  lookup_alterEntry m.ascending

theorem find?_insert {m : KeyMap α} {key a : String} {value : α} :
    (m.insert key value).find? a = if a = key then some value else m.find? a :=
  find?_alter

end KeyMap

end MetricCatalog
