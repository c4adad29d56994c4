import MetricCatalog.Key.Map
import MetricCatalog.Key.Set
import MetricCatalog.Proofs.KeyOrder
/-!
# Maps and sets by lookup

A finite map is determined by what it finds under each key, and a finite set by
its members, since both are listed in ascending order.
-/

namespace MetricCatalog

/-- Ascending names are told apart by membership. -/
theorem eq_of_ascending {ns ns' : List String} (h : ns.Pairwise (· < ·))
    (h' : ns'.Pairwise (· < ·)) (hmem : ∀ a, a ∈ ns ↔ a ∈ ns') : ns = ns' := by
  have hperm : ns.Perm ns' :=
    (List.perm_ext_iff_of_nodup (nodup_of_pairwise_lt h) (nodup_of_pairwise_lt h')).2 hmem
  exact hperm.eq_of_pairwise (fun a b _ _ hab hba =>
    absurd (String.lt_trans hab hba) (String.lt_irrefl _)) h h'

theorem KeySet.ext_mem {s t : KeySet} (h : ∀ a, a ∈ s ↔ a ∈ t) : s = t :=
  KeySet.ext (eq_of_ascending s.ascending t.ascending h)

theorem mem_of_lookupEntry {α : Type} {key : String} {a : α} {es : List (String × α)}
    (h : lookupEntry key es = some a) : (key, a) ∈ es := by
  induction es with
  | nil => cases h
  | cons e es ih =>
      obtain ⟨k, x⟩ := e
      rw [lookupEntry] at h
      split at h
      · next heq =>
        cases h
        rw [heq]
        exact List.mem_cons_self ..
      · exact List.mem_cons_of_mem _ (ih h)

theorem lookupEntry_of_mem {α : Type} {key : String} {a : α} {es : List (String × α)}
    (hd : (es.map Prod.fst).Nodup) (h : (key, a) ∈ es) : lookupEntry key es = some a := by
  induction es with
  | nil => cases h
  | cons e es ih =>
      rw [List.map_cons, List.nodup_cons] at hd
      rcases List.mem_cons.1 h with rfl | h
      · rw [lookupEntry, if_pos rfl]
      · have hne : key ≠ e.1 := fun he => hd.1 (he ▸ List.mem_map_of_mem h)
        rw [lookupEntry, if_neg hne, ih hd.2 h]

namespace KeyMap

variable {α : Type} {m n : KeyMap α}

theorem mem_entries {key : String} {a : α} : (key, a) ∈ m.entries ↔ m.find? key = some a :=
  ⟨lookupEntry_of_mem (nodup_of_pairwise_lt m.ascending), mem_of_lookupEntry⟩

theorem mem_keys {key : String} : key ∈ m.keys ↔ m.contains key = true := by
  rw [contains, Option.isSome_iff_exists, keys, List.mem_map]
  constructor
  · rintro ⟨⟨k, a⟩, hmem, rfl⟩
    exact ⟨a, mem_entries.1 hmem⟩
  · rintro ⟨a, h⟩
    exact ⟨(key, a), mem_entries.2 h, rfl⟩

theorem contains_alter {key a : String} {f : Option α → α} :
    (m.alter key f).contains a = true ↔ a = key ∨ m.contains a = true := by
  rw [contains, find?_alter, contains]
  by_cases h : a = key <;> simp [h]

/-- Entries are their keys with what the map finds under them. -/
theorem entries_eq_map {f : String → α} (h : ∀ key a, m.find? key = some a → a = f key) :
    m.entries = m.keys.map fun key => (key, f key) := by
  rw [keys, List.map_map]
  refine (List.map_id _).symm.trans (List.map_congr_left fun e he => ?_)
  exact Prod.ext rfl (h e.1 e.2 (mem_entries.1 he))

theorem pairwise_entries (m : KeyMap α) : m.entries.Pairwise fun e e' => e.1 < e'.1 :=
  List.pairwise_map.1 m.ascending

theorem nodup_entries (m : KeyMap α) : m.entries.Nodup := by
  show m.entries.Pairwise (· ≠ ·)
  refine m.pairwise_entries.imp fun {e e'} hlt heq => ?_
  subst heq
  exact String.lt_irrefl _ hlt

theorem ext_find? (h : ∀ key, m.find? key = n.find? key) : m = n := by
  have hperm : m.entries.Perm n.entries :=
    (List.perm_ext_iff_of_nodup m.nodup_entries n.nodup_entries).2 fun e => by
      rw [mem_entries (a := e.2), mem_entries (a := e.2), h]
  exact KeyMap.ext (hperm.eq_of_pairwise (fun e e' _ _ hlt hgt =>
    absurd (String.lt_trans hlt hgt) (String.lt_irrefl _))
    m.pairwise_entries n.pairwise_entries)

/-- Of distinct keys, each has the value it comes with. -/
theorem find?_insertAll {es : List (String × α)} (hd : (es.map Prod.fst).Nodup) {key : String} :
    (es.foldl (fun m e => m.insert e.1 e.2) m).find? key =
      (lookupEntry key es).or (m.find? key) := by
  induction es generalizing m with
  | nil => rfl
  | cons e es ih =>
      obtain ⟨hnot, hd⟩ := List.nodup_cons.1 hd
      rw [List.foldl_cons, ih hd, find?_insert, lookupEntry]
      by_cases hkey : key = e.1
      · rw [lookupEntry_eq_none (hkey ▸ hnot), if_pos hkey, if_pos hkey]
        rfl
      · rw [if_neg hkey, if_neg hkey]

/-- The entries of a map make it in any order. -/
theorem ofList_of_perm {es : List (String × α)} (h : es.Perm m.entries) : ofList es = m := by
  have hd : (es.map Prod.fst).Nodup :=
    (h.map Prod.fst).nodup_iff.2 (nodup_of_pairwise_lt m.ascending)
  refine ext_find? fun key => ?_
  rw [ofList, find?_insertAll hd, find?_empty, Option.or_none]
  refine Option.ext fun a => ?_
  rw [← mem_entries, ← h.mem_iff]
  exact ⟨mem_of_lookupEntry, lookupEntry_of_mem hd⟩

theorem erase_of_not_mem {key : String} (h : key ∉ m.keys) : m.erase key = m := by
  refine KeyMap.ext (List.filter_eq_self.2 fun e he => decide_eq_true fun heq => h ?_)
  rw [← heq]
  exact List.mem_map_of_mem he

end KeyMap

end MetricCatalog
