import MetricCatalog.Yaml.Reading
import MetricCatalog.Yaml.Tree
/-!
# Trees with fields left out

A field that says nothing more than its default may be left out of a record,
and the fields of a record may come in any order.  What is left is read back
field by field, and a record without its key is not read at all.  So a value is
read from a thinned tree exactly if no key has been lost on the way.
-/

namespace MetricCatalog.Yaml

namespace Tree

/-! ## The nodes of a tree -/

mutual

/-- What a tree is as a part of a document that was read. -/
def node : Tree → Node
  | text s => .scalar none (styleOf s.toList) s
  | word s => .scalar none .plain s
  | list items => .list (nodes items)
  | record fields => .record (entries fields)

def nodes : List Tree → List Node
  | [] => []
  | item :: items => item.node :: nodes items

def entries : List (String × Tree) → List (Node × Node)
  | [] => []
  | (name, value) :: fields => (.scalar none .plain name, value.node) :: entries fields

end

/-! ## Thinning -/

/-- The names of the fields that identify a record among its siblings. -/
def keyNames : List String := ["prefix", "name", "value"]

/-- What a field stands for that is not there. -/
def IsDefault : Tree → Prop
  | text s => s = ""
  | word s => s = "false" ∨ s = "UNTYPED"
  | list items => items = []
  | record _ => False

mutual

/-- The second tree is the first one without some of the fields, with the other
fields in any order.  Those left out have their default, but for so many keys. -/
inductive Thins : Nat → Tree → Tree → Prop
  | text (s : String) : Thins 0 (text s) (text s)
  | word (s : String) : Thins 0 (word s) (word s)
  | list {lost : Nat} {items items' : List Tree} (hitems : ThinsItems lost items items') :
      Thins lost (list items) (list items')
  | record {lost : Nat} {fields kept fields' : List (String × Tree)}
      (hfields : ThinsFields lost fields kept) (horder : kept.Perm fields') :
      Thins lost (record fields) (record fields')

inductive ThinsItems : Nat → List Tree → List Tree → Prop
  | nil : ThinsItems 0 [] []
  | cons {lost more : Nat} {t t' : Tree} {items items' : List Tree} (hitem : Thins lost t t')
      (hitems : ThinsItems more items items') : ThinsItems (lost + more) (t :: items) (t' :: items')

inductive ThinsFields : Nat → List (String × Tree) → List (String × Tree) → Prop
  | nil : ThinsFields 0 [] []
  | keep {lost more : Nat} {name : String} {t t' : Tree} {fields kept : List (String × Tree)}
      (hvalue : Thins lost t t') (hfields : ThinsFields more fields kept) :
      ThinsFields (lost + more) ((name, t) :: fields) ((name, t') :: kept)
  | drop {lost : Nat} {name : String} {t : Tree} {fields kept : List (String × Tree)}
      (hname : name ∉ keyNames) (hdefault : t.IsDefault) (hfields : ThinsFields lost fields kept) :
      ThinsFields lost ((name, t) :: fields) kept
  | lose {lost : Nat} {name : String} {t : Tree} {fields kept : List (String × Tree)}
      (hname : name ∈ keyNames) (hfields : ThinsFields lost fields kept) :
      ThinsFields (1 + lost) ((name, t) :: fields) kept

end

mutual

theorem thins_refl : ∀ t : Tree, Thins 0 t t
  | text s => .text s
  | word s => .word s
  | list items => .list (thinsItems_refl items)
  | record fields => .record (thinsFields_refl fields) (.refl fields)

theorem thinsItems_refl : ∀ items : List Tree, ThinsItems 0 items items
  | [] => .nil
  | item :: items => .cons (thins_refl item) (thinsItems_refl items)

theorem thinsFields_refl : ∀ fields : List (String × Tree), ThinsFields 0 fields fields
  | [] => .nil
  | (_, value) :: fields => .keep (thins_refl value) (thinsFields_refl fields)

end

/-! ## What is left of a field -/

variable {lost : Nat} {name : String} {t : Tree} {fields kept fields' : List (String × Tree)}

/-- What a record that has been thinned still says of one of its fields. -/
inductive FieldThins (fields' : List (String × Tree)) : Nat → String → Tree → Prop
  | kept {lost : Nat} {name : String} {t t' : Tree}
      (hfound : fields'.filter (·.1 = name) = [(name, t')]) (hvalue : Thins lost t t') :
      FieldThins fields' lost name t
  | dropped {name : String} {t : Tree} (hfound : fields'.filter (·.1 = name) = [])
      (hname : name ∉ keyNames) (hdefault : t.IsDefault) : FieldThins fields' 0 name t
  | lost {name : String} {t : Tree} (hfound : fields'.filter (·.1 = name) = [])
      (hname : name ∈ keyNames) : FieldThins fields' 1 name t

/-- What it says of all of them. -/
inductive FieldsThin (fields' : List (String × Tree)) : Nat → List (String × Tree) → Prop
  | nil : FieldsThin fields' 0 []
  | cons {lost more : Nat} {name : String} {t : Tree} {fields : List (String × Tree)}
      (hfield : FieldThins fields' lost name t) (hfields : FieldsThin fields' more fields) :
      FieldsThin fields' (lost + more) ((name, t) :: fields)

theorem ThinsFields.subset (h : ThinsFields lost fields kept) :
    kept.map Prod.fst ⊆ fields.map Prod.fst := by
  induction fields generalizing lost kept with
  | nil => cases h; exact List.Subset.refl _
  | cons field fields ih =>
      cases h with
      | keep hvalue hfields => exact List.cons_subset_cons _ (ih hfields)
      | drop hname hdefault hfields => exact List.subset_cons_of_subset _ (ih hfields)
      | lose hname hfields => exact List.subset_cons_of_subset _ (ih hfields)

theorem filter_of_notMem (h : name ∉ kept.map Prod.fst) : kept.filter (·.1 = name) = [] :=
  List.filter_eq_nil_iff.2 fun _ hmem hname =>
    h (of_decide_eq_true hname ▸ List.mem_map_of_mem hmem)

/-- A name that no other field has is looked up among the fields that were kept,
wherever these now stand. -/
theorem ThinsFields.fieldsThin (h : ThinsFields lost fields kept)
    (hnames : (fields.map Prod.fst).Nodup)
    (hfound : ∀ name ∈ fields.map Prod.fst,
      (fields'.filter (·.1 = name)).Perm (kept.filter (·.1 = name))) :
    FieldsThin fields' lost fields := by
  induction fields generalizing lost kept with
  | nil => cases h; exact .nil
  | cons field fields ih =>
      obtain ⟨name, t⟩ := field
      obtain ⟨hnew, hnames⟩ := List.nodup_cons.1 hnames
      have hhere := hfound name List.mem_cons_self
      have hthere := fun other hmem => hfound other (List.mem_cons_of_mem _ hmem)
      cases h with
      | keep hvalue hfields =>
          refine .cons (.kept ?_ hvalue) (ih hfields hnames fun other hmem => ?_)
          · rw [List.filter_cons_of_pos (by simp),
              filter_of_notMem fun hmem => hnew (hfields.subset hmem)] at hhere
            exact List.perm_singleton.1 hhere
          · have hother : name ≠ other := fun heq => hnew (heq ▸ hmem)
            simpa [hother] using hthere other hmem
      | drop hname hdefault hfields =>
          rw [filter_of_notMem fun hmem => hnew (hfields.subset hmem)] at hhere
          have hrest := ih hfields hnames hthere
          exact Nat.zero_add lost ▸ .cons (.dropped (List.perm_nil.1 hhere) hname hdefault) hrest
      | lose hname hfields =>
          rw [filter_of_notMem fun hmem => hnew (hfields.subset hmem)] at hhere
          exact .cons (.lost (List.perm_nil.1 hhere) hname) (ih hfields hnames hthere)

theorem Thins.fieldsThin (h : Thins lost (.record fields) t)
    (hnames : (fields.map Prod.fst).Nodup) :
    ∃ fields', t = .record fields' ∧ FieldsThin fields' lost fields := by
  cases h with
  | record hfields horder =>
      exact ⟨_, rfl, hfields.fieldsThin hnames fun name _ => (horder.filter _).symm⟩

end Tree

/-! ## Reading what is left -/

namespace Reading

open Yaml.Tree (Thins ThinsItems FieldThins)

variable {α β : Type} {lost more : Nat} {r : Reading α} {a : α} {t : Tree}

/-- A reading gives the value, unless keys have been lost: then it fails. -/
def Gives (lost : Nat) (r : Reading α) (a : α) : Prop :=
  (lost = 0 → r = pure a) ∧ (lost ≠ 0 → ∃ reason, r = throw reason)

theorem gives_pure (a : α) : Gives 0 (pure a) a := ⟨fun _ => rfl, fun h => absurd rfl h⟩

theorem gives_throw (h : lost ≠ 0) (reason : Mismatch) (a : α) : Gives lost (throw reason) a :=
  ⟨fun hlost => absurd hlost h, fun _ => ⟨reason, rfl⟩⟩

/-- A reading goes on with what it was given, and stops where it failed. -/
theorem Gives.bind {f : α → Reading β} {b : β} (h : Gives lost r a) (hf : Gives more (f a) b) :
    Gives (lost + more) (r >>= f) b := by
  by_cases hlost : lost = 0
  · obtain rfl := hlost
    rw [h.1 rfl, pure_bind, Nat.zero_add]
    exact hf
  · obtain ⟨reason, rfl⟩ := h.2 hlost
    exact gives_throw (by omega) reason b

theorem Gives.map (h : Gives lost r a) (f : α → β) :
    Gives lost (r >>= fun x => pure (f x)) (f a) :=
  h.bind (f := fun x => pure (f x)) (gives_pure (f a))

/-! ## Scalars and lists -/

theorem gives_text {s : String} (h : Thins lost (.text s) t) : Gives lost (text t.node) s := by
  cases h
  exact gives_pure s

theorem gives_flag {b : Bool} (h : Thins lost (.flag b) t) : Gives lost (flag t.node) b := by
  cases h
  cases b <;> exact gives_pure _

theorem gives_list {toTree : α → Tree} {item : Node → Reading α} {xs : List α}
    (hitem : ∀ {lost : Nat} {t : Tree} (x : α), Thins lost (toTree x) t →
      Gives lost (item t.node) x)
    (h : Thins lost (.list (xs.map toTree)) t) : Gives lost (list item t.node) xs := by
  induction xs generalizing lost t with
  | nil =>
      cases h with
      | list hitems => cases hitems; exact gives_pure _
  | cons x xs ih =>
      cases h with
      | list hitems =>
          cases hitems with
          | @cons _ _ _ _ _ items' hfirst hrest =>
              have hxs : Gives _ ((Tree.nodes items').mapM item) xs := ih (.list hrest)
              show Gives _ ((Tree.nodes (_ :: items')).mapM item) (x :: xs)
              rw [Tree.nodes, List.mapM_cons]
              exact (hitem x hfirst).bind (hxs.map (x :: ·))

/-! ## Records -/

/-- The fields of a record as they are read. -/
def named (fields : List (String × Tree)) : List (String × Node) :=
  fields.map fun field => (field.1, field.2.node)

theorem fields_node (fs : List (String × Tree)) :
    fields (Tree.record fs).node = pure (named fs) := by
  show (Tree.entries fs).mapM (fun entry => do return (← text entry.1, entry.2)) = _
  induction fs with
  | nil => rfl
  | cons field fs ih =>
      rw [Tree.entries, List.mapM_cons, ih]
      rfl

theorem filter_named (fs : List (String × Tree)) (name : String) :
    (named fs).filter (·.1 = name) = named (fs.filter (·.1 = name)) :=
  List.filter_map

variable {fields : List (String × Tree)} {name : String} {value : Node → Reading α}

/-- A record is not read without its key. -/
theorem gives_field (h : FieldThins fields lost name t) (hname : name ∈ Tree.keyNames)
    (hvalue : ∀ {lost : Nat} {t' : Tree}, Thins lost t t' → Gives lost (value t'.node) a) :
    Gives lost (field name value (named fields)) a := by
  unfold field field?
  rw [filter_named]
  cases h with
  | kept hfound hthins =>
      rw [hfound]
      show Gives (lost + 0) _ a
      exact ((hvalue hthins).map some).bind (gives_pure a)
  | dropped hfound hother hdefault => exact absurd hname hother
  | lost hfound hkey =>
      rw [hfound]
      exact gives_throw Nat.one_ne_zero _ a

/-- Any other field is read as its default where it was left out. -/
theorem gives_fieldOr {default : α} (h : FieldThins fields lost name t)
    (hname : name ∉ Tree.keyNames) (hdefault : t.IsDefault → default = a)
    (hvalue : ∀ {lost : Nat} {t' : Tree}, Thins lost t t' → Gives lost (value t'.node) a) :
    Gives lost (fieldOr name value default (named fields)) a := by
  unfold fieldOr field?
  rw [filter_named]
  cases h with
  | kept hfound hthins =>
      rw [hfound]
      exact ((hvalue hthins).map some).map (·.getD default)
  | dropped hfound hother hempty =>
      rw [hfound, ← hdefault hempty]
      exact gives_pure _
  | lost hfound hkey => exact absurd hkey hname

end Reading

end MetricCatalog.Yaml
