import MetricCatalog.Proofs.TreeReading
import MetricCatalog.Proofs.Validation
/-!
# The forms of a catalog's document

A catalog is read back from the document that is written for it, and so it is
from any document that leaves out defaults or has the fields in another order.
Each level of the catalog reads its fields in turn, so its lemma is a chain of
the lemmas for the fields.
-/

namespace MetricCatalog

open Yaml (Node Tree Reading)
open Yaml.Tree (Thins IsDefault)
open Yaml.Reading (Gives gives_pure gives_text gives_flag gives_list gives_field gives_fieldOr
  fields_node)

variable {lost : Nat} {t : Tree}

/-! ## Level by level -/

theorem Kind.gives_ofNode {k : Kind} (h : Thins lost (.word k.tag) t) :
    Gives lost (Kind.ofNode t.node) k := by
  cases h
  have hword : Gives 0 (Yaml.Reading.word (Tree.word k.tag).node) k.tag := gives_pure k.tag
  rw [Kind.ofNode, ← Nat.zero_add 0]
  refine hword.bind ?_
  rw [Kind.ofTag?_tag]
  exact gives_pure k

theorem Kind.eq_untyped_of_isDefault {k : Kind} (h : IsDefault (.word k.tag)) : .untyped = k := by
  cases k with
  | untyped => rfl
  | counter | gauge | histogram | gaugeHistogram | summary => simp [IsDefault, Kind.tag] at h

theorem eq_false_of_isDefault {b : Bool} (h : IsDefault (.flag b)) : false = b := by
  cases b
  · rfl
  · simp [IsDefault, Tree.flag] at h

theorem eq_nil_of_isDefault {α : Type} {toTree : α → Tree} {xs : List α}
    (h : IsDefault (.list (xs.map toTree))) : [] = xs :=
  (List.map_eq_nil_iff.1 h).symm

theorem LabelValue.gives_ofNode {v : LabelValue} (h : Thins lost v.toTree t) :
    Gives lost (LabelValue.ofNode t.node) v := by
  obtain ⟨fields, rfl, hfields⟩ := h.fieldsThin (by simp)
  obtain _ | ⟨hvalue, _ | ⟨hdesc, _ | _⟩⟩ := hfields
  rw [LabelValue.ofNode, fields_node, pure_bind]
  exact (gives_field hvalue (by decide) gives_text).bind <|
    (gives_fieldOr hdesc (by decide) Eq.symm gives_text).bind (gives_pure v)

theorem Label.gives_ofNode {l : Label} (h : Thins lost l.toTree t) :
    Gives lost (Label.ofNode t.node) l := by
  obtain ⟨fields, rfl, hfields⟩ := h.fieldsThin (by simp)
  obtain _ | ⟨hname, _ | ⟨hdesc, _ | ⟨hlocked, _ | ⟨hfixed, _ | ⟨hvalues, _ | _⟩⟩⟩⟩⟩ := hfields
  rw [Label.ofNode, fields_node, pure_bind]
  exact (gives_field hname (by decide) gives_text).bind <|
    (gives_fieldOr hdesc (by decide) Eq.symm gives_text).bind <|
    (gives_fieldOr hlocked (by decide) eq_false_of_isDefault gives_flag).bind <|
    (gives_fieldOr hfixed (by decide) eq_false_of_isDefault gives_flag).bind <|
    (gives_fieldOr hvalues (by decide) eq_nil_of_isDefault
      (gives_list fun _ => LabelValue.gives_ofNode)).bind (gives_pure l)

theorem Metric.gives_ofNode {m : Metric} (h : Thins lost m.toTree t) :
    Gives lost (Metric.ofNode t.node) m := by
  obtain ⟨fields, rfl, hfields⟩ := h.fieldsThin (by simp)
  obtain _ | ⟨hname, _ | ⟨hkind, _ | ⟨hunit, _ | ⟨hhelp, _ | ⟨hlabels, _ | ⟨hsince, _ | _⟩⟩⟩⟩⟩⟩ :=
    hfields
  rw [Metric.ofNode, fields_node, pure_bind]
  exact (gives_field hname (by decide) gives_text).bind <|
    (gives_fieldOr hkind (by decide) Kind.eq_untyped_of_isDefault Kind.gives_ofNode).bind <|
    (gives_fieldOr hunit (by decide) Eq.symm gives_text).bind <|
    (gives_fieldOr hhelp (by decide) Eq.symm gives_text).bind <|
    (gives_fieldOr hlabels (by decide) eq_nil_of_isDefault
      (gives_list fun _ => Label.gives_ofNode)).bind <|
    (gives_fieldOr hsince (by decide) Eq.symm gives_text).bind (gives_pure m)

theorem Component.gives_ofNode {c : Component} (h : Thins lost c.toTree t) :
    Gives lost (Component.ofNode t.node) c := by
  obtain ⟨fields, rfl, hfields⟩ := h.fieldsThin (by simp)
  obtain _ | ⟨hstem, _ | ⟨htitle, _ | ⟨hdesc, _ | ⟨hmetrics, _ | _⟩⟩⟩⟩ := hfields
  rw [Component.ofNode, fields_node, pure_bind]
  exact (gives_field hstem (by decide) gives_text).bind <|
    (gives_fieldOr htitle (by decide) Eq.symm gives_text).bind <|
    (gives_fieldOr hdesc (by decide) Eq.symm gives_text).bind <|
    (gives_fieldOr hmetrics (by decide) eq_nil_of_isDefault
      (gives_list fun _ => Metric.gives_ofNode)).bind (gives_pure c)

theorem Catalog.gives_ofNode {c : Catalog} (h : Thins lost c.toTree t) :
    Gives lost (Catalog.ofNode t.node) c := by
  obtain ⟨fields, rfl, hfields⟩ := h.fieldsThin (by simp)
  obtain _ | ⟨hversion, _ | ⟨hcomponents, _ | _⟩⟩ := hfields
  rw [Catalog.ofNode, fields_node, pure_bind]
  exact (gives_fieldOr hversion (by decide) Eq.symm gives_text).bind <|
    (gives_fieldOr hcomponents (by decide) eq_nil_of_isDefault
      (gives_list fun _ => Component.gives_ofNode)).bind (gives_pure c)

/-! ## Trees of catalogs -/

open Yaml.Tree (IsRecord IsValue AreFields AreRecords areRecords_map)
open Yaml (IsName)

theorem LabelValue.isRecord_toTree (v : LabelValue) : v.toTree.IsRecord := by
  simp only [toTree, IsRecord, AreFields, IsValue]
  decide

theorem isValue_flag (b : Bool) : (Tree.flag b).IsValue := by
  simp only [Tree.flag, IsValue]
  revert b
  decide

theorem Label.isRecord_toTree (l : Label) : l.toTree.IsRecord := by
  have hvalues := areRecords_map LabelValue.isRecord_toTree l.values
  simp only [toTree, IsRecord, AreFields, IsValue, isValue_flag, hvalues]
  decide

theorem Kind.isName_tag (k : Kind) : IsName k.tag.toList := by
  cases k <;> decide

theorem Metric.isRecord_toTree (m : Metric) : m.toTree.IsRecord := by
  have hlabels := areRecords_map Label.isRecord_toTree m.labels
  simp only [toTree, IsRecord, AreFields, IsValue, m.kind.isName_tag, hlabels]
  decide

theorem Component.isRecord_toTree (c : Component) : c.toTree.IsRecord := by
  have hmetrics := areRecords_map Metric.isRecord_toTree c.metrics
  simp only [toTree, IsRecord, AreFields, IsValue, hmetrics]
  decide

theorem Catalog.isRecord_toTree (c : Catalog) : c.toTree.IsRecord := by
  have hcomponents := areRecords_map Component.isRecord_toTree c.components
  simp only [toTree, IsRecord, AreFields, IsValue, hcomponents]
  decide

/-! ## Documents -/

/-- What a reading gives does not depend on the document around it. -/
theorem read_of_gives {α : Type} {value : Node → Reading α} {a : α} (ht : t.IsRecord)
    (h : Gives lost (value t.node) a) :
    (lost = 0 → Yaml.read value t.render = .ok a) ∧
    (lost ≠ 0 → ∃ reason, Yaml.read value t.render = .error reason) := by
  rw [Yaml.read, Yaml.Tree.parse_render ht]
  dsimp only [Yaml.Document.read, Yaml.Document.ofNode]
  refine ⟨fun hlost => ?_, fun hlost => ?_⟩
  · rw [h.1 hlost]
    rfl
  · obtain ⟨reason, hreason⟩ := h.2 hlost
    rw [hreason]
    exact ⟨reason, rfl⟩

/-- Even a record without fields is written with signs. -/
theorem isBlankText_render_record (fields : List (String × Tree)) :
    Text.isBlankText (Tree.record fields).render = false := by
  have hcolon (before after : List Char) :
      Text.isBlankText (String.ofList (before ++ ':' :: after)) = false := by
    rw [Text.isBlankText, String.toList_ofList, List.all_append, List.all_cons,
      show Text.isBlank ':' = false from rfl, Bool.false_and, Bool.and_false]
  cases fields with
  | nil => rfl
  | cons field fields =>
      obtain ⟨name, value⟩ := field
      rw [Tree.render, Yaml.Layout.writeFields_cons, List.append_assoc]
      · exact hcolon _ _
      · simp

namespace Catalog

variable {c : Catalog}

theorem parse_of_thins (h : Thins lost c.toTree t) :
    (lost = 0 → parse t.render =
      match c.validate with
      | .error key => .error (.duplicate key)
      | .ok _ => .ok c) ∧
    (lost ≠ 0 → ∃ reason, parse t.render = .error (.malformed reason)) := by
  obtain ⟨hwhole, hlost⟩ := read_of_gives (c.isRecord_toTree.thins h) (Catalog.gives_ofNode h)
  obtain ⟨fields, rfl, -⟩ := h.fieldsThin (by simp)
  rw [parse, isBlankText_render_record]
  refine ⟨fun h => ?_, fun h => ?_⟩
  · rw [hwhole h]
    dsimp only
    cases c.validate <;> rfl
  · obtain ⟨reason, hreason⟩ := hlost h
    rw [hreason]
    exact ⟨reason, rfl⟩

theorem parse_render_eq (c : Catalog) : parse c.render =
    match c.validate with
    | .error key => .error (.duplicate key)
    | .ok _ => .ok c :=
  (parse_of_thins (Yaml.Tree.thins_refl c.toTree)).1 rfl

/-- A catalog is read back from its own document, if its keys are unique. -/
theorem parse_render (hd : c.Distinct) : parse c.render = .ok c := by
  rw [parse_render_eq, validate_eq_ok.2 hd]

theorem validate_eq_error (h : ¬c.Distinct) : ∃ key, c.validate = .error key := by
  cases hvalid : c.validate with
  | error key => exact ⟨key, rfl⟩
  | ok _ => exact absurd (validate_eq_ok.1 hvalid) h

/-- A catalog is read back from its document if its keys are unique, and is
refused for a key that it repeats if they are not.  Any of the fields that have
their default may be left out of the document, and the others may come in any
order; but where a key is left out, nothing is read. -/
theorem parse_forms (c : Catalog) :
    (c.Distinct → parse c.render = .ok c) ∧
    (¬c.Distinct → ∃ key, c.validate = .error key ∧ parse c.render = .error (.duplicate key)) ∧
    ∀ lost t, Thins lost c.toTree t →
      (lost = 0 → parse t.render = parse c.render) ∧
      (lost ≠ 0 → ∃ reason, parse t.render = .error (.malformed reason)) := by
  refine ⟨parse_render, fun hd => ?_, fun lost t h => ?_⟩
  · obtain ⟨key, hkey⟩ := validate_eq_error hd
    exact ⟨key, hkey, by rw [parse_render_eq, hkey]⟩
  · obtain ⟨hwhole, hlost⟩ := parse_of_thins h
    exact ⟨fun h => (hwhole h).trans c.parse_render_eq.symm, hlost⟩

/-- A component needs its prefix and nothing else. -/
theorem parse_forms_component :
    let c : Catalog := { components := [{ stem := "node" }] }
    let document (fields : List (String × Tree)) : String :=
      (Tree.record [("components", .list [.record fields])]).render
    parse (document [("prefix", .text "node")]) = .ok c ∧
    ∃ reason, parse (document [("title", .text "")]) = .error (.malformed reason) := by
  intro c document
  obtain ⟨hwhole, -, hforms⟩ := parse_forms c
  have htext : IsDefault (.text "") := rfl
  have hlist : IsDefault (.list []) := rfl
  have hshort : Thins 0 c.toTree
      (.record [("components", .list [.record [("prefix", .text "node")]])]) :=
    .record (.drop (by decide) htext (.keep (.list (.cons (.record (.keep (.text "node")
      (.drop (by decide) htext (.drop (by decide) htext (.drop (by decide) hlist .nil))))
      (.refl _)) .nil)) .nil)) (.refl _)
  have hlost : Thins 1 c.toTree
      (.record [("components", .list [.record [("title", .text "")]])]) :=
    .record (.drop (by decide) htext (.keep (.list (.cons (.record (.lose (by decide)
      (.keep (.text "") (.drop (by decide) htext (.drop (by decide) hlist .nil))))
      (.refl _)) .nil)) .nil)) (.refl _)
  exact ⟨((hforms 0 _ hshort).1 rfl).trans (hwhole (by decide)),
    (hforms 1 _ hlost).2 Nat.one_ne_zero⟩

end Catalog

end MetricCatalog
