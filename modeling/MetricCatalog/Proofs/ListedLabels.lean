import MetricCatalog.Markdown.Cell
import MetricCatalog.Proofs.Authority
/-!
# Labels read off their list

The nested list of a metric's labels shows each label and each value with its
description.  Names end at their backtick and descriptions before the next tag, so a
list can be read in one way only: two lists of labels look the same if and only if they
have the same names and values under the same descriptions.
-/

namespace MetricCatalog

open Keyed

namespace Markdown

/-! ## Reading a text in one way -/

/-- A character that neither part has marks where the parts end. -/
theorem append_cons_inj {c : Char} {as bs xs ys : List Char} (ha : c ∉ as) (hb : c ∉ bs)
    (h : as ++ c :: xs = bs ++ c :: ys) : as = bs ∧ xs = ys := by
  have hread {cs : List Char} (hcs : c ∉ cs) (zs : List Char) :
      (cs ++ c :: zs).takeWhile (· ≠ c) = cs := by
    have hall : ∀ d ∈ cs, decide (d ≠ c) = true := fun d hd =>
      decide_eq_true fun heq => hcs (heq ▸ hd)
    rw [List.takeWhile_append_of_pos hall, List.takeWhile_cons_of_neg (by simp), List.append_nil]
  obtain rfl : as = bs := by rw [← hread ha xs, h, hread hb ys]
  exact ⟨rfl, (List.cons.inj (List.append_cancel_left h)).2⟩

/-- Items that `P` admits open a list item, and show by `R` which item they are,
whatever follows them. -/
structure Readable {α : Type} (item : α → String) (P : α → Prop) (R : α → α → Prop) : Prop where
  opens : ∀ x, ∃ cs, (item x).toList = '<' :: 'l' :: cs
  reads : ∀ {x y}, P x → P y → ∀ {rest rest' : List Char},
    (item x).toList ++ rest = (item y).toList ++ rest' → R x y ∧ rest = rest'

section

variable {α : Type} {item : α → String} {P : α → Prop} {R : α → α → Prop} {xs ys : List α}

/-- Items are read one after another up to the end of the list. -/
theorem Readable.join_inj (h : Readable item P R) (hx : ∀ x ∈ xs, P x) (hy : ∀ y ∈ ys, P y)
    {rest rest' : List Char}
    (heq : (String.join (xs.map item)).toList ++ '<' :: '/' :: rest =
      (String.join (ys.map item)).toList ++ '<' :: '/' :: rest') :
    List.Forall₂ R xs ys ∧ rest = rest' := by
  induction xs generalizing ys with
  | nil =>
      cases ys with
      | nil => simpa using heq
      | cons y ys =>
          obtain ⟨cs, hcs⟩ := h.opens y
          simp [String.toList_append, hcs] at heq
  | cons x xs ih =>
      cases ys with
      | nil =>
          obtain ⟨cs, hcs⟩ := h.opens x
          simp [String.toList_append, hcs] at heq
      | cons y ys =>
          obtain ⟨hx, hxs⟩ := List.forall_mem_cons.1 hx
          obtain ⟨hy, hys⟩ := List.forall_mem_cons.1 hy
          simp only [List.map_cons, String.join_cons, String.toList_append,
            List.append_assoc] at heq
          obtain ⟨hR, hrest⟩ := h.reads hx hy heq
          obtain ⟨hforall, hrest⟩ := ih hxs hys hrest
          exact ⟨.cons hR hforall, hrest⟩

theorem bulletList_nil : bulletList [] = "" := rfl

/-- A list is told from no list, and its items are read up to its end. -/
theorem Readable.bulletList_inj (h : Readable item P R) (hx : ∀ x ∈ xs, P x) (hy : ∀ y ∈ ys, P y)
    {rest rest' : List Char}
    (heq : (bulletList (xs.map item)).toList ++ '<' :: '/' :: rest =
      (bulletList (ys.map item)).toList ++ '<' :: '/' :: rest') :
    List.Forall₂ R xs ys ∧ rest = rest' := by
  cases xs with
  | nil =>
      cases ys with
      | nil => exact ⟨.nil, by simpa using heq⟩
      | cons y ys => simp [bulletList, String.toList_append] at heq
  | cons x xs =>
      cases ys with
      | nil => simp [bulletList, String.toList_append] at heq
      | cons y ys =>
          have hlist (zs : List α) (z : α) (rest : List Char) :
              (bulletList ((z :: zs).map item)).toList ++ '<' :: '/' :: rest =
                "<ul>".toList ++ ((String.join ((z :: zs).map item)).toList ++
                  '<' :: '/' :: ("ul>".toList ++ '<' :: '/' :: rest)) := by
            rw [bulletList, if_neg (by simp)]
            simp only [String.toList_append, List.append_assoc]
            rfl
          rw [hlist, hlist] at heq
          obtain ⟨hforall, hrest⟩ := h.join_inj hx hy (List.append_cancel_left heq)
          exact ⟨hforall, by simpa using hrest⟩

end

/-! ## Items -/

/-- What stands between the name of an item and the tag after it. -/
def descText (desc : String) : String := if desc = "" then "" else " (" ++ desc ++ ")"

theorem not_mem_descText {desc : String} (h : '<' ∉ desc.toList) :
    '<' ∉ (descText desc).toList := by
  unfold descText
  split <;> simp [String.toList_append, h]

theorem descText_inj {desc desc' : String} (h : descText desc = descText desc') :
    desc = desc' := by
  have hlist := congrArg String.toList h
  unfold descText at hlist
  split at hlist <;> split at hlist
  · simp_all
  · simp [String.toList_append] at hlist
  · simp [String.toList_append] at hlist
  · simp only [String.toList_append, List.append_assoc] at hlist
    exact String.toList_inj.1 (List.append_cancel_right (List.append_cancel_left hlist))

theorem toList_listItem (name desc nested : String) (rest : List Char) :
    (listItem name desc nested).toList ++ rest =
      "<li>".toList ++ backtick :: (name.toList ++ backtick :: ((descText desc).toList ++
        (nested.toList ++ '<' :: '/' :: ("li>".toList ++ rest)))) := by
  rw [listItem, ← descText, code]
  simp only [String.toList_append, String.toList_ofList, List.append_assoc]
  rfl

theorem exists_tag (items : List String) (rest : List Char) :
    ∃ cs, (bulletList items).toList ++ '<' :: '/' :: rest = '<' :: cs := by
  unfold bulletList
  split
  · exact ⟨_, rfl⟩
  · simp [String.toList_append]

theorem listItem_inj {name name' desc desc' : String} (hname : backtick ∉ name.toList)
    (hname' : backtick ∉ name'.toList) (hdesc : '<' ∉ desc.toList) (hdesc' : '<' ∉ desc'.toList)
    {items items' : List String} {rest rest' : List Char}
    (heq : (listItem name desc (bulletList items)).toList ++ rest =
      (listItem name' desc' (bulletList items')).toList ++ rest') :
    name = name' ∧ desc = desc' ∧
      (bulletList items).toList ++ '<' :: '/' :: ("li>".toList ++ rest) =
        (bulletList items').toList ++ '<' :: '/' :: ("li>".toList ++ rest') := by
  rw [toList_listItem, toList_listItem] at heq
  have hopen := (List.cons.inj (List.append_cancel_left heq)).2
  obtain ⟨hnames, hrest⟩ := append_cons_inj hname hname' hopen
  obtain ⟨cs, hcs⟩ := exists_tag items ("li>".toList ++ rest)
  obtain ⟨cs', hcs'⟩ := exists_tag items' ("li>".toList ++ rest')
  rw [hcs, hcs'] at hrest
  obtain ⟨hdescs, rfl⟩ :=
    append_cons_inj (not_mem_descText hdesc) (not_mem_descText hdesc') hrest
  exact ⟨String.toList_inj.1 hnames, descText_inj (String.toList_inj.1 hdescs), hcs.trans hcs'.symm⟩

end Markdown

open Markdown

/-! ## Values and labels -/

/-- No backtick ends the name early, and no tag the description. -/
def LabelValue.Listable (v : LabelValue) : Prop :=
  backtick ∉ v.value.toList ∧ '<' ∉ v.desc.toList

/-- The same of a label and of its values, which have to be unique. -/
def Label.Listable (l : Label) : Prop :=
  backtick ∉ l.name.toList ∧ '<' ∉ l.desc.toList ∧ Distinct l.values ∧
    ∀ v ∈ l.values, v.Listable

instance (v : LabelValue) : Decidable v.Listable := inferInstanceAs (Decidable (_ ∧ _))

instance (l : Label) : Decidable l.Listable :=
  inferInstanceAs (Decidable (_ ∧ _ ∧ (keys l.values).Nodup ∧ ∀ v ∈ l.values, v.Listable))

/-- The same description, and the same values with the same descriptions. -/
def Label.ListedAlike (l l' : Label) : Prop :=
  l.desc = l'.desc ∧ Matches LabelValue.CuratedAlike l.values l'.values

/-- What a list shows of a label. -/
def Label.listed (l : Label) : Label :=
  { name := l.name, desc := l.desc, values := sort l.values }

theorem exists_toList_listItem (name desc nested : String) :
    ∃ cs, (listItem name desc nested).toList = '<' :: 'l' :: cs := by
  simp [listItem, String.toList_append]

theorem LabelValue.readable_item : Readable valueItem LabelValue.Listable Eq where
  opens v := exists_toList_listItem ..
  reads {v v'} hv hv' rest rest' heq := by
    rw [valueItem, valueItem, ← bulletList_nil] at heq
    obtain ⟨hvalue, hdesc, hrest⟩ := listItem_inj hv.1 hv'.1 hv.2 hv'.2 heq
    rw [bulletList_nil] at hrest
    exact ⟨LabelValue.eq_of_desc_eq hvalue hdesc, by simpa using hrest⟩

theorem Label.readable_item :
    Readable labelItem Label.Listable fun l l' => l.listed = l'.listed where
  opens l := exists_toList_listItem ..
  reads {l l'} hl hl' rest rest' heq := by
    obtain ⟨hname, hdesc, -, hvalues⟩ := hl
    obtain ⟨hname', hdesc', -, hvalues'⟩ := hl'
    obtain ⟨hnames, hdescs, hlist⟩ := listItem_inj hname hname' hdesc hdesc' heq
    obtain ⟨hforall, hrest⟩ := LabelValue.readable_item.bulletList_inj
      (fun v hv => hvalues v (mem_sort.1 hv)) (fun v hv => hvalues' v (mem_sort.1 hv)) hlist
    have hsort : sort l.values = sort l'.values := List.forall₂_eq_eq_eq ▸ hforall
    rw [Label.listed, Label.listed, hnames, hdescs, hsort]
    exact ⟨rfl, List.append_cancel_left hrest⟩

/-- The list shows a label by what is listed of it. -/
theorem labelItem_listed (l : Label) : labelItem l.listed = labelItem l := by
  rw [labelItem, labelItem, Label.listed, sort_sort]

theorem Label.listed_eq_iff {l l' : Label} (hl : l.Listable) (hl' : l'.Listable)
    (hkey : key l = key l') : l.listed = l'.listed ↔ l.ListedAlike l' := by
  have hname : l.name = l'.name := hkey
  constructor
  · intro h
    obtain ⟨-, hdesc, -, -, hvalues⟩ := (Label.mk.injEq ..).mp h
    refine ⟨hdesc, fun k => ?_⟩
    have hfind : find? k l.values = find? k l'.values := by
      rw [← find?_sort, hvalues, find?_sort]
    rw [hfind]
    exact Matches.refl (R := LabelValue.CuratedAlike) (fun _ => rfl) l'.values k
  · rintro ⟨hdesc, hvalues⟩
    have hsort : (sort l.values).map id = (sort l'.values).map id :=
      hvalues.map_sort_eq hl.2.2.1 hl'.2.2.1 (fun _ => rfl) fun _ _ _ _ =>
        LabelValue.eq_of_desc_eq
    rw [List.map_id, List.map_id] at hsort
    rw [listed, listed, hname, hdesc, hsort]

/-- Two lists of labels look the same if and only if they agree but for the order of
labels and values, and for what is fixed and what is locked. -/
theorem labelCell_eq_iff {ls ls' : List Label} (hd : Distinct ls) (hd' : Distinct ls')
    (hls : ∀ l ∈ ls, l.Listable) (hls' : ∀ l ∈ ls', l.Listable) :
    labelCell ls = labelCell ls' ↔ Matches Label.ListedAlike ls ls' := by
  have hkey (l : Label) : key l.listed = key l := rfl
  constructor
  · intro heq
    have htext := congrArg (·.toList ++ ['<', '/']) heq
    obtain ⟨hforall, -⟩ := Label.readable_item.bulletList_inj
      (fun l hl => hls l (mem_sort.1 hl)) (fun l hl => hls' l (mem_sort.1 hl)) htext
    have hlisted : (sort ls).map Label.listed = (sort ls').map Label.listed := by
      rwa [← List.forall₂_eq_eq_eq, List.forall₂_map_left_iff, List.forall₂_map_right_iff]
    intro k
    have hfind : (find? k ls).map Label.listed = (find? k ls').map Label.listed := by
      rw [← find?_sort, ← find?_map hkey, hlisted, find?_map hkey, find?_sort]
    refine rel_of_map_eq hfind fun l hl l' hl' => ?_
    exact (Label.listed_eq_iff (hls l (mem_of_find? hl)) (hls' l' (mem_of_find? hl'))
      ((key_of_find? hl).trans (key_of_find? hl').symm)).1
  · intro h
    have hlisted : (sort ls).map Label.listed = (sort ls').map Label.listed :=
      h.map_sort_eq hd hd' hkey fun l hl l' hl' hkey =>
        (Label.listed_eq_iff (hls l hl) (hls' l' hl') hkey).2
    have hitems (ls : List Label) :
        (sort ls).map labelItem = ((sort ls).map Label.listed).map labelItem := by
      rw [List.map_map]
      exact List.map_congr_left fun l _ => (labelItem_listed l).symm
    rw [labelCell, labelCell, hitems, hitems, hlisted]

def listedSample : List Label := [
  { name := "mode", fixed := true, values := [⟨"rx", "Received"⟩, ⟨"tx", ""⟩] },
  { name := "cpu", desc := "One core." }]

def relistedSample : List Label := [
  { name := "cpu", desc := "One core.", fixed := true },
  { name := "mode", locked := true, values := [⟨"tx", ""⟩, ⟨"rx", "Received"⟩] }]

theorem labelCell_eq_sample :
    Distinct listedSample ∧ Distinct relistedSample ∧ (∀ l ∈ listedSample, l.Listable) ∧
    (∀ l ∈ relistedSample, l.Listable) ∧ labelCell listedSample = labelCell relistedSample ∧
    Matches Label.ListedAlike listedSample relistedSample := by
  have hd : (keys listedSample).Nodup := by decide
  have hd' : (keys relistedSample).Nodup := by decide
  have hls : ∀ l ∈ listedSample, l.Listable := by decide
  have hls' : ∀ l ∈ relistedSample, l.Listable := by decide
  have htext : labelCell listedSample = labelCell relistedSample := by decide
  exact ⟨hd, hd', hls, hls', htext, (labelCell_eq_iff hd hd' hls hls').1 htext⟩

end MetricCatalog
