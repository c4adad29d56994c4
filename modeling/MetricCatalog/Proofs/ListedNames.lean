import MetricCatalog.Markdown.Cell
import MetricCatalog.Observe.Normalizer
import MetricCatalog.Proofs.BlankText
import MetricCatalog.Proofs.TextPieces
/-!
# Names in lists

A list of names has separators between the names and blanks around them, and it may have
places without a name.  Reading a list takes its parts one by one: what it finds are names
that a list can hold, and it finds all that were listed and nothing else.
-/

namespace MetricCatalog

open Text

/-- A name that a list can hold. -/
structure IsListable (isSeparator : Char → Bool) (name : String) : Prop where
  ne_empty : name ≠ ""
  trimmed : Trimmed name.toList
  no_separator : ∀ c ∈ name.toList, isSeparator c = false

instance (isSeparator : Char → Bool) (name : String) : Decidable (IsListable isSeparator name) :=
  decidable_of_iff
    (name ≠ "" ∧ Trimmed name.toList ∧ ∀ c ∈ name.toList, isSeparator c = false)
    ⟨fun ⟨hne, ht, hs⟩ => ⟨hne, ht, hs⟩, fun ⟨hne, ht, hs⟩ => ⟨hne, ht, hs⟩⟩

/-- A place in a list, with a name or without, and the blanks around it. -/
structure Place where
  margin : String := ""
  name : String := ""
  trail : String := ""

namespace Place

def text (p : Place) : String := p.margin ++ p.name ++ p.trail

/-- What a reader needs to tell the name from its blanks and from other places. -/
structure Fits (isSeparator : Char → Bool) (p : Place) : Prop where
  margin : ∀ c ∈ p.margin.toList, isBlank c = true ∧ isSeparator c = false
  name : p.name ≠ "" → IsListable isSeparator p.name
  trail : ∀ c ∈ p.trail.toList, isBlank c = true ∧ isSeparator c = false

instance (isSeparator : Char → Bool) (p : Place) : Decidable (p.Fits isSeparator) :=
  decidable_of_iff
    ((∀ c ∈ p.margin.toList, isBlank c = true ∧ isSeparator c = false) ∧
      (p.name ≠ "" → IsListable isSeparator p.name) ∧
      ∀ c ∈ p.trail.toList, isBlank c = true ∧ isSeparator c = false)
    ⟨fun ⟨hm, hn, ht⟩ => ⟨hm, hn, ht⟩, fun ⟨hm, hn, ht⟩ => ⟨hm, hn, ht⟩⟩

end Place

/-- The text is the parts with one separator, of any kind, between each two. -/
inductive Joined (isSeparator : Char → Bool) : List String → String → Prop
  | none : Joined isSeparator [] ""
  | last (part : String) : Joined isSeparator [part] part
  | cons (part : String) {c : Char} {next : String} {parts : List String} {text : String}
      (hc : isSeparator c = true) (hrest : Joined isSeparator (next :: parts) text) :
      Joined isSeparator (part :: next :: parts) (part ++ String.singleton c ++ text)

/-- The set read off a text between separators. -/
structure ReadsLists (isSeparator : Char → Bool) (read : String → KeySet) : Prop where
  union : ∀ (a b : String) (c : Char), isSeparator c = true →
    ∀ name, name ∈ read (a ++ String.singleton c ++ b) ↔ name ∈ read a ∨ name ∈ read b
  listable : ∀ text, ∀ name ∈ read text, IsListable isSeparator name
  joined : ∀ (places : List Place) (text : String), (∀ p ∈ places, p.Fits isSeparator) →
    Joined isSeparator (places.map Place.text) text →
      read text = .ofList ((places.map Place.name).filter (· ≠ ""))

section

variable {isSeparator : Char → Bool}

theorem items_append {c : Char} (hc : isSeparator c = true) (a b : String) :
    items isSeparator (a ++ String.singleton c ++ b) =
      items isSeparator a ++ items isSeparator b := by
  have hsplit : (a ++ String.singleton c ++ b).toList.splitOnP isSeparator =
      a.toList.splitOnP isSeparator ++ b.toList.splitOnP isSeparator := by
    rw [String.toList_append, String.toList_append, String.toList_singleton, List.append_assoc]
    exact List.splitOnP_append_cons _ _ hc
  rw [items, items, items, hsplit, List.map_append, List.filter_append, List.map_append]

theorem isListable_of_mem_items {text name : String} (h : name ∈ items isSeparator text) :
    IsListable isSeparator name := by
  obtain ⟨cs, hcs, rfl⟩ := List.mem_map.1 h
  obtain ⟨htrim, hne⟩ := List.mem_filter.1 hcs
  obtain ⟨piece, hpiece, rfl⟩ := List.mem_map.1 htrim
  refine ⟨?_, ?_, ?_⟩
  · rw [Ne, ← String.toList_inj, String.toList_ofList]
    simpa using hne
  · rw [String.toList_ofList]
    exact trimmed_trim piece
  · rw [String.toList_ofList]
    intro c hc
    obtain ⟨margin, trail, -, -, hmargins⟩ := exists_margins piece
    refine not_of_mem_splitOnP hpiece c ?_
    rw [hmargins]
    exact List.mem_append_left _ (List.mem_append_right _ hc)

namespace Place

variable {p : Place}

theorem Fits.trimmed (h : p.Fits isSeparator) : Trimmed p.name.toList := by
  by_cases hname : p.name = ""
  · rw [hname]
    constructor <;> decide
  · exact (h.name hname).trimmed

theorem Fits.no_separator (h : p.Fits isSeparator) :
    ∀ c ∈ p.text.toList, isSeparator c = false := by
  intro c hc
  rw [text, String.toList_append, String.toList_append, List.mem_append, List.mem_append] at hc
  rcases hc with (hmargin | hname) | htrail
  · exact (h.margin c hmargin).2
  · have hne : p.name ≠ "" := by
      intro hempty
      rw [hempty] at hname
      cases hname
    exact (h.name hne).no_separator c hname
  · exact (h.trail c htrail).2

/-- A place gives its name, if it has one. -/
theorem Fits.items_text (h : p.Fits isSeparator) :
    items isSeparator p.text = [p.name].filter (· ≠ "") := by
  have htrim : trim p.text.toList = p.name.toList := by
    rw [text, String.toList_append, String.toList_append]
    exact h.trimmed.trim_margins (fun c hc => (h.margin c hc).1) fun c hc => (h.trail c hc).1
  rw [items, List.splitOnP_eq_singleton h.no_separator, List.map_singleton, htrim]
  by_cases hname : p.name = ""
  · simp [hname]
  · simp [hname]

end Place

theorem joined_intercalate {c : Char} (hc : isSeparator c = true) (parts : List String) :
    Joined isSeparator parts ((String.singleton c).intercalate parts) := by
  induction parts with
  | nil =>
      rw [String.intercalate_nil]
      exact .none
  | cons part parts ih =>
      cases parts with
      | nil =>
          rw [String.intercalate_singleton]
          exact .last part
      | cons next parts =>
          rw [String.intercalate_cons_cons]
          exact .cons part hc ih

theorem items_joined {places : List Place} (hplaces : ∀ p ∈ places, p.Fits isSeparator)
    {text : String} (h : Joined isSeparator (places.map Place.text) text) :
    items isSeparator text = (places.map Place.name).filter (· ≠ "") := by
  induction places generalizing text with
  | nil =>
      cases h
      rfl
  | cons p places ih =>
      obtain ⟨hp, hplaces⟩ := List.forall_mem_cons.1 hplaces
      cases places with
      | nil =>
          cases h
          exact hp.items_text
      | cons next places =>
          cases h with
          | cons _ hc hrest =>
              rw [items_append hc, hp.items_text, ih hplaces hrest, List.map_cons (a := p),
                ← List.filter_append]
              rfl

variable (isSeparator) in
theorem readsLists_items : ReadsLists isSeparator fun text => .ofList (items isSeparator text) where
  union a b c hc name := by
    rw [items_append hc, KeySet.mem_ofList, KeySet.mem_ofList, KeySet.mem_ofList, List.mem_append]
  listable text name h := isListable_of_mem_items (KeySet.mem_ofList.1 h)
  joined places text hplaces h := by rw [items_joined hplaces h]

end

/-- Labels are listed between commas, and words to mark between commas or line breaks. -/
theorem lists_read :
    ReadsLists (· = ',') KeySet.ofCommaList ∧
    ReadsLists (fun c => c = '\n' || c = ',') Markdown.escapeWords :=
  ⟨readsLists_items _, readsLists_items _⟩

/-- A name that is listed twice, a place without one, and blanks of several kinds. -/
def listedPlaces : List Place := [
  { margin := "\u3000 ", name := "sandbox_id", trail := "\t" }, { margin := " " },
  { name := "pid", trail := "\u00a0" }, { name := "sandbox_id" }]

theorem lists_read_places :
    (∀ p ∈ listedPlaces, p.Fits (· = ',')) ∧
    KeySet.ofCommaList (",".intercalate (listedPlaces.map Place.text)) =
      .ofList ["sandbox_id", "pid", "sandbox_id"] ∧
    (∀ p ∈ listedPlaces, p.Fits fun c => c = '\n' || c = ',') ∧
    Markdown.escapeWords ("\n".intercalate (listedPlaces.map Place.text)) =
      .ofList ["sandbox_id", "pid", "sandbox_id"] := by
  have hnames : (listedPlaces.map Place.name).filter (· ≠ "") =
      ["sandbox_id", "pid", "sandbox_id"] := by
    decide
  have hcommas : ∀ p ∈ listedPlaces, p.Fits (· = ',') := by decide
  have hlines : ∀ p ∈ listedPlaces, p.Fits fun c => c = '\n' || c = ',' := by decide
  have hcomma : "," = String.singleton ',' := rfl
  have hline : "\n" = String.singleton '\n' := rfl
  rw [← hnames, hcomma, hline]
  exact ⟨hcommas, lists_read.1.joined _ _ hcommas (joined_intercalate (by decide) _), hlines,
    lists_read.2.joined _ _ hlines (joined_intercalate (by decide) _)⟩

end MetricCatalog
