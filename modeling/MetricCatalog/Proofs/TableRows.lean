import MetricCatalog.Markdown.Reference
import MetricCatalog.Proofs.KeyOrder
import MetricCatalog.Proofs.LineByLine
import Mathlib.Algebra.BigOperators.Group.List.Basic
import Mathlib.Algebra.Ring.Nat
/-!
# Table rows

A row of five cells is one line with six bars, not counting those after a backslash.
The help of a metric keeps to that, since its cell has neither line breaks nor bars
of its own.  The other texts of a metric go into its row as they are, so the row has
exactly their line breaks and their bars besides: it is a table row if and only if
they have none.
-/

namespace MetricCatalog

/-! ## The texts of a metric -/

def LabelValue.texts (v : LabelValue) : List String := [v.value, v.desc]

def Label.texts (l : Label) : List String := l.name :: l.desc :: l.values.flatMap LabelValue.texts

/-- The texts of a metric, but for its help. -/
def Metric.texts (m : Metric) : List String :=
  m.name :: m.unit :: m.since :: m.labels.flatMap Label.texts

namespace Markdown

/-! ## What ends a cell or a line -/

/-- The bars with no backslash directly before them; `covered` tells if there is
a backslash before the text. -/
def countBars (covered : Bool) : List Char → Nat
  | [] => 0
  | c :: cs => (if c = '|' ∧ covered = false then 1 else 0) + countBars (c = '\\') cs

/-- The bars of a text that end a cell. -/
def bars (text : String) : Nat := countBars false text.toList

def lineBreaks (text : String) : Nat := text.toList.count '\n'

/-- The text does not start with a bar, which a backslash before it would cover. -/
def Opens (text : String) : Prop := text.toList.head? ≠ some '|'

instance (text : String) : Decidable (Opens text) := inferInstanceAs (Decidable (_ ≠ _))

/-- The text ends in something that covers no bar. -/
def Closes (text : String) : Prop := text.toList.getLast?.any (· ≠ '\\') = true

instance (text : String) : Decidable (Closes text) := inferInstanceAs (Decidable (_ = _))

theorem closes_iff {text : String} : Closes text ↔ ∃ c ∈ text.toList.getLast?, c ≠ '\\' := by
  simp [Closes, Option.any_eq_true]

theorem Closes.append {a b : String} (hb : Closes b) : Closes (a ++ b) := by
  obtain ⟨c, hc, hne⟩ := closes_iff.1 hb
  refine closes_iff.2 ⟨c, ?_, hne⟩
  rw [String.toList_append, List.getLast?_append, Option.mem_def.1 hc]
  rfl

theorem Opens.append {a b : String} (ha : Opens a) (hb : Opens b) : Opens (a ++ b) := by
  rw [Opens, String.toList_append, List.head?_append]
  cases h : a.toList.head? with
  | none => exact hb
  | some c =>
      rw [Opens, h] at ha
      exact ha

theorem countBars_append {covered : Bool} {cs ds : List Char} :
    countBars covered (cs ++ ds) =
      countBars covered cs + countBars (cs.getLast?.elim covered (· = '\\')) ds := by
  induction cs generalizing covered with
  | nil => simp [countBars]
  | cons c cs ih =>
      rw [List.cons_append, countBars, countBars, ih, List.getLast?_cons, Nat.add_assoc]
      cases cs.getLast? <;> rfl

theorem countBars_of_opens {covered : Bool} {text : String} (h : Opens text) :
    countBars covered text.toList = bars text := by
  rw [bars]
  cases hcs : text.toList with
  | nil => rfl
  | cons c cs =>
      have hc : c ≠ '|' := fun heq => h (by rw [hcs, heq]; rfl)
      simp [countBars, hc]

theorem bars_append {a b : String} (h : Closes a ∨ Opens b) : bars (a ++ b) = bars a + bars b := by
  rw [bars, String.toList_append, countBars_append]
  congr 1
  rcases h with hcloses | hopens
  · obtain ⟨c, hc, hne⟩ := closes_iff.1 hcloses
    rw [Option.mem_def.1 hc, Option.elim_some, decide_eq_false hne]
    rfl
  · exact countBars_of_opens hopens

/-! ## Tallies of a row -/

/-- A count that adds up over texts put together, and that counts nothing in the
markup of a cell and `border` in what parts two cells. -/
structure Tally (count : String → Nat) (border : Nat) : Prop where
  append : ∀ {a b}, Closes a ∨ Opens b → count (a ++ b) = count a + count b
  markup : ∀ text ∈ ["", "\x60", ": <br> ", " (", ")", "<li>", "</li>", "<ul>", "</ul>"],
    count text = 0
  tag : ∀ kind : Kind, count kind.tag = 0
  edge : ∀ text ∈ ["| ", " | ", " |"], count text = border

theorem tally_bars : Tally bars 1 where
  append := bars_append
  markup := by decide
  tag kind := by cases kind <;> decide
  edge := by decide

theorem tally_lineBreaks : Tally lineBreaks 0 where
  append _ := by
    rw [lineBreaks, String.toList_append, List.count_append]
    rfl
  markup := by decide
  tag kind := by cases kind <;> decide
  edge := by decide

section

variable {count : String → Nat} {border : Nat} (h : Tally count border)

include h

theorem Tally.between {before after : String} (a : String) (hb : Closes before) (ha : Opens after) :
    count (before ++ a ++ after) = count before + count a + count after := by
  rw [h.append (.inr ha), h.append (.inl hb)]

theorem Tally.around {middle : String} (a b : String) (ho : Opens middle) (hc : Closes middle) :
    count (a ++ middle ++ b) = count a + count middle + count b := by
  rw [h.append (.inl hc.append), h.append (.inr ho)]

theorem Tally.count_code (text : String) : count (code text) = count text := by
  have hquote : count (String.ofList [backtick]) = 0 := h.markup _ (by decide)
  rw [code, h.between text (by decide) (by decide), hquote, Nat.zero_add, Nat.add_zero]

/-- Items that do not start with a bar add up, whatever they end in. -/
theorem Tally.count_join {items : List String} (hopens : ∀ item ∈ items, Opens item) :
    count (String.join items) = (items.map count).sum ∧ Opens (String.join items) := by
  induction items with
  | nil => exact ⟨h.markup _ (by decide), by decide⟩
  | cons item items ih =>
      obtain ⟨hitem, hrest⟩ := List.forall_mem_cons.1 hopens
      obtain ⟨hcount, hjoin⟩ := ih hrest
      rw [String.join_cons, List.map_cons, List.sum_cons, h.append (.inr hjoin), hcount]
      exact ⟨rfl, hitem.append hjoin⟩

theorem Tally.count_intercalate (cell : String) (cells : List String) :
    count (" | ".intercalate (cell :: cells)) =
      cells.length * border + ((cell :: cells).map count).sum := by
  induction cells generalizing cell with
  | nil => simp
  | cons next cells ih =>
      rw [String.intercalate_cons_cons, h.around _ _ (by decide) (by decide),
        h.edge " | " (by decide), ih]
      simp only [List.map_cons, List.sum_cons, List.length_cons, Nat.succ_mul]
      omega

end

/-! ## Labels -/

theorem opens_listItem (name desc nested : String) : Opens (listItem name desc nested) := by
  simp [Opens, listItem, String.toList_append]

theorem opens_valueItem (v : LabelValue) : Opens (valueItem v) := opens_listItem _ _ _

theorem opens_labelItem (l : Label) : Opens (labelItem l) := opens_listItem _ _ _

theorem opens_bulletList (items : List String) : Opens (bulletList items) := by
  rw [bulletList]
  split
  · decide
  · simp [Opens, String.toList_append]

section

variable {count : String → Nat} {border : Nat} (h : Tally count border)

include h

theorem Tally.count_listItem (name desc : String) {nested : String} (hnested : Opens nested) :
    count (listItem name desc nested) = count name + count desc + count nested := by
  have hdesc : count (if desc = "" then "" else " (" ++ desc ++ ")") = count desc := by
    split
    · next hempty => rw [hempty]
    · rw [h.between desc (by decide) (by decide), h.markup " (" (by decide),
        h.markup ")" (by decide), Nat.zero_add, Nat.add_zero]
  have hopens : Opens (if desc = "" then "" else " (" ++ desc ++ ")") := by
    split
    · decide
    · simp [Opens, String.toList_append]
  have hend : Opens "</li>" := by decide
  rw [listItem, h.append (.inr hend), h.append (.inr hnested), h.append (.inr hopens),
    h.append (.inl (by decide)), h.count_code, hdesc, h.markup "<li>" (by decide),
    h.markup "</li>" (by decide), Nat.zero_add, Nat.add_zero]

theorem Tally.count_bulletList {items : List String} (hopens : ∀ item ∈ items, Opens item) :
    count (bulletList items) = (items.map count).sum := by
  rw [bulletList]
  split
  · next hempty =>
    rw [List.isEmpty_iff.1 hempty]
    exact h.markup _ (by decide)
  · rw [h.between _ (by decide) (by decide), h.markup "<ul>" (by decide),
      h.markup "</ul>" (by decide), Nat.zero_add, Nat.add_zero]
    exact (h.count_join hopens).1

theorem Tally.count_valueItem (v : LabelValue) : count (valueItem v) = (v.texts.map count).sum := by
  rw [valueItem, h.count_listItem _ _ (by decide), h.markup "" (by decide)]
  rfl

/-- Sorting elements before they are listed leaves the tally of the list. -/
theorem Tally.count_sortedList {α : Type} [Keyed α] {item : α → String} {texts : α → List String}
    (hopens : ∀ x, Opens (item x)) (hitem : ∀ x, count (item x) = ((texts x).map count).sum)
    (xs : List α) :
    count (bulletList ((Keyed.sort xs).map item)) = ((xs.flatMap texts).map count).sum := by
  have hitems : ∀ i ∈ (Keyed.sort xs).map item, Opens i := by
    intro i hi
    obtain ⟨x, -, rfl⟩ := List.mem_map.1 hi
    exact hopens x
  calc count (bulletList ((Keyed.sort xs).map item))
      = ((Keyed.sort xs).map fun x => count (item x)).sum := by
        rw [h.count_bulletList hitems, List.map_map]
        rfl
    _ = (xs.map fun x => count (item x)).sum := ((Keyed.sort_perm xs).map _).sum_nat
    _ = (xs.map fun x => ((texts x).map count).sum).sum := by simp only [hitem]
    _ = ((xs.flatMap texts).map count).sum := by
        rw [List.map_flatMap, List.flatMap, List.sum_flatten, List.map_map]
        rfl

theorem Tally.count_labelItem (l : Label) : count (labelItem l) = (l.texts.map count).sum := by
  rw [labelItem, h.count_listItem _ _ (opens_bulletList _),
    h.count_sortedList opens_valueItem h.count_valueItem, Label.texts, List.map_cons, List.map_cons,
    List.sum_cons, List.sum_cons, Nat.add_assoc]

theorem Tally.count_labelCell (labels : List Label) :
    count (labelCell labels) = ((labels.flatMap Label.texts).map count).sum :=
  h.count_sortedList opens_labelItem h.count_labelItem labels

end

/-! ## Rows -/

/-- The cells of a metric's row. -/
def cells (words : KeySet) (m : Metric) : List String :=
  [code m.name ++ ": <br> " ++ helpCell words m.help, code m.kind.tag,
    if m.unit = "" then "" else code m.unit, labelCell m.labels, m.since]

theorem row_eq_cells (words : KeySet) (m : Metric) :
    row words m = "| " ++ " | ".intercalate (cells words m) ++ " |" := by
  unfold row cells
  -- with the cells left open, no rewriting looks inside them
  generalize code m.name = name, helpCell words m.help = help, code m.kind.tag = kind,
    (if m.unit = "" then "" else code m.unit) = unit, labelCell m.labels = labels, m.since = since
  simp only [String.intercalate_cons_cons, String.intercalate_singleton, String.append_assoc]

theorem Tally.count_row {count : String → Nat} {border : Nat} (h : Tally count border)
    (words : KeySet) (m : Metric) :
    count (row words m) =
      6 * border + count (helpCell words m.help) + (m.texts.map count).sum := by
  have hname : count (code m.name ++ ": <br> " ++ helpCell words m.help) =
      count m.name + count (helpCell words m.help) := by
    rw [h.around _ _ (by decide) (by decide), h.count_code, h.markup ": <br> " (by decide),
      Nat.add_zero]
  have hunit : count (if m.unit = "" then "" else code m.unit) = count m.unit := by
    split
    · next hempty => rw [hempty]
    · exact h.count_code m.unit
  have hcells : ((cells words m).map count).sum =
      count (helpCell words m.help) + (m.texts.map count).sum := by
    simp only [cells, Metric.texts, List.map_cons, List.map_nil, List.sum_cons, List.sum_nil,
      hname, hunit, h.count_code, h.tag, h.count_labelCell]
    omega
  rw [row_eq_cells, h.between _ (by decide) (by decide), cells, h.count_intercalate, ← cells,
    hcells, h.edge "| " (by decide), h.edge " |" (by decide)]
  simp only [List.length_cons, List.length_nil]
  omega

/-! ### The help -/

theorem countBars_flatMap_cellChar (covered : Bool) (cs : List Char) :
    countBars covered (cs.flatMap cellChar) = 0 := by
  induction cs generalizing covered with
  | nil => rfl
  | cons c cs ih =>
      rw [List.flatMap_cons, countBars_append, ih, cellChar]
      -- a bar comes with its backslash, so it is covered whatever stands before
      split
      · rfl
      · next hbar =>
        split
        · cases covered <;> decide
        · simp [countBars, hbar]

theorem not_mem_cellChar (c : Char) : '\n' ∉ cellChar c := by
  rw [cellChar]
  split
  · decide
  · split
    · decide
    · next hbreak => exact fun h => hbreak (List.mem_singleton.1 h).symm

theorem bars_helpCell (words : KeySet) (help : String) : bars (helpCell words help) = 0 := by
  rw [bars, helpCell, String.toList_ofList, countBars_flatMap_cellChar]

theorem lineBreaks_helpCell (words : KeySet) (help : String) :
    lineBreaks (helpCell words help) = 0 := by
  rw [lineBreaks, helpCell, String.toList_ofList, List.count_eq_zero, List.mem_flatMap]
  rintro ⟨c, -, hc⟩
  exact not_mem_cellChar c hc

theorem bars_row (words : KeySet) (m : Metric) :
    bars (row words m) = 6 + (m.texts.map bars).sum := by
  rw [tally_bars.count_row, bars_helpCell]

theorem not_mem_row_iff (words : KeySet) (m : Metric) :
    '\n' ∉ (row words m).toList ↔ ∀ text ∈ m.texts, '\n' ∉ text.toList := by
  have hrow : lineBreaks (row words m) = (m.texts.map lineBreaks).sum := by
    rw [tally_lineBreaks.count_row, lineBreaks_helpCell, Nat.mul_zero, Nat.zero_add]
  rw [← List.count_eq_zero, ← lineBreaks, hrow, List.sum_eq_zero_iff_forall_eq_nat,
    List.forall_mem_map]
  simp only [lineBreaks, List.count_eq_zero]

/-! ## The document -/

/-- Breaks that end lines start the lines that follow. -/
theorem break_join {α : Type} (line : α → String) (xs : List α) :
    "\n" ++ String.join (xs.map (line · ++ "\n")) =
      String.join (xs.map ("\n" ++ line ·)) ++ "\n" := by
  induction xs with
  | nil => rfl
  | cons x xs ih =>
      rw [List.map_cons, List.map_cons, String.join_cons, String.join_cons, String.append_assoc,
        String.append_assoc, String.append_assoc, ih]

theorem exists_tableHead : ∃ head, tableHead = head ++ "\n" :=
  ⟨"| Metric name | Type | Units | Labels | Introduced in version |\n|---|---|---|---|---|", by
    decide⟩

theorem exists_component_eq {comp : Component} {m : Metric} (hm : m ∈ comp.metrics)
    (words : KeySet) :
    ∃ before after, component words comp = before ++ "\n" ++ (row words m ++ "\n") ++ after := by
  obtain ⟨above, below, hmetrics⟩ := List.append_of_mem hm
  obtain ⟨head, hhead⟩ := exists_tableHead
  have hrows : "\n" ++ String.join (comp.metrics.map (row words · ++ "\n")) =
      String.join (above.map ("\n" ++ row words ·)) ++ "\n" ++
        (row words m ++ "\n" ++ String.join (below.map (row words · ++ "\n"))) := by
    rw [hmetrics, List.map_append, List.map_cons, String.join_append, String.join_cons,
      ← String.append_assoc, break_join]
  refine ⟨"### " ++ comp.title ++ "\n\n" ++ comp.desc ++ "\n\n" ++ head ++
      String.join (above.map ("\n" ++ row words ·)),
    String.join (below.map (row words · ++ "\n")) ++ "\n", ?_⟩
  calc component words comp
      = "### " ++ comp.title ++ "\n\n" ++ comp.desc ++ "\n\n" ++ head ++
          ("\n" ++ String.join (comp.metrics.map (row words · ++ "\n"))) ++ "\n" := by
        unfold component
        rw [hhead]
        simp only [String.append_assoc]
    _ = _ := by
        rw [hrows]
        simp only [String.append_assoc]

theorem exists_toMarkdown_eq {c : Catalog} {comp : Component} {m : Metric}
    (hcomp : comp ∈ c.components) (hm : m ∈ comp.metrics) (words : KeySet) (updated : Timestamp) :
    ∃ before after, c.toMarkdown words updated =
      before ++ "\n" ++ (row words m ++ "\n") ++ after := by
  obtain ⟨above, below, hcomponents⟩ := List.append_of_mem hcomp
  obtain ⟨before, after, heq⟩ := exists_component_eq hm words
  refine ⟨head c.version updated ++ String.join (above.map (component words)) ++ before,
    after ++ String.join (below.map (component words)), ?_⟩
  rw [Catalog.toMarkdown, hcomponents, List.map_append, List.map_cons, String.join_append,
    String.join_cons, heq]
  simp only [String.append_assoc]

/-- What stands between two breaks of a text, without a break in it, is a line. -/
theorem mem_splitOn_between {before line after : List Char} (h : '\n' ∉ line) :
    line ∈ (before ++ '\n' :: (line ++ '\n' :: after)).splitOn '\n' := by
  rw [List.splitOn_append_cons_self, List.splitOn_append_cons_self_of_not_mem h]
  exact List.mem_append_right _ (List.mem_cons_self ..)

end Markdown

open Markdown

/-- The row of a metric is a line of the reference if and only if none of the metric's
texts but its help has a line break, and it has the six bars of five cells and those
of these texts. -/
theorem Catalog.toMarkdown_rows (c : Catalog) (words : KeySet) (updated : Timestamp) :
    ∀ comp ∈ c.components, ∀ m ∈ comp.metrics,
      ((row words m).toList ∈ (c.toMarkdown words updated).toList.splitOn '\n' ↔
        ∀ text ∈ m.texts, '\n' ∉ text.toList) ∧
      bars (row words m) = 6 + (m.texts.map bars).sum := by
  intro comp hcomp m hm
  refine ⟨?_, bars_row words m⟩
  rw [← not_mem_row_iff words m]
  constructor
  · intro hline
    exact Exposition.not_mem_of_mem_splitOn hline
  · intro hbreak
    obtain ⟨before, after, heq⟩ := exists_toMarkdown_eq hcomp hm words updated
    have hlist : (c.toMarkdown words updated).toList =
        before.toList ++ '\n' :: ((row words m).toList ++ '\n' :: after.toList) := by
      rw [heq]
      simp [String.toList_append]
    rw [hlist]
    exact mem_splitOn_between hbreak

/-- A label with a bar in one of its values and a line break in another. -/
def barredMetric : Metric where
  name := "up"
  kind := .gauge
  help := "1 | 0\n"
  labels := [.enumerated "mode" ["a|b", "c\nd"]]
  since := "1.0"

def barredComponent : Component := { stem := "up", metrics := [barredMetric] }

def barredCatalog : Catalog := { version := "1", components := [barredComponent] }

theorem Catalog.toMarkdown_rows_barred :
    barredComponent ∈ barredCatalog.components ∧ barredMetric ∈ barredComponent.metrics ∧
    ((row .empty barredMetric).toList ∈
        (barredCatalog.toMarkdown .empty { seconds := 0 }).toList.splitOn '\n' ↔
      ∀ text ∈ barredMetric.texts, '\n' ∉ text.toList) ∧
    bars (row .empty barredMetric) = 6 + (barredMetric.texts.map bars).sum ∧
    (barredMetric.texts.map bars).sum = 1 := by
  have hcomp : barredComponent ∈ barredCatalog.components := List.mem_singleton_self _
  have hm : barredMetric ∈ barredComponent.metrics := List.mem_singleton_self _
  obtain ⟨hline, hbars⟩ :=
    Catalog.toMarkdown_rows barredCatalog .empty { seconds := 0 } barredComponent hcomp
      barredMetric hm
  exact ⟨hcomp, hm, hline, hbars, by decide⟩

/-- So the rows of a catalog need not be table rows. -/
theorem Catalog.not_all_rows_are_table_rows :
    ¬ ∀ (c : Catalog) (words : KeySet),
      ∀ comp ∈ c.components, ∀ m ∈ comp.metrics,
        '\n' ∉ (row words m).toList ∧ bars (row words m) = 6 := by
  intro h
  have hbarred := h barredCatalog .empty barredComponent
    (List.mem_singleton_self _) barredMetric (List.mem_singleton_self _)
  have hbreak : '\n' ∈ (row .empty barredMetric).toList := by decide +kernel
  exact hbarred.1 hbreak

end MetricCatalog
