import MetricCatalog.Proofs.PrintableText
import MetricCatalog.Proofs.ThinnedTree
/-!
# Reading a tree

What is written for a tree of records is read as that tree: its text gives its
tokens, and these give its nodes.
-/

namespace MetricCatalog.Yaml

open Yaml.Tree

/-! ## From the text to the tokens -/

theorem tokens_eq {text : String} {toks : List Token} (hprintable : IsPrintableText text.toList)
    (hscans : Layout.Scans { cursor := { rest := text.toList } } toks) :
    tokens text = .ok toks := by
  have hreadable : text.toList.all isReadable = true := List.all_eq_true.2 fun x hx =>
    isReadable_of_isPrintable (hprintable x hx)
  rw [tokens, hreadable]
  exact hscans _ (Nat.lt_succ_self _)

theorem ahead_start {text : List Char} (hahead : TokenAhead text) :
    Layout.Ahead [] [] 0 text { cursor := { rest := text } } where
  cursor := ⟨rfl, rfl⟩
  token := hahead
  holds := ⟨[], [], ⟨rfl, rfl, rfl, rfl⟩, rfl⟩
  key := rfl
  allowed := rfl

theorem scans_render {text : List Char} {toks : List Token} (hahead : TokenAhead text)
    (hreaches : Layout.Reaches (Layout.Ahead [] [] 0 text) (Layout.Ahead toks.reverse [] 0 [])) :
    Layout.Scans { cursor := { rest := text } } toks := by
  obtain ⟨l, hl, hleads⟩ := hreaches _ (ahead_start hahead)
  have hend := hl.scans_end
  rw [Layout.closing, List.reverse_reverse] at hend
  exact hleads toks hend

theorem tokens_render : ∀ {t : Tree}, t.IsRecord → Yaml.tokens t.render = .ok t.tokens
  | record [], _ => by
    have hreaches : Layout.Reaches
        (Layout.Ahead [] [] 0 ('\x7b' :: '\x7d' :: '\n' :: (indentation 0 ++ [])))
        (Layout.Ahead [.flowMappingEnd, .flowMappingStart] [] 0 []) :=
      Layout.reaches_emptyRecord [] [] (by simp) tokenAhead_nil
    have hahead := tokenAhead_cons (by decide : StartsToken '\x7b') ['\x7d', '\n']
    exact tokens_eq (by decide) (scans_render hahead hreaches)
  | record ((name, value) :: fields), ht => by
    rw [IsRecord] at ht
    have hprintable := printable_writeFields _ ht 0
    rw [AreFields] at ht
    obtain ⟨hname, hvalue, hfields⟩ := ht
    have hvalueReads := Layout.readsValue value hvalue 0
    have hahead := (Layout.isEntry_field hname hvalueReads).tokenAhead (Layout.moreFields 0 fields)
    rw [← Layout.writeFields_cons] at hahead
    have hreaches := Layout.reaches_record [] [] hname hvalueReads
      (Layout.areEntries_fields fields hfields 0) (by simp) (Nat.le_refl 0) rfl tokenAhead_nil
    have hrender : (record ((name, value) :: fields)).render =
        String.ofList (writeFields 0 ((name, value) :: fields)) := rfl
    refine tokens_eq ?_ ?_
    · rwa [hrender, String.toList_ofList]
    · rw [hrender, String.toList_ofList]
      exact scans_render hahead (by simpa [indentation] using hreaches)
  | text _, ht | word _, ht | list _, ht => by
    rw [IsRecord] at ht
    exact ht.elim

/-! ## From the tokens to the nodes -/

namespace Grammar

/-! ### One step at a time -/

section Steps

variable {α β : Type} (s : TokenStream)

@[simp] theorem bind_run (g : Grammar α) (f : α → Grammar β) :
    (g >>= f) s = (g s).bind fun (a, s) => f a s := rfl

@[simp] theorem map_run (g : Grammar α) (f : α → β) :
    (f <$> g) s = (g s).bind fun (a, s) => .ok (f a, s) := rfl

@[simp] theorem pure_run (a : α) : (pure a : Grammar α) s = .ok (a, s) := rfl

@[simp] theorem get_run : (get : Grammar TokenStream) s = .ok (s, s) := rfl

@[simp] theorem modify_run (f : TokenStream → TokenStream) :
    (modify f : Grammar PUnit) s = .ok (⟨⟩, f s) := rfl

@[simp] theorem peek?_run : peek? s = .ok (s.tokens.head?, s) := rfl

@[simp] theorem advance_run : advance s = .ok ((), { s with tokens := s.tokens.tail }) := rfl

@[simp] theorem next?_run :
    next? s = .ok (s.tokens.head?, { s with tokens := s.tokens.tail }) := rfl

end Steps

variable {fuel : Nat} {more toks : List Token} {s : TokenStream}

theorem accept_eq_true (token : Token) :
    accept token { s with tokens := token :: more } = .ok (true, { s with tokens := more }) := by
  simp [accept, Except.bind]

theorem accept_eq_false {token : Token} (h : s.tokens.head? ≠ some token) :
    accept token s = .ok (false, s) := by
  simp [accept, Except.bind, h]

/-- Something comes before the ends of its place. -/
theorem orEmpty_eq {ends : List Token} (h : ∀ token ∈ s.tokens.head?, token ∉ ends)
    (read : Grammar Node) : orEmpty ends read s = read s := by
  have hany : s.tokens.head?.any ends.contains = false := by
    cases hhead : s.tokens.head? with
    | none => rfl
    | some token =>
        have hmem := h token hhead
        simpa using hmem
  simp [orEmpty, isBefore, Except.bind, hany]

theorem node_scalar (block dashes : Bool) (style : Style) (text : String) :
    node block dashes (fuel + 1) { s with tokens := .scalar style text :: more } =
      .ok (.scalar none style text, { s with tokens := more }) := by
  simp [node, properties, anchor?, tag?, Except.bind]

theorem node_emptyList (block dashes : Bool) :
    node block dashes (fuel + 2)
      { s with tokens := .flowSequenceStart :: .flowSequenceEnd :: more } =
      .ok (.list [], { s with tokens := more }) := by
  simp [node, properties, anchor?, tag?, flowItems, accept_eq_true, Except.bind]

theorem node_emptyRecord (block dashes : Bool) :
    node block dashes (fuel + 2) { s with tokens := .flowMappingStart :: .flowMappingEnd :: more } =
      .ok (.record [], { s with tokens := more }) := by
  simp [node, properties, anchor?, tag?, flowEntries, accept_eq_true, Except.bind]

theorem node_record (dashes : Bool) {entries : List (Node × Node)}
    (hentries : blockEntries fuel { s with tokens := toks } =
      .ok (entries, { s with tokens := more })) :
    node true dashes (fuel + 1) { s with tokens := .blockMappingStart :: toks } =
      .ok (.record entries, { s with tokens := more }) := by
  simp [node, properties, anchor?, tag?, hentries, Except.bind]

theorem node_list {items : List Node}
    (hitems : dashItems fuel { s with tokens := .blockEntry :: toks } =
      .ok (items, { s with tokens := more })) :
    node true true (fuel + 1) { s with tokens := .blockEntry :: toks } =
      .ok (.list items, { s with tokens := more }) := by
  simp [node, properties, anchor?, tag?, hitems, Except.bind]

theorem dashItems_end (h : more.head? ≠ some .blockEntry) :
    dashItems (fuel + 1) { s with tokens := more } = .ok ([], { s with tokens := more }) := by
  have haccept : accept .blockEntry { s with tokens := more } =
      .ok (false, { s with tokens := more }) := accept_eq_false h
  simp [dashItems, haccept, Except.bind]

theorem dashItems_cons {item : Node} {items : List Node} {rest : List Token}
    (hstart : ∀ token ∈ toks.head?, token ∉ [.blockEntry, .key, .value, .blockEnd])
    (hitem : node true false fuel { s with tokens := toks } = .ok (item, { s with tokens := rest }))
    (hitems : dashItems fuel { s with tokens := rest } = .ok (items, { s with tokens := more })) :
    dashItems (fuel + 1) { s with tokens := .blockEntry :: toks } =
      .ok (item :: items, { s with tokens := more }) := by
  have hread : orEmpty [.blockEntry, .key, .value, .blockEnd] (node true false fuel)
      { s with tokens := toks } = .ok (item, { s with tokens := rest }) :=
    (orEmpty_eq hstart _).trans hitem
  simp [dashItems, accept_eq_true, hread, hitems, Except.bind]

theorem blockEntries_end :
    blockEntries (fuel + 1) { s with tokens := .blockEnd :: more } =
      .ok ([], { s with tokens := more }) := by
  simp [blockEntries, Except.bind]

theorem blockEntries_cons (name : String) {value : Node} {entries : List (Node × Node)}
    {rest : List Token} (hstart : ∀ token ∈ toks.head?, token ∉ [.key, .value, .blockEnd])
    (hvalue : node true true (fuel + 1) { s with tokens := toks } =
      .ok (value, { s with tokens := rest }))
    (hentries : blockEntries (fuel + 1) { s with tokens := rest } =
      .ok (entries, { s with tokens := more })) :
    blockEntries (fuel + 2) { s with tokens := .key :: .scalar .plain name :: .value :: toks } =
      .ok ((.scalar none .plain name, value) :: entries, { s with tokens := more }) := by
  have hname : orEmpty [.key, .value, .blockEnd] (node true true (fuel + 1))
      { s with tokens := .scalar .plain name :: .value :: toks } =
      .ok (.scalar none .plain name, { s with tokens := .value :: toks }) :=
    (orEmpty_eq (by simp) _).trans (node_scalar true true .plain name)
  have hread : orEmpty [.key, .value, .blockEnd] (node true true (fuel + 1))
      { s with tokens := toks } = .ok (value, { s with tokens := rest }) :=
    (orEmpty_eq hstart _).trans hvalue
  rw [blockEntries]
  simp [hname, accept_eq_true, hread, hentries, Except.bind]

/-! ### Trees -/

/-- A value does not start with a token that ends its place. -/
theorem value_starts : ∀ {value : Tree}, value.IsValue → ∀ token ∈ (value.tokens ++ more).head?,
    token ∉ [.key, .value, .blockEnd]
  | text _, _ | word _, _ | list [], _ | list (_ :: _), _ => by simp [Tree.tokens, itemTokens]
  | record _, hvalue => by
    rw [IsValue] at hvalue
    exact hvalue.elim

theorem record_starts : ∀ {item : Tree}, item.IsRecord → ∀ token ∈ (item.tokens ++ more).head?,
    token ∉ [.blockEntry, .key, .value, .blockEnd]
  | record [], _ | record (_ :: _), _ => by simp [Tree.tokens]
  | text _, hitem | word _, hitem | list _, hitem => by
    rw [IsRecord] at hitem
    exact hitem.elim

-- Fuel for twice the tokens: each collection takes one for itself and one for each
-- of its entries, and all of these have tokens of their own.
mutual

theorem node_of_value : ∀ (value : Tree), value.IsValue → ∀ (s : TokenStream) (fuel : Nat)
    (more : List Token), 2 * value.tokens.length + 2 ≤ fuel → more.head? ≠ some .blockEntry →
    node true true fuel { s with tokens := value.tokens ++ more } =
      .ok (value.node, { s with tokens := more })
  | text t, _, s, fuel + 1, more, _, _ => node_scalar true true (styleOf t.toList) t
  | word w, _, s, fuel + 1, more, _, _ => node_scalar true true .plain w
  | list [], _, s, fuel + 2, more, _, _ => node_emptyList true true
  | list (item :: items), hvalue, s, fuel + 1, more, hfuel, hmore => by
    rw [IsValue] at hvalue
    have hitems := dashItems_of_items (item :: items) hvalue s fuel more
      (by simp only [Tree.tokens] at hfuel; omega) hmore
    rw [itemTokens] at hitems
    exact node_list hitems
  | record _, hvalue, _, _, _, _, _ => by
    rw [IsValue] at hvalue
    exact hvalue.elim

theorem dashItems_of_items : ∀ (items : List Tree), AreRecords items →
    ∀ (s : TokenStream) (fuel : Nat) (more : List Token),
    2 * (itemTokens items).length + 1 ≤ fuel → more.head? ≠ some .blockEntry →
    dashItems fuel { s with tokens := itemTokens items ++ more } =
      .ok (nodes items, { s with tokens := more })
  | [], _, s, fuel + 1, more, _, hmore => dashItems_end hmore
  | item :: items, hitems, s, fuel + 1, more, hfuel, hmore => by
    rw [AreRecords] at hitems
    simp only [itemTokens, List.cons_append, List.length_cons, List.length_append] at hfuel
    have hfirst := node_of_record item hitems.1 s false fuel (itemTokens items ++ more) (by omega)
    have hrest := dashItems_of_items items hitems.2 s fuel more (by omega) hmore
    have htokens : itemTokens (item :: items) ++ more =
        .blockEntry :: (item.tokens ++ (itemTokens items ++ more)) := by simp [itemTokens]
    rw [htokens]
    exact dashItems_cons (record_starts hitems.1) hfirst hrest

theorem node_of_record : ∀ (item : Tree), item.IsRecord → ∀ (s : TokenStream) (dashes : Bool)
    (fuel : Nat) (more : List Token), 2 * item.tokens.length + 2 ≤ fuel →
    node true dashes fuel { s with tokens := item.tokens ++ more } =
      .ok (item.node, { s with tokens := more })
  | record [], _, s, dashes, fuel + 2, more, _ => node_emptyRecord true dashes
  | record (field :: fields), hitem, s, dashes, fuel + 1, more, hfuel => by
    rw [IsRecord] at hitem
    simp only [Tree.tokens, List.length_cons, List.length_append, List.length_nil] at hfuel
    have hfields := blockEntries_of_fields (field :: fields) hitem s fuel more (by omega)
    have htokens : (record (field :: fields)).tokens ++ more =
        .blockMappingStart :: (fieldTokens (field :: fields) ++ .blockEnd :: more) := by
      simp [Tree.tokens]
    rw [htokens]
    exact node_record dashes hfields
  | text _, hitem, _, _, _, _, _ | word _, hitem, _, _, _, _, _ | list _, hitem, _, _, _, _, _ => by
    rw [IsRecord] at hitem
    exact hitem.elim

theorem blockEntries_of_fields : ∀ (fields : List (String × Tree)), AreFields fields →
    ∀ (s : TokenStream) (fuel : Nat) (more : List Token),
    2 * (fieldTokens fields).length + 1 ≤ fuel →
    blockEntries fuel { s with tokens := fieldTokens fields ++ .blockEnd :: more } =
      .ok (entries fields, { s with tokens := more })
  | [], _, s, fuel + 1, more, _ => blockEntries_end
  | (name, value) :: fields, hfields, s, fuel + 2, more, hfuel => by
    rw [AreFields] at hfields
    obtain ⟨-, hvalue, hfields⟩ := hfields
    simp only [fieldTokens, List.cons_append, List.length_cons, List.length_append] at hfuel
    have hmore : (fieldTokens fields ++ .blockEnd :: more).head? ≠ some .blockEntry := by
      cases fields <;> simp [fieldTokens]
    have hfirst := node_of_value value hvalue s (fuel + 1) (fieldTokens fields ++ .blockEnd :: more)
      (by omega) hmore
    have hrest := blockEntries_of_fields fields hfields s (fuel + 1) more (by omega)
    have htokens : fieldTokens ((name, value) :: fields) ++ .blockEnd :: more =
        .key :: .scalar .plain name :: .value ::
          (value.tokens ++ (fieldTokens fields ++ .blockEnd :: more)) := by simp [fieldTokens]
    rw [htokens]
    exact blockEntries_cons name (value_starts hvalue) hfirst hrest

end

theorem document_of_record {t : Tree} (ht : t.IsRecord) :
    ∃ s, document { tokens := t.tokens } = .ok (t.node, s) := by
  obtain ⟨first, rest, htokens, hfirst⟩ : ∃ first rest, t.tokens = first :: rest ∧
      (first = .blockMappingStart ∨ first = .flowMappingStart) := by
    match t, ht with
    | record [], _ => exact ⟨_, _, rfl, .inr rfl⟩
    | record (_ :: _), _ => exact ⟨_, _, rfl, .inl rfl⟩
  have hnode := node_of_record t ht { tokens := t.tokens, handles := commonHandles } false
    (2 * t.tokens.length + 2) [] (Nat.le_refl _)
  rw [List.append_nil] at hnode
  have haccept : accept .documentStart { tokens := t.tokens, handles := commonHandles } =
      .ok (false, { tokens := t.tokens, handles := commonHandles }) := by
    refine accept_eq_false ?_
    rw [htokens]
    obtain rfl | rfl := hfirst <;> simp
  have hdirectives : directives (2 * t.tokens.length + 2) false [] { tokens := t.tokens } =
      .ok ([], { tokens := t.tokens }) := by
    rw [directives, htokens]
    obtain rfl | rfl := hfirst <;> simp [Except.bind]
  have hplain : isDirective first = false := by obtain rfl | rfl := hfirst <;> rfl
  have hhead : t.tokens.head? = some first := by rw [htokens]; rfl
  refine ⟨{ tokens := [], handles := commonHandles }, ?_⟩
  simp [document, hhead, hdirectives, haccept, hplain, hnode, Except.bind]

end Grammar

/-- What is written for a record is read as that record. -/
theorem Tree.parse_render {t : Tree} (ht : t.IsRecord) :
    Document.parse t.render = .ok (.ofNode t.node) := by
  obtain ⟨s, hdocument⟩ := Grammar.document_of_record ht
  rw [Document.parse, tokens_render ht]
  simp only [bind, Except.bind, hdocument]
  rfl

/-! ## Thinned trees -/

namespace Tree

theorem areFields_iff {fields : List (String × Tree)} :
    AreFields fields ↔ ∀ field ∈ fields, IsName field.1.toList ∧ field.2.IsValue := by
  induction fields with
  | nil => simp [AreFields]
  | cons field fields ih => rw [AreFields, ih, List.forall_mem_cons, and_assoc]

theorem areRecords_map {α : Type} {toTree : α → Tree} (h : ∀ x, (toTree x).IsRecord) (xs : List α) :
    AreRecords (xs.map toTree) := by
  induction xs with
  | nil => trivial
  | cons x xs ih =>
      rw [List.map_cons, AreRecords]
      exact ⟨h x, ih⟩

mutual

theorem IsRecord.thins : ∀ {t t' : Tree} {lost : Nat}, t.IsRecord → Thins lost t t' → t'.IsRecord
  | record fields, _, _, ht, .record hfields horder => by
    rw [IsRecord] at ht ⊢
    have hkept := areFields_iff.1 (AreFields.thins ht hfields)
    exact areFields_iff.2 fun field hmem => hkept field (horder.mem_iff.2 hmem)
  | text _, _, _, ht, _ | word _, _, _, ht, _ | list _, _, _, ht, _ => by
    rw [IsRecord] at ht
    exact ht.elim

theorem IsValue.thins : ∀ {t t' : Tree} {lost : Nat}, t.IsValue → Thins lost t t' → t'.IsValue
  | text _, _, _, ht, .text _ => ht
  | word _, _, _, ht, .word _ => ht
  | list items, _, _, ht, .list hitems => by
    rw [IsValue] at ht ⊢
    exact AreRecords.thins ht hitems
  | record _, _, _, ht, _ => by
    rw [IsValue] at ht
    exact ht.elim

theorem AreRecords.thins : ∀ {items items' : List Tree} {lost : Nat}, AreRecords items →
    ThinsItems lost items items' → AreRecords items'
  | [], _, _, ht, .nil => ht
  | _ :: _, _, _, ht, .cons hitem hitems => by
    rw [AreRecords] at ht ⊢
    exact ⟨IsRecord.thins ht.1 hitem, AreRecords.thins ht.2 hitems⟩

theorem AreFields.thins : ∀ {fields kept : List (String × Tree)} {lost : Nat}, AreFields fields →
    ThinsFields lost fields kept → AreFields kept
  | [], _, _, ht, .nil => ht
  | _ :: _, _, _, ht, .keep hvalue hfields => by
    rw [AreFields] at ht ⊢
    exact ⟨ht.1, IsValue.thins ht.2.1 hvalue, AreFields.thins ht.2.2 hfields⟩
  | _ :: _, _, _, ht, .drop _ _ hfields | _ :: _, _, _, ht, .lose _ hfields => by
    rw [AreFields] at ht
    exact AreFields.thins ht.2.2 hfields

end

end Tree

end MetricCatalog.Yaml
