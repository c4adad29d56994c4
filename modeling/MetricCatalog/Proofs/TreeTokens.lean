import MetricCatalog.Proofs.ValueTokens
import MetricCatalog.Yaml.Tree
/-!
# The tokens of a tree

The trees of the documents that are kept: records of texts, words and lists of
records, with short names.  A tree that is written is read as its own tokens, field
by field and item by item; the blocks inside a record are closed when the next
token is further out.
-/

namespace MetricCatalog.Yaml

open Cursor

/-! ## Trees of records -/

namespace Tree

mutual

/-- A record as it stands at the root or in a list. -/
def IsRecord : Tree → Prop
  | record fields => AreFields fields
  | text _ | word _ | list _ => False

/-- What a field may hold. -/
def IsValue : Tree → Prop
  | text _ => True
  | word s => IsName s.toList
  | list items => AreRecords items
  | record _ => False

def AreRecords : List Tree → Prop
  | [] => True
  | item :: items => item.IsRecord ∧ AreRecords items

def AreFields : List (String × Tree) → Prop
  | [] => True
  | (name, value) :: fields => IsName name.toList ∧ value.IsValue ∧ AreFields fields

end

mutual

/-- The tokens that a tree is written with, indentation included. -/
def tokens : Tree → List Token
  | text s => [.scalar (styleOf s.toList) s]
  | word s => [.scalar .plain s]
  | list [] => [.flowSequenceStart, .flowSequenceEnd]
  | list items => itemTokens items
  | record [] => [.flowMappingStart, .flowMappingEnd]
  | record fields => .blockMappingStart :: fieldTokens fields ++ [.blockEnd]

def itemTokens : List Tree → List Token
  | [] => []
  | item :: items => .blockEntry :: item.tokens ++ itemTokens items

def fieldTokens : List (String × Tree) → List Token
  | [] => []
  | (name, value) :: fields =>
    .key :: .scalar .plain name :: .value :: value.tokens ++ fieldTokens fields

end

/-- What follows a colon begins with a blank or on the next line. -/
theorem endsWord_write (n : Nat) (value : Tree) (rest : List Char) :
    endsWord (write n value ++ rest).head? = true := by
  cases value with
  | text s => rw [write]; rfl
  | word s => rw [write]; rfl
  | list items =>
      cases items with
      | nil => rw [write]; rfl
      | cons item items => simp [write, endsWord, isBreak]
  | record fields =>
      cases fields with
      | nil => rw [write]; rfl
      | cons field fields => simp [write, endsWord, isBreak]

end Tree

namespace Layout

variable {l : Layout} {ts : List Token} {bs : List Nat} {n column : Nat} {rest : List Char}

/-! ## Empty collections -/

/-- One flow collection is open, before which no key has to follow. -/
structure InFlow (ts : List Token) (bs : List Nat) (rest : List Char) (l : Layout) : Prop where
  rest : l.cursor.rest = rest
  tokens : l.tokens = ts
  blocks : l.blocks = bs
  count : l.count = ts.length
  flow : ∃ k : Option KeyStart, l.outerKeyStarts = [k] ∧ k.any (·.required) = false
  key : l.keyStart = none

theorem Holds.readFlowStart_eq {l₁ : Layout} (hmark : l.markKeyStart = .ok l₁)
    (hholds : l₁.Holds ts bs) (hkey : l₁.KeyFree) {x : Char} (hrest : l₁.cursor.rest = x :: rest)
    (token : Token) :
    ∃ l', l.readFlowStart token = .ok l' ∧ l'.cursor.left < l₁.cursor.left ∧
      l'.InFlow (token :: ts) bs rest := by
  have hadd := hholds.add token l₁.cursor.skip
  have hskip : l₁.cursor.skip.rest = rest := rest_skip_cons hrest
  refine ⟨{ l₁.add token l₁.cursor.skip with
    keyStart := none, outerKeyStarts := l₁.keyStart :: l₁.outerKeyStarts, keyAllowed := true },
    ?_, ?_, {
      rest := hskip
      tokens := hadd.tokens
      blocks := hadd.blocks
      count := hadd.count
      flow := ⟨l₁.keyStart, by simp [hholds.flow], hkey⟩
      key := rfl }⟩
  · rw [readFlowStart, hmark]
    rfl
  · exact left_skip_lt hrest

theorem InFlow.readFlowEnd_eq {x : Char} (h : l.InFlow ts bs (x :: rest)) (token : Token) :
    ∃ l', l.readFlowEnd token = .ok l' ∧ l'.Holds (token :: ts) bs ∧ l'.KeyFree ∧
      l'.cursor.rest = rest := by
  obtain ⟨k, hflow, hk⟩ := h.flow
  refine ⟨{ l.add token l.cursor.skip with
    keyStart := k, outerKeyStarts := [], keyAllowed := false }, ?_, ⟨?_, ?_, ?_, rfl⟩, hk,
    rest_skip_cons h.rest⟩
  · simp [readFlowEnd, dropKeyStart, h.key, add, insert, hflow, bind, Except.bind, pure,
      Except.pure]
  · simp [add, insert, h.tokens]
  · exact h.blocks
  · simp [add, insert, h.count]

theorem reaches_flowEnd {x : Char} {token : Token} (htoken : StartsToken x)
    (hread : ∀ l : Layout, l.cursor.rest = x :: '\n' :: (indentation column ++ rest) →
      l.readToken x = l.readFlowEnd token)
    (hahead : TokenAhead rest) :
    Reaches (InFlow ts bs (x :: '\n' :: (indentation column ++ rest)))
      (Ahead (token :: ts) bs column rest) := by
  intro l h
  obtain ⟨k, hflow, hk⟩ := h.flow
  have hstale : l.settled.dropStaleKeyStarts = .ok l := by
    have hany : k.any (fun k => KeyStart.isStale l.cursor k && k.required) = false := by
      cases k with
      | none => rfl
      | some k => simp_all
    rw [settled_eq_self h.rest (tokenAhead_cons htoken _)]
    unfold dropStaleKeyStarts
    dsimp only
    rw [if_neg (by simp [hflow, hany])]
    exact congrArg Except.ok (fresh_of_none h.key)
  have hpeek : l.cursor.peek? = some x := by
    rw [peek?_eq h.rest]
    rfl
  have hclosed : l.closeBlocks (some l.cursor.column) = l := by simp [closeBlocks, inFlow, hflow]
  obtain ⟨l', hl', hholds, hkeyFree, hrest⟩ := h.readFlowEnd_eq token
  obtain ⟨l'', hahead'', hleads⟩ := ahead_of_line hahead hrest hholds hkeyFree
  refine ⟨l'', hahead'', (leads_of_step hstale hpeek ?_ ?_).trans hleads⟩
  · rw [hclosed, hread l h.rest, hl']
  · rw [Cursor.left_eq, Cursor.left_eq, hrest, h.rest]
    exact Nat.lt_succ_self _

theorem readToken_sign {x : Char} (hrest : l.cursor.rest = x :: rest) :
    (x = '[' → l.readToken x = l.readFlowStart .flowSequenceStart) ∧
      (x = ']' → l.readToken x = l.readFlowEnd .flowSequenceEnd) ∧
      (x = '\x7b' → l.readToken x = l.readFlowStart .flowMappingStart) ∧
      (x = '\x7d' → l.readToken x = l.readFlowEnd .flowMappingEnd) := by
  refine ⟨?_, ?_, ?_, ?_⟩ <;>
  · rintro rfl
    obtain ⟨hmark₁, hmark₂⟩ :=
      Bool.or_eq_false_iff.1 (not_isAtAnyDocumentMark hrest (by decide) (by decide))
    simp [readToken, hmark₁, hmark₂]

theorem reaches_emptyList (ts : List Token) (bs : List Nat) (hahead : TokenAhead rest) :
    Reaches (Inside ts (n :: bs) false (' ' :: '[' :: ']' :: '\n' :: (indentation column ++ rest)))
      (Ahead (.flowSequenceEnd :: .flowSequenceStart :: ts) (n :: bs) column rest) := by
  have hopen : StartsToken '[' := by decide
  refine (reaches_inside (tokenAhead_cons hopen _)).trans ((reaches_readInside hopen ?_).trans
    (reaches_flowEnd (x := ']') (by decide) (fun l h => (readToken_sign h).2.1 rfl) hahead))
  intro l h
  rw [(readToken_sign h.rest).1 rfl]
  exact h.holds.readFlowStart_eq h.markKeyStart h.keyFree h.rest _

theorem reaches_emptyRecord (ts : List Token) (bs : List Nat) (hbs : ∀ b ∈ bs.head?, b < n)
    (hahead : TokenAhead rest) :
    Reaches (Ahead ts bs n ('\x7b' :: '\x7d' :: '\n' :: (indentation column ++ rest)))
      (Ahead (.flowMappingEnd :: .flowMappingStart :: ts) bs column rest) := by
  refine (reaches_read ?_).trans
    (reaches_flowEnd (x := '\x7d') (by decide) (fun l h => (readToken_sign h).2.2.2 rfl) hahead)
  rw [closing_of_le fun b hb => Nat.le_of_lt (hbs b hb)]
  intro l h
  rw [(readToken_sign h.cursor.rest).2.2.1 rfl]
  have hkey : l.keyed.KeyFree := by
    have hhead : bs.head? ≠ some n := fun heq => Nat.lt_irrefl n (hbs n heq)
    simp [KeyFree, keyed, h.holds.blocks, h.cursor.column, hhead]
  exact h.holds.keyed.readFlowStart_eq h.markKeyStart hkey h.cursor.rest _

/-! ## Items -/

theorem startsToken_of_isLetter {x : Char} (h : isLetter x = true) : StartsToken x :=
  (startsPlain_of_isLetter h none).startsToken (isPrintable_of_isLetter h)

theorem readToken_dash (hrest : l.cursor.rest = '-' :: ' ' :: rest) :
    l.readToken '-' = l.readBlockEntry := by
  have hnext : l.cursor.next? = some ' ' := by rw [next?, hrest]; rfl
  have hmark (mark : Char) : l.cursor.isAtDocumentMark mark = false := by
    by_cases hmark : '-' = mark
    · subst hmark
      simp [isAtDocumentMark, hrest]
    · simp [isAtDocumentMark, hrest, hmark]
  have hend : endsWord (some ' ') = true := rfl
  simp [readToken, hnext, hmark, hend]

/-- A dash at the column of the block it stands in. -/
theorem reaches_dash (ts : List Token) (bs : List Nat) (n : Nat) (hahead : TokenAhead rest) :
    Reaches (Ahead ts (n :: bs) n ('-' :: ' ' :: rest))
      (Ahead (.blockEntry :: ts) (n :: bs) (n + 2) rest) := by
  refine Reaches.trans (Q := fun l => l.Holds (.blockEntry :: ts) (n :: bs) ∧ l.KeyFree ∧
    l.cursor.StandsAt (n + 1) (indentation 1 ++ rest) ∧ l.keyAllowed = true)
    (reaches_read ?_) ?_
  · rw [closing_of_le (by simp)]
    intro l h
    have hopen : l.openBlockHere .blockSequenceStart .misplacedBlockEntry = .ok l := by
      simp [openBlockHere, openBlock, h.holds.inFlow, h.allowed, h.holds.blocks, h.cursor.column]
    have hadd := h.holds.add .blockEntry l.cursor.skip
    have hskip : l.cursor.skip.rest = ' ' :: rest := rest_skip_cons h.cursor.rest
    refine ⟨{ l.add .blockEntry l.cursor.skip with keyStart := none, keyAllowed := true }, ?_, ?_,
      ⟨hadd.tokens, hadd.blocks, hadd.count, hadd.flow⟩, rfl,
      ⟨hskip, congrArg (· + 1) h.cursor.column⟩, rfl⟩
    · rw [readToken_dash h.cursor.rest, readBlockEntry, hopen]
      simp only [bind, Except.bind, h.key.dropKeyStart_eq]
      rfl
    · exact left_skip_lt h.cursor.rest
  · rintro l ⟨hholds, hkey, hcursor, hallowed⟩
    exact ahead_of_spaces (n := n + 1) hahead hcursor hholds hkey hallowed

theorem place_lt {k : Nat} (h : column < k) : (place column rest).all (· < k) = true := by
  unfold place
  split <;> simp [h]

open Yaml.Tree

/-! ## The entries of a block -/

/-- This text, at the column of its block, is one entry of it and gives these
tokens. -/
structure IsEntry (n : Nat) (text : List Char) (toks : List Token) : Prop where
  starts : TokenAhead text
  ne : text ≠ []
  reads : ∀ ts bs column rest, column ≤ n → TokenAhead rest →
    Reaches (Ahead ts (n :: bs) n (text ++ (indentation column ++ rest)))
      (Ahead (toks.reverse ++ ts) (n :: bs) column rest)

theorem IsEntry.tokenAhead {text : List Char} {toks : List Token} (h : IsEntry n text toks)
    (more : List Char) : TokenAhead (text ++ more) := by
  obtain ⟨x, text, rfl⟩ := List.exists_cons_of_ne_nil h.ne
  exact h.starts

/-- These lines are entries of a block and give these tokens; there may be none. -/
def AreEntries (n : Nat) (lines : List Char) (toks : List Token) : Prop :=
  ∀ ts bs column rest, column ≤ n → TokenAhead rest →
    ∃ m after, lines ++ (indentation column ++ rest) = indentation m ++ after ∧ m ≤ n ∧
      TokenAhead after ∧
      Reaches (Ahead ts (n :: bs) m after) (Ahead (toks.reverse ++ ts) (n :: bs) column rest)

theorem areEntries_nil (n : Nat) : AreEntries n [] [] := fun _ _ column rest hcolumn hahead =>
  ⟨column, rest, rfl, hcolumn, hahead, .refl _⟩

theorem IsEntry.cons {text lines : List Char} {toks more : List Token} (h : IsEntry n text toks)
    (hlines : AreEntries n lines more) :
    AreEntries n (indentation n ++ (text ++ lines)) (toks ++ more) := by
  intro ts bs column rest hcolumn hahead
  obtain ⟨m, after, heq, hm, hnext, hreaches⟩ :=
    hlines (toks.reverse ++ ts) bs column rest hcolumn hahead
  refine ⟨n, text ++ (indentation m ++ after), by simp [← heq], Nat.le_refl n, h.tokenAhead _, ?_⟩
  have hall := (h.reads ts bs m after hm hnext).trans hreaches
  simpa using hall

/-! ## Fields -/

/-- A value is read where it stands in a record at this column. -/
def ReadsValue (n : Nat) (value : Tree) : Prop :=
  ∀ ts bs column rest, column ≤ n → TokenAhead rest →
    Reaches (Inside ts (n :: bs) false (write n value ++ (indentation column ++ rest)))
      (Ahead (value.tokens.reverse ++ ts) (n :: bs) column rest)

/-- A field, which opens the block of its record if it is the first. -/
theorem reaches_fieldLine (ts : List Token) {name : String} {value : Tree}
    (hname : IsName name.toList)
    (hvalue : ReadsValue n value) (hhead : ∀ b ∈ bs.head?, b ≤ n) (hcolumn : column ≤ n)
    (hahead : TokenAhead rest) :
    Reaches (Ahead ts bs n (name.toList ++ ':' :: write n value ++ (indentation column ++ rest)))
      (Ahead ((.key :: .scalar .plain name :: .value :: value.tokens).reverse ++
        (opening n ts bs).1) (opening n ts bs).2 column rest) := by
  obtain ⟨bs', hbs'⟩ := head_opening hhead ts
  have hend := endsWord_write n value (indentation column ++ rest)
  have hfield := reaches_field ts hname hhead hend
  rw [String.ofList_toList, hbs'] at hfield
  rw [hbs', List.append_assoc]
  have h := hfield.trans (hvalue _ _ _ _ hcolumn hahead)
  simpa using h

theorem isEntry_field {name : String} {value : Tree} (hname : IsName name.toList)
    (hvalue : ReadsValue n value) :
    IsEntry n (name.toList ++ ':' :: write n value)
      (.key :: .scalar .plain name :: .value :: value.tokens) where
  starts := by
    obtain ⟨x, cs, hcs⟩ := List.exists_cons_of_ne_nil hname.ne
    rw [hcs]
    exact tokenAhead_cons (startsToken_of_isLetter (hname.letters x (hcs ▸ List.mem_cons_self))) _
  ne := by simp
  reads ts bs column rest hcolumn hahead := by
    have hhead : ∀ b ∈ (n :: bs).head?, b ≤ n := by simp
    have h := reaches_fieldLine ts hname hvalue hhead hcolumn hahead
    rwa [opening_self] at h

/-- The fields of a record but its first. -/
def moreFields (n : Nat) : List (String × Tree) → List Char
  | [] => []
  | field :: fields => indentation n ++ writeFields n (field :: fields)

theorem writeFields_cons (n : Nat) (name : String) (value : Tree) (fields : List (String × Tree)) :
    writeFields n ((name, value) :: fields) =
      name.toList ++ ':' :: write n value ++ moreFields n fields := by
  cases fields <;> simp [writeFields, moreFields]

theorem reaches_record (ts : List Token) (bs : List Nat) {name : String} {value : Tree}
    {fields : List (String × Tree)}
    (hname : IsName name.toList) (hvalue : ReadsValue n value)
    (hfields : AreEntries n (moreFields n fields) (fieldTokens fields))
    (hhead : ∀ b ∈ bs.head?, b < n) (hcolumn : column ≤ n)
    (hplace : (place column rest).all (· < n)) (hahead : TokenAhead rest) :
    Reaches
      (Ahead ts bs n (writeFields n ((name, value) :: fields) ++ (indentation column ++ rest)))
      (Ahead ((record ((name, value) :: fields)).tokens.reverse ++ ts) bs column rest) := by
  have hopen := opening_of_lt hhead ts
  obtain ⟨m, after, heq, hm, hnext, hreaches⟩ := hfields
    ((.key :: .scalar .plain name :: .value :: value.tokens).reverse ++ .blockMappingStart :: ts)
    bs column rest hcolumn hahead
  have hfirst := reaches_fieldLine ts hname hvalue
    (fun b hb => Nat.le_of_lt (hhead b hb)) hm hnext
  rw [hopen] at hfirst
  rw [writeFields_cons, List.append_assoc, heq]
  refine (hfirst.trans hreaches).trans fun l hl => ⟨l, ?_, fun _ => id⟩
  have hclosed := hl.close hplace
  simpa [Tree.tokens, fieldTokens] using hclosed

/-! ## Lists -/

theorem isEntry_item {item : Tree} (hrecord : item.IsRecord)
    (hreads : ∀ name value fields, item = record ((name, value) :: fields) →
      ReadsValue (n + 2) value ∧
        AreEntries (n + 2) (moreFields (n + 2) fields) (fieldTokens fields)) :
    IsEntry n ('-' :: writeItem n item) (.blockEntry :: item.tokens) where
  starts := tokenAhead_cons (by decide) _
  ne := List.cons_ne_nil _ _
  reads ts bs column rest hcolumn hahead := by
    match item, hrecord, hreads with
    | record [], _, _ =>
      have hnext := tokenAhead_cons (by decide : StartsToken '\x7b')
        ('\x7d' :: '\n' :: (indentation column ++ rest))
      have h := (reaches_dash ts bs n hnext).trans
        (reaches_emptyRecord _ _ (by simp) hahead)
      simpa [writeItem, Tree.tokens] using h
    | record ((name, value) :: fields), hrecord, hreads =>
      rw [IsRecord, AreFields] at hrecord
      obtain ⟨hvalue, hfields⟩ := hreads name value fields rfl
      have hnext : TokenAhead
          (writeFields (n + 2) ((name, value) :: fields) ++ (indentation column ++ rest)) := by
        rw [writeFields_cons, List.append_assoc]
        exact (isEntry_field hrecord.1 hvalue).tokenAhead _
      have h := (reaches_dash ts bs n hnext).trans
        (reaches_record _ _ hrecord.1 hvalue hfields (by simp) (by omega) (place_lt (by omega))
          hahead)
      simpa [writeItem] using h

theorem readsValue_list {item : Tree} {items : List Tree}
    (hitems : AreEntries n (writeItems n (item :: items)) (itemTokens (item :: items))) :
    ReadsValue n (list (item :: items)) := by
  intro ts bs column rest hcolumn hahead l h
  obtain ⟨m, after, heq, hm, hnext, hreaches⟩ := hitems ts bs column rest hcolumn hahead
  have hrest : l.cursor.rest = '\n' :: (indentation m ++ after) := by
    rw [h.rest, ← heq]
    simp [write]
  obtain ⟨l₁, hl₁, hleads⟩ := ahead_of_line hnext hrest h.holds h.keyFree
  obtain ⟨l₂, hl₂, hleads'⟩ := hreaches l₁ hl₁
  exact ⟨l₂, by simpa [Tree.tokens] using hl₂, hleads.trans hleads'⟩

/-! ## Whole trees -/

-- By recursion on the tree.  Fields and items are entries of a block at their own
-- column, so that nothing has to be said about the blocks around it.
mutual

theorem readsValue : ∀ (value : Tree), value.IsValue → ∀ n, ReadsValue n value
  | text s, _, n => fun ts bs column rest hcolumn hahead => by
    simpa [write, Tree.tokens] using reaches_text ts bs s hahead hcolumn
  | word s, hvalue, n => fun ts bs column rest hcolumn hahead => by
    rw [IsValue] at hvalue
    simpa [write, Tree.tokens] using reaches_word ts bs hvalue hahead hcolumn
  | list [], _, n => fun ts bs column rest _ hahead => by
    simpa [write, Tree.tokens] using reaches_emptyList ts bs (n := n) hahead
  | list (item :: items), hvalue, n => by
    rw [IsValue] at hvalue
    exact readsValue_list (areEntries_items (item :: items) hvalue n)
  | record _, hvalue, _ => by
    rw [IsValue] at hvalue
    exact hvalue.elim

theorem areEntries_items : ∀ (items : List Tree), AreRecords items →
    ∀ n, AreEntries n (writeItems n items) (itemTokens items)
  | [], _, n => by simpa [writeItems, itemTokens] using areEntries_nil n
  | item :: items, hitems, n => by
    rw [AreRecords] at hitems
    have h := (isEntry_record item hitems.1 n).cons (areEntries_items items hitems.2 n)
    simpa [writeItems, itemTokens] using h

theorem isEntry_record : ∀ (item : Tree), item.IsRecord →
    ∀ n, IsEntry n ('-' :: writeItem n item) (.blockEntry :: item.tokens)
  | record [], hitem, n => isEntry_item hitem (fun _ _ _ h => by cases h)
  | record ((name, value) :: fields), hitem, n => isEntry_item hitem fun name value fields h => by
    cases h
    rw [IsRecord, AreFields] at hitem
    exact ⟨readsValue value hitem.2.1 (n + 2), areEntries_fields fields hitem.2.2 (n + 2)⟩
  | text _, hitem, _ | word _, hitem, _ | list _, hitem, _ => by
    rw [IsRecord] at hitem
    exact hitem.elim

theorem areEntries_fields : ∀ (fields : List (String × Tree)), AreFields fields →
    ∀ n, AreEntries n (moreFields n fields) (fieldTokens fields)
  | [], _, n => by simpa [moreFields, fieldTokens] using areEntries_nil n
  | (name, value) :: fields, hfields, n => by
    rw [AreFields] at hfields
    have h := (isEntry_field hfields.1 (readsValue value hfields.2.1 n)).cons
      (areEntries_fields fields hfields.2.2 n)
    simpa [moreFields, writeFields_cons, fieldTokens] using h

end

end Layout

end MetricCatalog.Yaml
