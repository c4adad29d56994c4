import MetricCatalog.Proofs.LiteralText
import MetricCatalog.Proofs.QuotedStyles
import MetricCatalog.Yaml.Layout
/-!
# Reading tokens one by one

Reading goes from token to token.  Between two tokens only so much of the layout
matters: where the cursor is, the tokens and the open blocks, and whether a key
may begin.  Blocks are closed when the next token is seen, so what counts of the
tokens and blocks is what they are once that has been done.
-/

namespace MetricCatalog.Yaml

open Cursor

variable {c : Cursor} {rest : List Char}

namespace Layout

variable {l l' : Layout} {toks : List Token}

/-- From here the text is read as these tokens. -/
def Scans (l : Layout) (toks : List Token) : Prop :=
  ∀ fuel, l.cursor.left < fuel → l.readTokens fuel = .ok toks

/-- Passing over what stands before the next token. -/
def settled (l : Layout) : Layout := l.skipToToken (l.cursor.left + 1)

/-- What is read from the second layout is read from the first. -/
def Leads (l l' : Layout) : Prop := ∀ toks, l'.Scans toks → l.Scans toks

theorem Leads.trans {l₁ l₂ l₃ : Layout} (h : l₁.Leads l₂) (h' : l₂.Leads l₃) : l₁.Leads l₃ :=
  fun toks hscans => h toks (h' toks hscans)

/-- From each layout of the first kind reading comes to one of the second. -/
def Reaches (P Q : Layout → Prop) : Prop := ∀ l, P l → ∃ l', Q l' ∧ l.Leads l'

theorem Reaches.refl (P : Layout → Prop) : Reaches P P := fun l h => ⟨l, h, fun _ => id⟩

theorem Reaches.trans {P Q R : Layout → Prop} (h : Reaches P Q) (h' : Reaches Q R) :
    Reaches P R := by
  intro l hl
  obtain ⟨l₁, hl₁, hleads⟩ := h l hl
  obtain ⟨l₂, hl₂, hleads'⟩ := h' l₁ hl₁
  exact ⟨l₂, hl₂, hleads.trans hleads'⟩

/-- One token more. -/
theorem leads_of_step {l₁ l₂ : Layout} {x : Char} (hstale : l.settled.dropStaleKeyStarts = .ok l₁)
    (hpeek : l₁.cursor.peek? = some x)
    (hread : (l₁.closeBlocks (some l₁.cursor.column)).readToken x = .ok l₂)
    (hleft : l₂.cursor.left < l.cursor.left) : l.Leads l₂ := by
  intro toks h fuel hfuel
  obtain ⟨fuel, rfl⟩ : ∃ n, fuel = n + 1 := ⟨fuel - 1, by omega⟩
  unfold settled at hstale
  simp only [readTokens, hstale, bind, Except.bind, hpeek, hread]
  exact h fuel (by omega)

/-! ## Before a token -/

theorem skipToToken_here {count : Nat} (hrest : l.cursor.rest = indentation count ++ rest)
    (htoken : TokenAhead rest) (fuel : Nat) :
    l.skipToToken (fuel + 1) = { l with cursor := l.cursor.skip count } := by
  have hmark : l.cursor.skipByteOrderMark = l.cursor := by
    have hat : l.cursor.isAt '\uFEFF' = false := by
      rw [isAt_eq hrest]
      refine decide_eq_false fun h => ?_
      cases count with
      | zero => exact (htoken _ (by simpa [indentation] using h)).2.2.2 rfl
      | succ count => simp [indentation, List.replicate_succ] at h
    simp [skipByteOrderMark, hat]
  have hskip : (l.cursor.skip count).rest = rest := rest_skip_indentation hrest
  have hspaces :
      l.cursor.skipWhile (fun x => x = ' ' || ((l.inFlow || !l.keyAllowed) && x = '\t')) =
        l.cursor.skip count := by
    have hall : ∀ x ∈ indentation count,
        (x = ' ' || ((l.inFlow || !l.keyAllowed) && x = '\t')) = true := fun x hx => by
      simp [List.eq_of_mem_replicate hx]
    have hstop : rest.head?.any
        (fun x => x = ' ' || ((l.inFlow || !l.keyAllowed) && x = '\t')) = false := by
      cases hhead : rest.head? with
      | none => rfl
      | some x =>
          obtain ⟨hspace, -⟩ := htoken x hhead
          have hx : x ≠ ' ' ∧ x ≠ '\t' := by simpa [isSpace] using hspace
          simp [hx]
    rw [skipWhile, takeWhile_eq hrest hall hstop]
    simp [indentation]
  have hcomment : (l.cursor.skip count).skipComment = l.cursor.skip count := by
    have hat : (l.cursor.skip count).isAt '#' = false := by
      rw [isAt_eq hskip]
      exact decide_eq_false fun h => (htoken _ h).2.2.1 rfl
    simp [skipComment, hat]
  have hbreak : (l.cursor.skip count).isAtBreak = false := by
    rw [isAtBreak_eq hskip]
    cases hhead : rest.head? with
    | none => rfl
    | some x => exact (htoken x hhead).2.1
  simp only [skipToToken, hmark, hspaces, hcomment, hbreak, Bool.false_eq_true, if_false]

theorem settled_here {count : Nat} (hrest : l.cursor.rest = indentation count ++ rest)
    (htoken : TokenAhead rest) :
    l.settled = { l with cursor := l.cursor.skip count } :=
  skipToToken_here hrest htoken l.cursor.left

/-- A line break and the indentation of the next token, before which a key may
begin. -/
theorem settled_line (hflow : l.outerKeyStarts = []) {column : Nat}
    (hahead : TokenAhead rest) (hrest : l.cursor.rest = '\n' :: (indentation column ++ rest)) :
    ∃ c, c.StandsAt column rest ∧ l.settled = { l with cursor := c, keyAllowed := true } := by
  obtain ⟨c, htake, hc⟩ := takeBreak_of_isPrintable hrest (by decide) (by decide)
  obtain ⟨left, hleft⟩ : ∃ n, l.cursor.left = n + 1 :=
    ⟨l.cursor.left - 1, by have := l.cursor.left_eq; simp [hrest] at this; omega⟩
  have hmark : l.cursor.skipByteOrderMark = l.cursor := by
    simp [skipByteOrderMark, isAt_eq hrest]
  have hspaces (p : Char → Bool) (hp : p '\n' = false) : l.cursor.skipWhile p = l.cursor :=
    skipWhile_eq_self (by rw [peek?_eq hrest]; simpa using hp)
  have hcomment : l.cursor.skipComment = l.cursor := by simp [skipComment, isAt_eq hrest]
  have hbreak : l.cursor.isAtBreak = true := by rw [isAtBreak_eq hrest]; rfl
  have hstep : l.settled = skipToToken (left + 1) { l with cursor := c, keyAllowed := true } := by
    have hinFlow : l.inFlow = false := by simp [inFlow, hflow]
    rw [settled, hleft, skipToToken]
    rw [hmark, hspaces _ (by simp), hcomment, hbreak, skipBreak, htake, hinFlow]
    simp
  refine ⟨c.skip column, ?_, ?_⟩
  · have hskip := hc.skip_indentation
    rwa [Nat.zero_add] at hskip
  · rw [hstep, skipToToken_here (l := { l with cursor := c, keyAllowed := true }) hc.rest
      hahead]

/-- What stands before a token does not matter. -/
theorem leads_settled (hstill : l.settled.settled = l.settled)
    (hleft : l.settled.cursor.left ≤ l.cursor.left) : l.Leads l.settled := by
  intro toks h fuel hfuel
  obtain ⟨fuel, rfl⟩ : ∃ n, fuel = n + 1 := ⟨fuel - 1, by omega⟩
  have hread := h (fuel + 1) (by omega)
  unfold settled at hread hstill
  rw [readTokens, hstill] at hread
  rwa [readTokens]

/-! ## Open blocks -/

/-- The tokens read so far and the columns of the open blocks. -/
structure Holds (l : Layout) (ts : List Token) (bs : List Nat) : Prop where
  tokens : l.tokens = ts
  blocks : l.blocks = bs
  count : l.count = ts.length
  flow : l.outerKeyStarts = []

/-- Tokens and blocks when the blocks further in than a column have been closed;
without a column all are. -/
def closing (column : Option Nat) : List Token → List Nat → List Token × List Nat
  | ts, [] => (ts, [])
  | ts, b :: bs =>
    if column.all (· < b) then closing column (.blockEnd :: ts) bs else (ts, b :: bs)

theorem closing_eq (column : Option Nat) (ts : List Token) (bs : List Nat) :
    closing column ts bs =
      ((bs.takeWhile fun b => column.all (· < b)).map (fun _ => Token.blockEnd) ++ ts,
        bs.drop (bs.takeWhile fun b => column.all (· < b)).length) := by
  induction bs generalizing ts with
  | nil => rfl
  | cons b bs ih =>
      rw [closing]
      split
      · next hb =>
        have hcons (n : Nat) : List.replicate n Token.blockEnd ++ .blockEnd :: ts =
            .blockEnd :: (List.replicate n Token.blockEnd ++ ts) := by
          rw [List.append_cons, ← List.replicate_succ', List.replicate_succ, List.cons_append]
        simp [ih, hb, List.map_const', hcons]
      · next hb => simp [hb]

theorem closeBlocks_eq {ts : List Token} {bs : List Nat} (h : l.Holds ts bs)
    (column : Option Nat) :
    l.closeBlocks column = { l with
      tokens := (closing column ts bs).1
      blocks := (closing column ts bs).2
      count := (closing column ts bs).1.length } := by
  have hinFlow : l.inFlow = false := by simp [inFlow, h.flow]
  rw [closeBlocks, hinFlow, closing_eq, h.tokens, h.blocks, h.count]
  simp [Nat.add_comm]

theorem closing_of_le {column : Nat} {ts : List Token} {bs : List Nat}
    (h : ∀ n ∈ bs.head?, n ≤ column) : closing (some column) ts bs = (ts, bs) := by
  cases bs with
  | nil => rfl
  | cons b bs =>
      have hb : b ≤ column := h b rfl
      simp [closing, Nat.not_lt.2 hb]

/-! ## At a token -/

/-- Where the next token is; nowhere at the end of the text. -/
def place (column : Nat) (rest : List Char) : Option Nat :=
  if rest.isEmpty then none else some column

/-- No key has to follow that began earlier. -/
def KeyFree (l : Layout) : Prop := l.keyStart.any (·.required) = false

/-- A token comes next, before which a key may begin.  What is read so far counts
as these tokens and blocks. -/
structure Ahead (ts : List Token) (bs : List Nat) (column : Nat) (rest : List Char)
    (l : Layout) : Prop where
  cursor : l.cursor.StandsAt column rest
  token : TokenAhead rest
  holds : ∃ ts₀ bs₀, l.Holds ts₀ bs₀ ∧
    closing (place column rest) ts₀ bs₀ = closing (place column rest) ts bs
  key : l.KeyFree
  allowed : l.keyAllowed = true

/-- The same when the blocks have been closed. -/
structure Ready (ts : List Token) (bs : List Nat) (column : Nat) (rest : List Char)
    (l : Layout) : Prop where
  cursor : l.cursor.StandsAt column rest
  holds : l.Holds ts bs
  key : l.KeyFree
  allowed : l.keyAllowed = true

variable {ts : List Token} {bs : List Nat} {column : Nat}

theorem settled_eq_self (hrest : l.cursor.rest = rest) (htoken : TokenAhead rest) :
    l.settled = l := by
  have hrest : l.cursor.rest = indentation 0 ++ rest := hrest
  rw [settled_here hrest htoken, skip_zero]

theorem Ahead.settled (h : l.Ahead ts bs column rest) : l.settled = l :=
  settled_eq_self h.cursor.rest h.token

/-- A layout without the key places that are stale. -/
def fresh (l : Layout) : Layout :=
  { l with keyStart := l.keyStart.filter (!KeyStart.isStale l.cursor ·) }

theorem fresh_of_none (h : l.keyStart = none) : l.fresh = l := by
  rw [Layout.fresh, h, Option.filter_none, ← h]

theorem Holds.fresh (h : l.Holds ts bs) : l.fresh.Holds ts bs :=
  ⟨h.tokens, h.blocks, h.count, h.flow⟩

theorem KeyFree.fresh (h : l.KeyFree) : l.fresh.KeyFree := by
  show (l.keyStart.filter _).any _ = false
  unfold KeyFree at h
  cases hcases : l.keyStart with
  | none => rfl
  | some k =>
      have hk : k.required = false := by simpa [hcases] using h
      rw [Option.filter_some]
      split <;> simp [hk]

theorem dropStaleKeyStarts_eq (hflow : l.outerKeyStarts = [])
    (hkey : l.keyStart.any (fun k => KeyStart.isStale l.cursor k && k.required) = false) :
    l.dropStaleKeyStarts = .ok l.fresh := by
  rw [dropStaleKeyStarts]
  simp [hflow, hkey, Layout.fresh]

/-- Key places that are not required are never missed. -/
theorem KeyFree.not_missed (h : l.KeyFree) :
    l.keyStart.any (fun k => KeyStart.isStale l.cursor k && k.required) = false := by
  unfold KeyFree at h
  cases hcases : l.keyStart with
  | none => rfl
  | some k =>
      have hk : k.required = false := by simpa [hcases] using h
      simp [hk]

theorem KeyFree.dropKeyStart_eq (hkey : l.KeyFree) :
    l.dropKeyStart = .ok { l with keyStart := none } := by
  unfold KeyFree at hkey
  simp [dropKeyStart, hkey]

/-- From each layout of the first kind the token that starts with this character
is read, and the layout is of the second kind then. -/
def Reads (x : Char) (P Q : Layout → Prop) : Prop :=
  ∀ l, P l → ∃ l', l.readToken x = .ok l' ∧ l'.cursor.left < l.cursor.left ∧ Q l'

/-- The blocks further in are closed before the token is read. -/
theorem reaches_read {x : Char} {Q : Layout → Prop}
    (hread : Reads x (Ready (closing (some column) ts bs).1 (closing (some column) ts bs).2 column
      (x :: rest)) Q) :
    Reaches (Ahead ts bs column (x :: rest)) Q := by
  intro l h
  obtain ⟨ts₀, bs₀, hholds, hclosing⟩ := h.holds
  have hplace : place column (x :: rest) = some column := rfl
  rw [hplace] at hclosing
  have hclosed := closeBlocks_eq hholds.fresh (some column)
  obtain ⟨l', hread, hleft, hl'⟩ := hread (l.fresh.closeBlocks (some column)) {
    cursor := by rw [hclosed]; exact h.cursor
    holds := by rw [hclosed, ← hclosing]; exact ⟨rfl, rfl, rfl, hholds.flow⟩
    key := by rw [hclosed]; exact h.key.fresh
    allowed := by rw [hclosed]; exact h.allowed }
  have hstale : l.settled.dropStaleKeyStarts = .ok l.fresh := by
    rw [h.settled]
    exact dropStaleKeyStarts_eq hholds.flow h.key.not_missed
  have hrest : l.fresh.cursor.rest = x :: rest := h.cursor.rest
  have hpeek : l.fresh.cursor.peek? = some x := by
    rw [peek?_eq hrest]
    rfl
  have hread' : (l.fresh.closeBlocks (some l.fresh.cursor.column)).readToken x = .ok l' := by
    rw [show l.fresh.cursor.column = column from h.cursor.column, hread]
  rw [hclosed] at hleft
  exact ⟨l', hl', leads_of_step hstale hpeek hread' hleft⟩

/-- At the end of the text the blocks are closed. -/
theorem Ahead.scans_end (h : l.Ahead ts bs column []) : l.Scans (closing none ts bs).1.reverse := by
  obtain ⟨ts₀, bs₀, hholds, hclosing⟩ := h.holds
  have hplace : place column [] = none := rfl
  rw [hplace] at hclosing
  intro fuel hfuel
  obtain ⟨fuel, rfl⟩ : ∃ n, fuel = n + 1 := ⟨fuel - 1, by omega⟩
  have hrest : l.fresh.cursor.rest = [] := h.cursor.rest
  have hpeek : l.fresh.cursor.peek? = none := by
    rw [peek?_eq hrest]
    rfl
  have hsettled := h.settled
  unfold Layout.settled at hsettled
  have hclosed := closeBlocks_eq hholds.fresh none
  rw [hclosing] at hclosed
  have hkey : (l.fresh.closeBlocks none).KeyFree := by
    rw [hclosed]
    exact h.key.fresh
  rw [readTokens, hsettled, dropStaleKeyStarts_eq hholds.flow h.key.not_missed]
  simp only [bind, Except.bind, hpeek, hkey.dropKeyStart_eq, pure, Except.pure]
  rw [hclosed]

/-- A block that lies further in than the next token counts as closed. -/
theorem Ahead.close {n : Nat} (h : l.Ahead ts (n :: bs) column rest)
    (hplace : (place column rest).all (· < n)) : l.Ahead (.blockEnd :: ts) bs column rest where
  cursor := h.cursor
  token := h.token
  holds := by
    obtain ⟨ts₀, bs₀, hholds, hclosing⟩ := h.holds
    refine ⟨ts₀, bs₀, hholds, ?_⟩
    rw [hclosing, closing, if_pos hplace]
  key := h.key
  allowed := h.allowed

/-! ## Within a line -/

/-- Reading has come to this text, further in than all open blocks, where no key
has begun. -/
structure Inside (ts : List Token) (bs : List Nat) (allowed : Bool) (rest : List Char)
    (l : Layout) : Prop where
  rest : l.cursor.rest = rest
  holds : l.Holds ts bs
  inner : ∀ n ∈ bs.head?, n < l.cursor.column
  key : l.keyStart = none
  allowed : l.keyAllowed = allowed

variable {allowed : Bool}

theorem Inside.keyFree (h : l.Inside ts bs allowed rest) : l.KeyFree := by
  rw [KeyFree, h.key]
  rfl

/-- Further in than all blocks none of them is closed. -/
theorem Holds.closeBlocks_eq_self (h : l.Holds ts bs)
    (hinner : ∀ n ∈ bs.head?, n < l.cursor.column) :
    l.closeBlocks (some l.cursor.column) = l := by
  rw [closeBlocks_eq h, closing_of_le fun n hn => Nat.le_of_lt (hinner n hn)]
  dsimp only
  rw [← h.count, ← h.tokens, ← h.blocks]

theorem reaches_readInside {x : Char} {Q : Layout → Prop} (htoken : StartsToken x)
    (hread : Reads x (Inside ts bs allowed (x :: rest)) Q) :
    Reaches (Inside ts bs allowed (x :: rest)) Q := by
  intro l h
  obtain ⟨l', hread, hleft, hl'⟩ := hread l h
  have hstale : l.settled.dropStaleKeyStarts = .ok l := by
    rw [settled_eq_self h.rest (tokenAhead_cons htoken _),
      dropStaleKeyStarts_eq h.holds.flow h.keyFree.not_missed, fresh_of_none h.key]
  have hpeek : l.cursor.peek? = some x := by
    rw [peek?_eq h.rest]
    rfl
  have hclosed := h.holds.closeBlocks_eq_self h.inner
  exact ⟨l', hl', leads_of_step hstale hpeek (by rw [hclosed, hread]) hleft⟩

/-- A space is passed over. -/
theorem reaches_inside (htoken : TokenAhead rest) :
    Reaches (Inside ts bs allowed (' ' :: rest)) (Inside ts bs allowed rest) := by
  intro l h
  have hrest : l.cursor.rest = indentation 1 ++ rest := h.rest
  have hskip : (l.cursor.skip 1).rest = rest := rest_skip_cons h.rest
  have hsettled := settled_here hrest htoken
  refine ⟨l.settled, ?_, leads_settled ?_ ?_⟩
  · rw [hsettled]
    exact {
      rest := hskip
      holds := ⟨h.holds.tokens, h.holds.blocks, h.holds.count, h.holds.flow⟩
      inner := fun n hn => Nat.lt_succ_of_lt (h.inner n hn)
      key := h.key
      allowed := h.allowed }
  · refine settled_eq_self ?_ htoken
    rw [hsettled]
    exact hskip
  · rw [hsettled]
    exact Nat.sub_le _ _

/-- Where a key may begin, reading comes over spaces to a token. -/
theorem ahead_of_spaces {n count : Nat} (hahead : TokenAhead rest)
    (hcursor : l.cursor.StandsAt n (indentation count ++ rest)) (hholds : l.Holds ts bs)
    (hkey : l.KeyFree) (hallowed : l.keyAllowed = true) :
    ∃ l', l'.Ahead ts bs (n + count) rest ∧ l.Leads l' := by
  have hsettled := settled_here hcursor.rest hahead
  have hskip := hcursor.skip_indentation
  refine ⟨l.settled, ?_, leads_settled ?_ ?_⟩
  · rw [hsettled]
    exact {
      cursor := hskip
      token := hahead
      holds := ⟨ts, bs, ⟨hholds.tokens, hholds.blocks, hholds.count, hholds.flow⟩, rfl⟩
      key := hkey
      allowed := hallowed }
  · refine settled_eq_self ?_ hahead
    rw [hsettled]
    exact hskip.rest
  · rw [hsettled]
    exact Nat.sub_le _ _

/-- Over a line break reading comes to the token of the next line. -/
theorem ahead_of_line (hahead : TokenAhead rest)
    (hrest : l.cursor.rest = '\n' :: (indentation column ++ rest)) (hholds : l.Holds ts bs)
    (hkey : l.KeyFree) : ∃ l', l'.Ahead ts bs column rest ∧ l.Leads l' := by
  obtain ⟨c, hcursor, hsettled⟩ := settled_line hholds.flow hahead hrest
  refine ⟨l.settled, ?_, leads_settled ?_ ?_⟩
  · rw [hsettled]
    exact {
      cursor := hcursor
      token := hahead
      holds := ⟨ts, bs, ⟨hholds.tokens, hholds.blocks, hholds.count, hholds.flow⟩, rfl⟩
      key := hkey
      allowed := rfl }
  · refine settled_eq_self ?_ hahead
    rw [hsettled]
    exact hcursor.rest
  · rw [hsettled]
    show c.left ≤ l.cursor.left
    rw [c.left_eq, l.cursor.left_eq, hcursor.rest, hrest]
    simp [indentation]
    omega

end Layout

end MetricCatalog.Yaml
