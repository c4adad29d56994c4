import MetricCatalog.Exposition.Decode
import MetricCatalog.Proofs.TextPieces
/-!
# A snapshot line by line

Reading a line takes no state and taking it in may.  So decoding splits into the
lines that the text holds, each read by itself, and the draft that these lines
build up one after another.
-/

namespace MetricCatalog.Exposition

/-! ## The lines of a text -/

theorem not_mem_of_mem_splitOn {α : Type} [BEq α] [LawfulBEq α] {a : α} {as piece : List α}
    (h : piece ∈ as.splitOn a) : a ∉ piece := by
  rw [List.splitOn_eq_splitOnP] at h
  intro hmem
  simpa using Text.not_of_mem_splitOnP h a hmem

theorem not_mem_of_mem_lines {text : String} {cs : List Char} (h : cs ∈ lines text) :
    '\n' ∉ cs :=
  not_mem_of_mem_splitOn h

theorem lines_ofList {cs : List Char} (h : '\n' ∉ cs) : lines (String.ofList cs) = [cs] := by
  rw [lines, String.toList_ofList, List.splitOn_eq_singleton h]

instance decidableEqExcept {ε α : Type} [DecidableEq ε] [DecidableEq α] : DecidableEq (Except ε α)
  | .ok a, .ok b => decidable_of_iff (a = b) (by simp)
  | .error a, .error b => decidable_of_iff (a = b) (by simp)
  | .ok _, .error _ => isFalse nofun
  | .error _, .ok _ => isFalse nofun

/-- The texts read as these lines, one for one. -/
def Reads (texts : List (List Char)) (ls : List Line) : Prop :=
  texts.map Line.parse = ls.map Except.ok

instance (texts : List (List Char)) (ls : List Line) : Decidable (Reads texts ls) :=
  inferInstanceAs (Decidable (_ = _))

@[simp] theorem reads_nil {ls : List Line} : Reads [] ls ↔ ls = [] := by
  simp [Reads, eq_comm]

theorem reads_cons {cs : List Char} {texts : List (List Char)} {ls : List Line} :
    Reads (cs :: texts) ls ↔
      ∃ line rest, Line.parse cs = .ok line ∧ Reads texts rest ∧ line :: rest = ls := by
  rw [Reads, List.map_cons, eq_comm, List.map_eq_cons_iff]
  constructor
  · rintro ⟨line, rest, hls, hline, hrest⟩
    exact ⟨line, rest, hline.symm, hrest.symm, hls.symm⟩
  · rintro ⟨line, rest, hline, hrest, hls⟩
    exact ⟨line, rest, hls.symm, hline.symm, hrest.symm⟩

theorem reads_append {texts texts' : List (List Char)} {ls : List Line} :
    Reads (texts ++ texts') ls ↔
      ∃ ls₁ ls₂, Reads texts ls₁ ∧ Reads texts' ls₂ ∧ ls₁ ++ ls₂ = ls := by
  rw [Reads, List.map_append, eq_comm, List.map_eq_append_iff]
  constructor
  · rintro ⟨ls₁, ls₂, rfl, h₁, h₂⟩
    exact ⟨ls₁, ls₂, h₁.symm, h₂.symm, rfl⟩
  · rintro ⟨ls₁, ls₂, h₁, h₂, rfl⟩
    exact ⟨ls₁, ls₂, rfl, h₁.symm, h₂.symm⟩

/-- The name whose kind a line declares. -/
def Line.typedName? : Line → Option String
  | .kind name _ => some name
  | _ => none

namespace Draft

variable {d d' : Draft} {line : Line} {ls : List Line} {texts : List (List Char)}

/-- Takes in lines that have been read. -/
def addAll (d : Draft) (ls : List Line) : Except LineFault Draft := ls.foldlM addLine d

@[simp] theorem addAll_nil : d.addAll [] = .ok d := rfl

theorem addAll_cons_eq_ok :
    d.addAll (line :: ls) = .ok d' ↔ ∃ next, d.addLine line = .ok next ∧ next.addAll ls = .ok d' := by
  rw [addAll, List.foldlM_cons]
  cases d.addLine line with
  | error fault => exact iff_of_false (fun h => nomatch h) fun ⟨_, h, _⟩ => nomatch h
  | ok next =>
      constructor
      · intro h
        exact ⟨next, rfl, h⟩
      · rintro ⟨_, ⟨⟩, h⟩
        exact h

theorem addAll_append_eq_ok {ls' : List Line} :
    d.addAll (ls ++ ls') = .ok d' ↔ ∃ next, d.addAll ls = .ok next ∧ next.addAll ls' = .ok d' := by
  induction ls generalizing d with
  | nil => simp
  | cons line ls ih =>
      rw [List.cons_append, addAll_cons_eq_ok]
      simp only [ih, addAll_cons_eq_ok]
      constructor
      · rintro ⟨first, hfirst, next, hnext, h⟩
        exact ⟨next, ⟨first, hfirst, hnext⟩, h⟩
      · rintro ⟨next, ⟨first, hfirst, hnext⟩, h⟩
        exact ⟨first, hfirst, next, hnext, h⟩

theorem addLines_cons_eq_ok {n : Nat} {cs : List Char} :
    d.addLines n (cs :: texts) = .ok d' ↔
      ∃ line next, Line.parse cs = .ok line ∧ d.addLine line = .ok next ∧
        next.addLines (n + 1) texts = .ok d' := by
  rw [addLines]
  cases hparse : Line.parse cs with
  | error fault => simp
  | ok line => cases hadd : d.addLine line <;> simp [hadd]

theorem addLines_eq_ok {n : Nat} :
    d.addLines n texts = .ok d' ↔ ∃ ls, Reads texts ls ∧ d.addAll ls = .ok d' := by
  induction texts generalizing d n with
  | nil => simp [addLines]
  | cons cs texts ih =>
      simp only [addLines_cons_eq_ok, ih]
      constructor
      · rintro ⟨line, next, hparse, hadd, ls, hreads, hall⟩
        exact ⟨line :: ls, reads_cons.2 ⟨line, ls, hparse, hreads, rfl⟩,
          addAll_cons_eq_ok.2 ⟨next, hadd, hall⟩⟩
      · rintro ⟨_, hreads, hall⟩
        obtain ⟨line, ls, hparse, hrest, rfl⟩ := reads_cons.1 hreads
        obtain ⟨next, hadd, hnext⟩ := addAll_cons_eq_ok.1 hall
        exact ⟨line, next, hparse, hadd, ls, hrest, hnext⟩

/-- Decoding stops at the first line that does not read, or reads but is not
taken in. -/
theorem addLines_eq_error {n : Nat} {e : DecodeError} (h : d.addLines n texts = .error e) :
    ∃ before cs after ls next, texts = before ++ cs :: after ∧ e.line = n + before.length ∧
      Reads before ls ∧ d.addAll ls = .ok next ∧
      (Line.parse cs = .error e.fault ∨
        ∃ line, Line.parse cs = .ok line ∧ next.addLine line = .error e.fault) := by
  induction texts generalizing d n with
  | nil => cases h
  | cons cs texts ih =>
      rw [addLines] at h
      cases hparse : Line.parse cs with
      | error fault =>
          rw [hparse] at h
          cases h
          exact ⟨[], cs, texts, [], d, rfl, rfl, rfl, rfl, .inl hparse⟩
      | ok line =>
          rw [hparse] at h
          cases hadd : d.addLine line with
          | error fault =>
              simp only [hadd] at h
              cases h
              exact ⟨[], cs, texts, [], d, rfl, rfl, rfl, rfl, .inr ⟨line, hparse, hadd⟩⟩
          | ok next =>
              simp only [hadd] at h
              obtain ⟨before, cs', after, ls, last, rfl, hline, hreads, hall, hstop⟩ := ih h
              refine ⟨cs :: before, cs', after, line :: ls, last, rfl, ?_, ?_, ?_, hstop⟩
              · rw [hline, List.length_cons]
                omega
              · exact reads_cons.2 ⟨line, ls, hparse, hreads, rfl⟩
              · exact addAll_cons_eq_ok.2 ⟨next, hadd, hall⟩

/-! ## Lines that are not taken in -/

theorem addLine_eq_error {fault : LineFault} :
    d.addLine line = .error fault ↔
      ∃ name, line.typedName? = some name ∧ name ∈ d.typed ∧ fault = .repeatedKind name := by
  cases line with
  | kind name kind =>
      rw [addLine]
      split
      · next h => simp [Line.typedName?, KeySet.contains_iff.1 h, eq_comm]
      · next h => simp [Line.typedName?, mt KeySet.contains_iff.2 h]
  | silent => simp [addLine, Line.typedName?]
  | help name text => simp [addLine, Line.typedName?]
  | sample series labels value => simp [addLine, Line.typedName?]

theorem mem_typed_addLine (h : d.addLine line = .ok d') {name : String} :
    name ∈ d'.typed ↔ line.typedName? = some name ∨ name ∈ d.typed := by
  cases line with
  | kind declared kind =>
      rw [addLine] at h
      split at h
      · cases h
      · cases h
        simp [Line.typedName?, eq_comm]
  | silent => cases h; simp [Line.typedName?]
  | help declared text => cases h; simp [Line.typedName?, modify]
  | sample series labels value => cases h; simp [Line.typedName?, modify]

theorem mem_typed_addAll (h : d.addAll ls = .ok d') {name : String} :
    name ∈ d'.typed ↔ name ∈ ls.filterMap Line.typedName? ∨ name ∈ d.typed := by
  induction ls generalizing d with
  | nil => cases h; simp
  | cons line ls ih =>
      obtain ⟨next, hadd, h⟩ := addAll_cons_eq_ok.1 h
      rw [ih h, mem_typed_addLine hadd]
      cases htyped : line.typedName? <;> simp [htyped, or_left_comm, or_assoc, eq_comm]

/-- Lines are taken in when no two of them declare the kind of one name, and none
declares a kind that the draft has. -/
theorem addAll_ok_iff :
    (∃ d', d.addAll ls = .ok d') ↔
      (ls.filterMap Line.typedName?).Nodup ∧
        ∀ name ∈ ls.filterMap Line.typedName?, name ∉ d.typed := by
  induction ls generalizing d with
  | nil => simp
  | cons line ls ih =>
      simp only [addAll_cons_eq_ok]
      cases hadd : d.addLine line with
      | error fault =>
          obtain ⟨name, hname, hmem, -⟩ := addLine_eq_error.1 hadd
          simp [hname, hmem]
      | ok next =>
          have hsplit : (∃ d' last, Except.ok (ε := LineFault) next = .ok last ∧
              last.addAll ls = .ok d') ↔ ∃ d', next.addAll ls = .ok d' := by simp
          rw [hsplit]
          have hmem := @mem_typed_addLine _ _ _ hadd
          cases hname : line.typedName? with
          | none =>
              simp only [hname, reduceCtorEq, false_or] at hmem
              simp [ih, hname, hmem]
          | some name =>
              have hnew : name ∉ d.typed := fun h => by
                have : d.addLine line = .error (.repeatedKind name) :=
                  addLine_eq_error.2 ⟨name, hname, h, rfl⟩
                rw [hadd] at this
                cases this
              simp only [hname, Option.some.injEq] at hmem
              simp only [ih, hmem, List.filterMap_cons_some hname, List.nodup_cons,
                List.forall_mem_cons, not_or, hnew, not_false_eq_true, true_and]
              constructor
              · rintro ⟨hnodup, hout⟩
                exact ⟨⟨fun h => (hout name h).1 rfl, hnodup⟩, fun a ha => (hout a ha).2⟩
              · rintro ⟨⟨hhead, hnodup⟩, hout⟩
                exact ⟨hnodup, fun a ha => ⟨fun h => hhead (h ▸ ha), hout a ha⟩⟩

end Draft

/-- The families of an accepted text are those of the draft that its lines build. -/
theorem decode_eq_ok {text : String} {families : List Family} :
    decode text = .ok families ↔
      ∃ ls d, Reads (lines text) ls ∧ Draft.addAll {} ls = .ok d ∧ d.toFamilies = families := by
  rw [decode]
  cases h : Draft.addLines {} 1 (lines text) with
  | error e =>
      refine iff_of_false (fun he => nomatch he) ?_
      rintro ⟨ls, d, hreads, hall, -⟩
      rw [Draft.addLines_eq_ok.2 ⟨ls, hreads, hall⟩] at h
      cases h
  | ok d =>
      obtain ⟨ls, hreads, hall⟩ := Draft.addLines_eq_ok.1 h
      constructor
      · intro he
        exact ⟨ls, d, hreads, hall, Except.ok.inj he⟩
      · rintro ⟨ls', d', hreads', hall', rfl⟩
        have := Draft.addLines_eq_ok (n := 1).2 ⟨ls', hreads', hall'⟩
        rw [h] at this
        cases this
        rfl

end MetricCatalog.Exposition
