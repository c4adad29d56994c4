import MetricCatalog.Proofs.LineByLine
/-!
# The first fault of a snapshot

Whether a line is refused depends on little: on the line itself, and when it
declares a kind, on the names whose kinds the lines above declare.  Which
families there are, and what a series resolves to, plays no part.  So a text is
refused at its first faulty line, with the fault of that line.
-/

namespace MetricCatalog.Exposition

/-- The name whose kind a text declares, when it is such a line. -/
def typedName? (cs : List Char) : Option String :=
  match Line.parse cs with
  | .ok line => line.typedName?
  | .error _ => none

/-- What is wrong with line `n`, counted from one: it is refused as a text of its
own, or it declares the kind of a name that a line above declares. -/
def FaultAt (texts : List (List Char)) (n : Nat) (fault : LineFault) : Prop :=
  ∃ before cs after, texts = before ++ cs :: after ∧ n = before.length + 1 ∧
    (decode (String.ofList cs) = .error ⟨1, fault⟩ ∨
      ∃ name, typedName? cs = some name ∧ name ∈ before.filterMap typedName? ∧
        fault = .repeatedKind name)

/-! ## One line -/

section

variable {cs : List Char}

theorem decode_ofList (h : '\n' ∉ cs) :
    decode (String.ofList cs) = (Draft.addLines {} 1 [cs]).map Draft.toFamilies := by
  rw [decode, lines_ofList h]

/-- The draft that has taken in nothing takes in every line. -/
theorem decode_line_eq_ok (h : '\n' ∉ cs) :
    (∃ families, decode (String.ofList cs) = .ok families) ↔ ∃ line, Line.parse cs = .ok line := by
  rw [decode_ofList h, Draft.addLines]
  cases hparse : Line.parse cs with
  | error fault => simp [Except.map]
  | ok line =>
      cases line <;> simp [Except.map, Draft.addLine, Draft.addLines, KeySet.contains, KeySet.empty]

theorem decode_line_eq_error (h : '\n' ∉ cs) {fault : LineFault} :
    decode (String.ofList cs) = .error ⟨1, fault⟩ ↔ Line.parse cs = .error fault := by
  rw [decode_ofList h, Draft.addLines]
  cases hparse : Line.parse cs with
  | error fault => simp [Except.map]
  | ok line =>
      cases line <;> simp [Except.map, Draft.addLine, Draft.addLines, KeySet.contains, KeySet.empty]

end

/-! ## All lines -/

section

variable {texts : List (List Char)} {ls : List Line}

theorem Reads.filterMap_typedName? (h : Reads texts ls) :
    texts.filterMap typedName? = ls.filterMap Line.typedName? := by
  induction texts generalizing ls with
  | nil => rw [reads_nil.1 h]; rfl
  | cons cs texts ih =>
      obtain ⟨line, rest, hparse, hrest, rfl⟩ := reads_cons.1 h
      simp only [List.filterMap_cons, typedName?, hparse, ih hrest]

theorem exists_reads : (∃ ls, Reads texts ls) ↔ ∀ cs ∈ texts, ∃ line, Line.parse cs = .ok line := by
  induction texts with
  | nil => simp
  | cons cs texts ih =>
      rw [List.forall_mem_cons, ← ih]
      constructor
      · rintro ⟨ls, h⟩
        obtain ⟨line, rest, hparse, hrest, -⟩ := reads_cons.1 h
        exact ⟨⟨line, hparse⟩, rest, hrest⟩
      · rintro ⟨⟨line, hparse⟩, rest, hrest⟩
        exact ⟨line :: rest, reads_cons.2 ⟨line, rest, hparse, hrest, rfl⟩⟩

theorem addLines_ok_iff {n : Nat} :
    (∃ d, Draft.addLines {} n texts = .ok d) ↔
      (∀ cs ∈ texts, ∃ line, Line.parse cs = .ok line) ∧ (texts.filterMap typedName?).Nodup := by
  simp only [Draft.addLines_eq_ok, ← exists_reads]
  constructor
  · rintro ⟨d, ls, hreads, hall⟩
    refine ⟨⟨ls, hreads⟩, ?_⟩
    rw [hreads.filterMap_typedName?]
    exact (Draft.addAll_ok_iff.1 ⟨d, hall⟩).1
  · rintro ⟨⟨ls, hreads⟩, hnodup⟩
    rw [hreads.filterMap_typedName?] at hnodup
    have hfresh : ∀ name ∈ ls.filterMap Line.typedName?, name ∉ ({} : Draft).typed :=
      fun name _ => KeySet.not_mem_empty
    obtain ⟨d, hall⟩ := Draft.addAll_ok_iff.2 ⟨hnodup, hfresh⟩
    exact ⟨d, ls, hreads, hall⟩

/-- Lines that are taken in have no fault. -/
theorem not_faultAt_of_addLines {d : Draft} {k n : Nat} (hbreak : ∀ cs ∈ texts, '\n' ∉ cs)
    (h : Draft.addLines {} k texts = .ok d) (fault : LineFault) : ¬ FaultAt texts n fault := by
  obtain ⟨hreads, hnodup⟩ := addLines_ok_iff.1 ⟨d, h⟩
  rintro ⟨before, cs, after, rfl, -, hfault⟩
  have hmem : cs ∈ before ++ cs :: after := by simp
  rcases hfault with halone | ⟨name, hname, hbefore, -⟩
  · obtain ⟨line, hparse⟩ := hreads cs hmem
    rw [decode_line_eq_error (hbreak cs hmem), hparse] at halone
    cases halone
  · rw [List.filterMap_append, List.filterMap_cons_some hname] at hnodup
    exact (List.nodup_append.1 hnodup).2.2 name hbefore name (List.mem_cons_self ..) rfl

theorem FaultAt.append {n : Nat} {fault : LineFault} (h : FaultAt texts n fault)
    (rest : List (List Char)) : FaultAt (texts ++ rest) n fault := by
  obtain ⟨before, cs, after, rfl, hn, hfault⟩ := h
  exact ⟨before, cs, after ++ rest, by simp, hn, hfault⟩

/-- A fault shows in the lines up to it. -/
theorem FaultAt.of_take {n k : Nat} {fault : LineFault} (h : FaultAt texts n fault) (hk : n ≤ k) :
    FaultAt (texts.take k) n fault := by
  obtain ⟨before, cs, after, rfl, hn, hfault⟩ := h
  refine ⟨before, cs, after.take (k - n), ?_, hn, hfault⟩
  rw [List.take_append, List.take_of_length_le (by omega),
    show k - before.length = k - n + 1 by omega, List.take_succ_cons]

theorem FaultAt.fault_eq {n : Nat} {fault fault' : LineFault} (hbreak : ∀ cs ∈ texts, '\n' ∉ cs)
    (h : FaultAt texts n fault) (h' : FaultAt texts n fault') : fault = fault' := by
  obtain ⟨before, cs, after, rfl, hn, hfault⟩ := h
  obtain ⟨before', cs', after', heq, hn', hfault'⟩ := h'
  obtain ⟨rfl, htail⟩ := List.append_inj heq (by omega)
  obtain ⟨rfl, -⟩ := List.cons.inj htail
  have hmem : '\n' ∉ cs := hbreak cs (by simp)
  rw [decode_line_eq_error hmem] at hfault hfault'
  -- a line that declares a kind does read
  rcases hfault with halone | ⟨name, hname, -, rfl⟩ <;>
    rcases hfault' with halone' | ⟨name', hname', -, rfl⟩
  · exact Except.error.inj (halone.symm.trans halone')
  · rw [typedName?, halone] at hname'
    cases hname'
  · rw [typedName?, halone'] at hname
    cases hname
  · rw [Option.some.inj (hname.symm.trans hname')]

end

section

variable {text : String} {e : DecodeError}

theorem faultAt_of_decode (h : decode text = .error e) :
    FaultAt (lines text) e.line e.fault ∧
      ∀ n < e.line, ∀ fault, ¬ FaultAt (lines text) n fault := by
  have hlines : Draft.addLines {} 1 (lines text) = .error e := by
    rw [decode] at h
    cases hadd : Draft.addLines {} 1 (lines text) with
    | error e' => rw [hadd] at h; cases h; rfl
    | ok d => rw [hadd] at h; cases h
  obtain ⟨before, cs, after, ls, next, hsplit, hline, hreads, hall, hstop⟩ :=
    Draft.addLines_eq_error hlines
  have hbreak : ∀ t ∈ before ++ cs :: after, '\n' ∉ t := fun t ht =>
    not_mem_of_mem_lines (hsplit ▸ ht)
  have hbefore : Draft.addLines {} 1 before = .ok next :=
    Draft.addLines_eq_ok.2 ⟨ls, hreads, hall⟩
  rw [hsplit]
  constructor
  · refine ⟨before, cs, after, rfl, by omega, ?_⟩
    rw [decode_line_eq_error (hbreak cs (by simp)), hreads.filterMap_typedName?]
    refine hstop.imp_right ?_
    rintro ⟨line, hparse, hadd⟩
    obtain ⟨name, hname, hmem, hfault⟩ := Draft.addLine_eq_error.1 hadd
    refine ⟨name, by rw [typedName?, hparse]; exact hname, ?_, hfault⟩
    exact ((Draft.mem_typed_addAll hall).1 hmem).resolve_right KeySet.not_mem_empty
  · intro n hn fault hfault
    have hshort := hfault.of_take (k := before.length) (by omega)
    rw [List.take_left' rfl] at hshort
    exact not_faultAt_of_addLines (fun t ht => hbreak t (List.mem_append_left _ ht)) hbefore
      fault hshort

theorem decode_eq_error_iff :
    decode text = .error e ↔
      FaultAt (lines text) e.line e.fault ∧
        ∀ n < e.line, ∀ fault, ¬ FaultAt (lines text) n fault := by
  refine ⟨faultAt_of_decode, fun ⟨hfault, hfirst⟩ => ?_⟩
  have hbreak : ∀ cs ∈ lines text, '\n' ∉ cs := fun cs => not_mem_of_mem_lines
  cases h : decode text with
  | ok families =>
      obtain ⟨ls, d, hreads, hall, -⟩ := decode_eq_ok.1 h
      exact absurd hfault (not_faultAt_of_addLines hbreak
        (Draft.addLines_eq_ok (n := 1).2 ⟨ls, hreads, hall⟩) e.fault)
  | error e' =>
      obtain ⟨hfault', hfirst'⟩ := faultAt_of_decode h
      have hline : e'.line = e.line := by
        rcases Nat.lt_trichotomy e'.line e.line with hlt | heq | hgt
        · exact absurd hfault' (hfirst e'.line hlt e'.fault)
        · exact heq
        · exact absurd hfault (hfirst' e.line hgt e.fault)
      have hsame : e'.fault = e.fault := (hline ▸ hfault').fault_eq hbreak hfault
      cases e; cases e'; simp_all

theorem decode_ok_iff :
    (∃ families, decode text = .ok families) ↔
      (∀ cs ∈ lines text, ∃ families, decode (String.ofList cs) = .ok families) ∧
        ((lines text).filterMap typedName?).Nodup := by
  have hline : ∀ cs ∈ lines text, (∃ families, decode (String.ofList cs) = .ok families) ↔
      ∃ line, Line.parse cs = .ok line := fun cs hcs =>
    decode_line_eq_ok (not_mem_of_mem_lines hcs)
  rw [forall₂_congr hline, ← addLines_ok_iff (n := 1), decode]
  cases Draft.addLines {} 1 (lines text) <;> simp [Except.map]

end

/-- A text is accepted when each line is accepted alone and no two lines declare
the kind of one name.  Otherwise the error is the fault of the first faulty line,
under its number, and any text that begins with the lines up to it has the same
error. -/
theorem decode_by_lines (text : String) :
    ((∃ families, decode text = .ok families) ↔
      (∀ cs ∈ lines text, ∃ families, decode (String.ofList cs) = .ok families) ∧
        ((lines text).filterMap typedName?).Nodup) ∧
    (∀ e, decode text = .error e ↔
      FaultAt (lines text) e.line e.fault ∧
        ∀ n < e.line, ∀ fault, ¬ FaultAt (lines text) n fault) ∧
    ∀ e text', decode text = .error e →
      (lines text').take e.line = (lines text).take e.line → decode text' = .error e := by
  refine ⟨decode_ok_iff, fun e => decode_eq_error_iff, fun e text' h htake => ?_⟩
  obtain ⟨hfault, hfirst⟩ := decode_eq_error_iff.1 h
  refine decode_eq_error_iff.2 ⟨?_, fun n hn fault hfault' => hfirst n hn fault ?_⟩
  · have hshort := hfault.of_take (Nat.le_refl _)
    rw [← htake] at hshort
    rw [← List.take_append_drop e.line (lines text')]
    exact hshort.append _
  · have hshort := hfault'.of_take (Nat.le_of_lt hn)
    rw [htake] at hshort
    rw [← List.take_append_drop e.line (lines text)]
    exact hshort.append _

theorem decode_by_lines_sample :
    decode "# TYPE m gauge\n# TYPE m counter\nm\x7b 1\n" = .error ⟨2, .repeatedKind "m"⟩ ∧
    decode "# TYPE m gauge\n# TYPE m counter\n# TYPE m meter" = .error ⟨2, .repeatedKind "m"⟩ := by
  have h : decode "# TYPE m gauge\n# TYPE m counter\nm\x7b 1\n" = .error ⟨2, .repeatedKind "m"⟩ := by
    rfl
  exact ⟨h, (decode_by_lines _).2.2 _ _ h (by decide)⟩

end MetricCatalog.Exposition
