import MetricCatalog.Reconcile.Report
import Mathlib.Algebra.BigOperators.Group.List.Basic
/-!
# Sums of reports

A report is twenty counters, one for each level and outcome, and reports add
counter by counter.  So they form a commutative monoid, and the report of a
sequence of steps does not depend on the order of the steps.
-/

namespace MetricCatalog

/-- One counter of a tally. -/
def Tally.number (t : Tally) : Outcome → Nat
  | .admitted => t.admitted
  | .combined => t.combined
  | .pruned => t.pruned
  | .skipped => t.skipped
  | .locked => t.locked

namespace Report

/-- One counter of a report. -/
def number (r : Report) (level : Level) (outcome : Outcome) : Nat :=
  (r.tally level).number outcome

/-- A report is determined by its counters. -/
theorem ext_number {r s : Report}
    (h : ∀ level outcome, r.number level outcome = s.number level outcome) : r = s := by
  have htally (level : Level) : r.tally level = s.tally level := by
    have ha := h level .admitted
    have hc := h level .combined
    have hp := h level .pruned
    have hs := h level .skipped
    have hl := h level .locked
    simp only [number, Tally.number] at ha hc hp hs hl
    cases hr : r.tally level
    cases hs : s.tally level
    simp_all
  have hc := htally .component
  have hm := htally .metric
  have hl := htally .label
  have hv := htally .value
  cases r
  cases s
  simp_all [tally]

instance : Zero Report := ⟨zero⟩

@[simp] theorem number_zero (level : Level) (outcome : Outcome) :
    (0 : Report).number level outcome = 0 := by
  cases level <;> cases outcome <;> rfl

@[simp] theorem number_add (r s : Report) (level : Level) (outcome : Outcome) :
    (r + s).number level outcome = r.number level outcome + s.number level outcome := by
  cases level <;> cases outcome <;> rfl

theorem number_count (level l : Level) (outcome o : Outcome) (n : Nat) :
    (count level outcome n).number l o = if l = level ∧ o = outcome then n else 0 := by
  cases level <;> cases l <;> cases outcome <;> cases o <;> rfl

instance : AddCommMonoid Report where
  nsmul := nsmulRec
  add_assoc r s t := ext_number fun level outcome => by
    simp only [number_add, Nat.add_assoc]
  zero_add r := ext_number fun level outcome => by
    simp only [number_add, number_zero, Nat.zero_add]
  add_zero r := ext_number fun level outcome => by
    simp only [number_add, number_zero, Nat.add_zero]
  add_comm r s := ext_number fun level outcome => by
    simp only [number_add, Nat.add_comm]

@[simp] theorem count_zero (level : Level) (outcome : Outcome) : count level outcome 0 = 0 := by
  cases level <;> cases outcome <;> rfl

theorem count_add (level : Level) (outcome : Outcome) (m n : Nat) :
    count level outcome (m + n) = count level outcome m + count level outcome n := by
  apply ext_number
  intro l o
  simp only [number_add, number_count]
  split <;> rfl

/-- Counting a sequence is counting its elements one by one. -/
theorem count_length {α : Type} (level : Level) (outcome : Outcome) (xs : List α) :
    count level outcome xs.length = (xs.map fun _ => count level outcome 1).sum := by
  induction xs with
  | nil => exact count_zero level outcome
  | cons x xs ih => rw [List.length_cons, Nat.add_comm, count_add, ih, List.map_cons, List.sum_cons]

/-! ## Reports of runs that change no membership -/

/-- No key came, went or was left out at any level. -/
def Still (r : Report) : Prop :=
  ∀ level, r.number level .admitted = 0 ∧ r.number level .pruned = 0 ∧
    r.number level .skipped = 0

theorem still_zero : Still 0 := fun level => by
  simp only [number_zero, and_self]

theorem Still.add {r s : Report} (hr : r.Still) (hs : s.Still) : (r + s).Still := fun level => by
  obtain ⟨hra, hrp, hrs⟩ := hr level
  obtain ⟨hsa, hsp, hss⟩ := hs level
  simp only [number_add]
  omega

theorem Still.sum {rs : List Report} (h : ∀ r ∈ rs, r.Still) : rs.sum.Still := by
  induction rs with
  | nil => exact still_zero
  | cons r rs ih =>
      rw [List.sum_cons]
      exact (h r (by simp)).add (ih fun s hs => h s (by simp [hs]))

theorem still_combined (level : Level) (n : Nat) : (count level .combined n).Still := fun l => by
  simp [number_count]

theorem still_locked (level : Level) (n : Nat) : (count level .locked n).Still := fun l => by
  simp [number_count]

end Report

end MetricCatalog
