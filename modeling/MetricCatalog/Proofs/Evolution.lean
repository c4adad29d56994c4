import MetricCatalog.Proofs.AuditedMerge
import MetricCatalog.Proofs.Refresh
import MetricCatalog.Proofs.Validation
import Mathlib.Data.List.Induction
/-!
# A catalog over its whole life

From the empty catalog on, documents are loaded and snapshots reconciled in any
order and number.  Unique keys are the invariant: loading checks them, an
observed catalog has them by construction and reconciling keeps them, so that
the next merge may rely on them again.
-/

namespace MetricCatalog

/-- What can happen to a catalog. -/
inductive Step
  /-- A document replaces it, if it loads. -/
  | load (document : String)
  /-- The families of a snapshot are observed and reconciled with it. -/
  | synchronize (normalizer : Normalizer) (families : List Family) (tail : TailPolicy)

namespace Catalog

def step (c : Catalog) : Step → Catalog
  | .load document =>
    match parse document with
    | .ok loaded => loaded
    | .error _ => c
  | .synchronize normalizer families tail => updated tail c (normalizer.observe families)

/-- The empty catalog after these steps. -/
def evolve (steps : List Step) : Catalog := steps.foldl step .empty

theorem distinct_step {c : Catalog} (h : c.Distinct) (s : Step) : (c.step s).Distinct := by
  cases s with
  | load document =>
      unfold step
      dsimp only
      split
      · next hparse => exact distinct_of_parse hparse
      · exact h
  | synchronize normalizer families tail =>
      have hd : (normalizer.observe families).Distinct :=
        (normalizer.ascending_observe families).distinct
      exact (ascending_reconcile tail h hd).distinct

theorem distinct_evolve (steps : List Step) : (evolve steps).Distinct := by
  induction steps using List.reverseRecOn with
  | nil => exact distinct_empty
  | append_singleton steps s ih =>
      rw [evolve, List.foldl_concat]
      exact distinct_step ih s

/-- After any steps the catalog is valid.  The next synchronization, whatever
its snapshot and policy, leaves it ascending at every level, and the merges on
the way all get unique keys: with their assertions on they pass, and give what
they give without. -/
theorem evolve_valid (steps : List Step) :
    (evolve steps).validate = .ok () ∧
    ∀ (normalizer : Normalizer) (families : List Family) (tail : TailPolicy),
      (∀ level,
        (evolve (steps ++ [.synchronize normalizer families tail])).isAscendingAt level = true) ∧
      ∃ calls,
        (auditedReconcile tail (evolve steps) (normalizer.observe families)).run [] =
          .ok (reconcile tail (evolve steps) (normalizer.observe families), calls) ∧
        ∀ call ∈ calls, call.Distinct := by
  have hd := distinct_evolve steps
  refine ⟨validate_eq_ok.2 hd, fun normalizer families tail => ⟨fun level => ?_, ?_⟩⟩
  · have ho := (normalizer.ascending_observe families).distinct
    rw [evolve, List.foldl_concat]
    exact isAscendingAt_of_ascending (ascending_reconcile tail hd ho) level
  · have ho := (normalizer.ascending_observe families).distinct
    have hcalls := distinct_mergeCalls hd ho
    have hrun : (auditedReconcile tail (evolve steps) (normalizer.observe families)).run [] =
        .ok (reconcile tail (evolve steps) (normalizer.observe families),
          (mergeCalls (evolve steps) (normalizer.observe families)).reverse) :=
      auditedReconcile_eq_ok_iff.2 ⟨by rw [List.append_nil], hcalls⟩
    exact ⟨_, hrun, fun call hcall => hcalls call (List.mem_reverse.1 hcall)⟩

end Catalog

end MetricCatalog
