import RegressionGate.Estimate.Measure
import RegressionGate.Proofs.Json.Record

/-! The language of estimates files: which contents give a measure, and which measure. -/

namespace RegressionGate.Estimate

open Json

/-- A content and the number in it that the mean is read from. -/
def Mean (content : Bytes) (x : Binary64) : Prop :=
  ∃ v, Document v content ∧ Raw.Record "mean" (Raw.Record "point_estimate" Raw.Converts) v x

theorem readDocument_readEstimates {content : Bytes} {x : Binary64} :
    readDocument readEstimates content = .ok x ↔ Mean content x :=
  readDocument_eq_ok_iff (accepts_record (accepts_record accepts_binary64))

theorem measure_eq_ok_iff {content : Bytes} {x : Binary64} :
    measure content = .ok x ↔ Mean content x ∧ x.IsFinite ∧ ¬x < Binary64.zero false := by
  rw [← readDocument_readEstimates, measure]
  cases hread : readDocument readEstimates content with
  | error e => simp [bind, Except.bind, Except.mapError]
  | ok y =>
    simp only [bind, Except.bind, Except.mapError, Except.ok.injEq]
    split
    · rename_i hrange
      simp only [Except.ok.injEq]
      exact ⟨fun h => ⟨h, h ▸ hrange⟩, fun h => h.1⟩
    · rename_i hrange
      simp only [reduceCtorEq, false_iff]
      rintro ⟨rfl, h⟩
      exact hrange h

/-- A content gives a measure just when it is a document with one mean that is in range, and that
mean is the measure; any other content is refused. -/
theorem measure_language (content : Bytes) :
    (∀ x, measure content = .ok x ↔ Mean content x ∧ x.IsFinite ∧ ¬x < Binary64.zero false) ∧
      ((∃ e, measure content = .error e) ↔
        ¬∃ x, Mean content x ∧ x.IsFinite ∧ ¬x < Binary64.zero false) := by
  refine ⟨fun x => measure_eq_ok_iff, ?_⟩
  simp only [← measure_eq_ok_iff]
  cases measure content with
  | error e => simp
  | ok x => simp

end RegressionGate.Estimate
