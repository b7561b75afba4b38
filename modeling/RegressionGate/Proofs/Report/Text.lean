import Mathlib.Data.List.Basic
import RegressionGate.Proofs.Decimal.Digits
import RegressionGate.Report.Text

/-! Reading the summary of the report for reading: it is in the last lines, whatever names stand
above it. -/

namespace RegressionGate.Report

open Decimal

/-- The counts of a summary. -/
structure Summary where
  regressions : Nat
  improvements : Nat
  unchanged : Nat
deriving DecidableEq, Repr

/-- The number behind a label, at the end of a line. -/
def count? (label : String) (line : List Char) : Option Nat :=
  match line.dropPrefix? label.toList with
  | some ds => if ds ≠ [] ∧ ds.all Char.isDigit then some (Nat.ofDigitChars 10 ds 0) else none
  | none => none

/-- The counts in the last lines of a report. Each line is ended, so an empty one comes last. -/
def summary? (text : String) : Option Summary :=
  match (text.toList.splitOn '\n').reverse with
  | _ :: _ :: unchanged :: improvements :: regressions :: _ => do
    some
      { regressions := ← count? "  Regressions:  " regressions
        improvements := ← count? "  Improvements: " improvements
        unchanged := ← count? "  Unchanged:    " unchanged }
  | _ => none

theorem count?_digitsOf (label : String) (n : Nat) :
    count? label (label.toList ++ digitsOf n) = some n := by
  have hdrop : (label.toList ++ digitsOf n).dropPrefix? label.toList = some (digitsOf n) :=
    List.dropPrefix?_eq_some_iff.mpr ⟨_, rfl, beq_self_eq_true _⟩
  have hdigits : (digitsOf n).all Char.isDigit := List.all_eq_true.mpr (allDigits_digitsOf n)
  simp only [count?, hdrop, if_pos (And.intro (digitsOf_ne_nil n) hdigits), ofDigitChars_digitsOf]

theorem toList_count (label : String) (n : Nat) :
    (label ++ toString n).toList = label.toList ++ digitsOf n := by
  rw [String.toList_append, Nat.toString_eq_ofList_toDigits, String.toList_ofList, digitsOf]

/-- The text of lines, each of them ended. -/
def ended (lines : List String) : List Char := lines.flatMap fun line => line.toList ++ ['\n']

theorem ended_cons (line : String) (lines : List String) :
    ended (line :: lines) = line.toList ++ '\n' :: ended lines := by
  rw [ended, List.flatMap_cons, List.append_assoc, ended]
  rfl

theorem ended_append (lines lines' : List String) :
    ended (lines ++ lines') = ended lines ++ ended lines' := List.flatMap_append

theorem toList_join_ended (lines : List String) :
    (String.join (lines.map (· ++ "\n"))).toList = ended lines := by
  rw [String.toList_join, List.flatMap_map, ended]
  simp only [String.toList_append]
  rfl

theorem splitOn_ended {lines : List String} (h : ∀ line ∈ lines, '\n' ∉ line.toList) :
    (ended lines).splitOn '\n' = lines.map String.toList ++ [[]] := by
  induction lines with
  | nil => rfl
  | cons line lines ih =>
    obtain ⟨hline, hlines⟩ := List.forall_mem_cons.mp h
    rw [ended_cons, List.splitOn_append_cons_self_of_not_mem hline, ih hlines]
    rfl

theorem newline_notMem_append {s s' : String} (h : '\n' ∉ s.toList) (h' : '\n' ∉ s'.toList) :
    '\n' ∉ (s ++ s').toList := by
  rw [String.toList_append, List.mem_append, not_or]
  exact ⟨h, h'⟩

theorem newline_notMem_count {label : String} (h : '\n' ∉ label.toList) (n : Nat) :
    '\n' ∉ (label ++ toString n).toList := by
  rw [toList_count, List.mem_append, not_or]
  exact ⟨h, fun hn => absurd (allDigits_digitsOf n _ hn) (by decide)⟩

theorem newline_notMem_summaryLines {c : Classification} {threshold : Binary64} :
    ∀ line ∈ (summaryLines c threshold).tail, '\n' ∉ line.toList := by
  have hthreshold : '\n' ∉ ("  Threshold:    ±" ++ threshold.plain ++ "%").toList :=
    newline_notMem_append (newline_notMem_append (by decide) (newline_notMem_plain threshold))
      (by decide)
  simp only [summaryLines, List.tail_cons, List.forall_mem_cons]
  exact ⟨by decide, newline_notMem_count (by decide) _, newline_notMem_count (by decide) _,
    newline_notMem_count (by decide) _, hthreshold, fun _ h => absurd h List.not_mem_nil⟩

/-- The summary says how long the lists of a classification are. -/
theorem summary?_text (c : Classification) (threshold : Binary64) :
    summary? (text c threshold) =
      some ⟨c.regressions.length, c.improvements.length, c.unchanged.length⟩ := by
  obtain ⟨front, hfront⟩ : ∃ front, (text c threshold).toList =
      front ++ '\n' :: ended (summaryLines c threshold).tail := by
    rw [text, toList_join_ended, textLines, ended_append, summaryLines, ended_cons,
      ← List.append_assoc]
    exact ⟨_, rfl⟩
  rw [summary?, hfront, List.splitOn_append_cons_self, splitOn_ended newline_notMem_summaryLines]
  simp only [summaryLines, List.tail_cons, List.map_cons, List.map_nil, List.cons_append,
    List.nil_append, List.reverse_append, List.reverse_cons, List.reverse_nil, toList_count,
    count?_digitsOf]
  rfl

end RegressionGate.Report
