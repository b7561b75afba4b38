import RegressionGate.Proofs.Report.Json
import RegressionGate.Proofs.Report.Text

/-! Reading the whole report for reading, section by section. What it shows can be told from its
text alone, even when names look like headings, rules or fields, and it is what the report for
machines holds, written as durations and percentages. -/

namespace RegressionGate

/-! ### What the report for machines holds -/

namespace Json.Value

def text? : Value → Option String
  | string s => some s
  | _ => none

def amount? : Value → Option Binary64
  | amount x => some x
  | _ => none

def natural? : Value → Option Nat
  | natural n => some n
  | _ => none

def boolean? : Value → Option Bool
  | boolean b => some b
  | _ => none

def elements? : Value → Option (List Value)
  | list vs => some vs
  | _ => none

/-- The value of the first member with a key. -/
def member? (key : String) : Value → Option Value
  | object ms => (ms.find? fun m => m.1 == key).map Prod.snd
  | _ => none

end Json.Value

/-- Whether the names that a classification lists fit on a line each. -/
def Classification.OneLine (c : Classification) : Prop :=
  ∀ d ∈ c.regressions ++ c.improvements, '\n' ∉ d.name.toList

namespace Report

open Json Decimal

def comparisonIn? (v : Value) : Option Comparison := do
  let name ← (← v.member? "name").text?
  let baseline ← (← v.member? "baseline_ns").amount?
  let current ← (← v.member? "current_ns").amount?
  let change ← (← v.member? "diff_pct").amount?
  some { name, baseline, current, change }

/-- The content of a value that is a report for machines. -/
def contentIn? (v : Value) : Option Content := do
  let threshold ← (← v.member? "threshold").amount?
  let regressions ← (← (← v.member? "regressions").elements?).mapM comparisonIn?
  let improvements ← (← (← v.member? "improvements").elements?).mapM comparisonIn?
  let unchanged ← (← v.member? "unchanged_count").natural?
  let hasRegressions ← (← v.member? "has_regressions").boolean?
  some { threshold, regressions, improvements, unchanged, hasRegressions }

theorem mapM_comparisonIn? (cs : List Comparison) :
    (cs.map comparisonValue).mapM comparisonIn? = some cs := by
  induction cs with
  | nil => rfl
  | cons c cs ih =>
    rw [List.map_cons, List.mapM_cons, ih]
    rfl

theorem contentIn?_value (c : Classification) (threshold : Binary64) :
    contentIn? (value c threshold) = some (content c threshold) := by
  simp [contentIn?, value, Value.member?, Value.amount?, Value.elements?, Value.natural?,
    Value.boolean?, mapM_comparisonIn?, content, -List.mapM_map]

/-! ### What the report for reading shows -/

/-- What is shown of a comparison. -/
structure Entry where
  name : String
  baseline : String
  current : String
  change : String
deriving DecidableEq, Repr

def Entry.of (c : Comparison) : Entry where
  name := c.name
  baseline := duration c.baseline
  current := duration c.current
  change := percentage c.change

/-- The sections of a report, as far as they are there, and its summary. -/
structure Sections where
  regressions : Option (List Entry)
  improvements : Option (List Entry)
  summary : Summary
deriving DecidableEq, Repr

/-- The section that shows comparisons; there is none for none. -/
def sectionOf (cs : List Comparison) : Option (List Entry) :=
  if cs = [] then none else some (cs.map .of)

/-- What of a content is shown. -/
def Content.shown (c : Content) : Sections where
  regressions := sectionOf c.regressions
  improvements := sectionOf c.improvements
  summary := ⟨c.regressions.length, c.improvements.length, c.unchanged⟩

/-! ### Reading the lines -/

/-- What follows a label in a line. -/
def field? (label : String) (line : List Char) : Option String :=
  (line.dropPrefix? label.toList).map String.ofList

/-- The entries up to the empty line that ends their section, and the lines behind it. -/
def readEntries? : List (List Char) → Option (List Entry × List (List Char))
  | [] :: rest => some ([], rest)
  | name :: baseline :: current :: change :: rest => do
    let entry : Entry :=
      { name := ← field? "  " name
        baseline := ← field? "    Baseline: " baseline
        current := ← field? "    Current:  " current
        change := ← field? "    Change:   " change }
    let (entries, rest) ← readEntries? rest
    some (entry :: entries, rest)
  | _ => none

def regressionsMark : String := "⚠️  REGRESSIONS (>"

def improvementsMark : String := "✅ IMPROVEMENTS (>"

/-- The section whose heading begins with a mark, if the first line is one, and the lines behind
it. -/
def readSection? (mark : String) :
    List (List Char) → Option (Option (List Entry) × List (List Char))
  | heading :: rule :: rest =>
    if mark.toList <+: heading then
      (readEntries? rest).map fun (entries, rest) => (some entries, rest)
    else some (none, heading :: rule :: rest)
  | lines => some (none, lines)

def linesOf (text : String) : List (List Char) := text.toList.splitOn '\n'

/-- What a report shows. Its first five lines are the title. -/
def readSections? (text : String) : Option Sections := do
  let (regressions, rest) ← readSection? regressionsMark ((linesOf text).drop 5)
  let (improvements, _) ← readSection? improvementsMark rest
  some { regressions, improvements, summary := ← summary? text }

theorem dropPrefix?_append (label rest : List Char) :
    (label ++ rest).dropPrefix? label = some rest :=
  List.dropPrefix?_eq_some_iff.mpr ⟨_, rfl, beq_self_eq_true _⟩

theorem field?_append (label s : String) : field? label (label ++ s).toList = some s := by
  rw [field?, String.toList_append, dropPrefix?_append, Option.map_some, String.ofList_toList]

theorem readEntries?_entryLines (cs : List Comparison) (rest : List (List Char)) :
    readEntries? ((cs.flatMap entryLines ++ [""]).map String.toList ++ rest) =
      some (cs.map .of, rest) := by
  induction cs with
  | nil => rfl
  | cons c cs ih =>
    -- The line of a name is not empty, whatever the name is.
    have hname : ("  " ++ c.name).toList = ' ' :: ' ' :: c.name.toList := String.toList_append ..
    have hfield : field? "  " (' ' :: ' ' :: c.name.toList) = some c.name := by
      rw [← hname, field?_append]
    simp only [List.flatMap_cons, entryLines, List.cons_append, List.nil_append, List.map_cons,
      hname, readEntries?, hfield, field?_append, ih]
    rfl

theorem readSection?_sectionLines {mark heading : String}
    (hmark : mark.toList <+: heading.toList) (cs : List Comparison) {next : List Char}
    (hnext : ¬mark.toList <+: next) (rest : List (List Char)) :
    readSection? mark ((sectionLines heading cs).map String.toList ++ next :: rest) =
      some (sectionOf cs, next :: rest) := by
  cases cs with
  | nil =>
    cases rest with
    | nil => rfl
    | cons line rest => exact if_neg hnext
  | cons c cs =>
    have hread := readEntries?_entryLines (c :: cs) (next :: rest)
    have hlines : sectionLines heading (c :: cs) =
        heading :: narrowRule :: ((c :: cs).flatMap entryLines ++ [""]) := rfl
    rw [hlines, List.map_cons, List.map_cons, List.cons_append, List.cons_append, readSection?,
      if_pos hmark, hread]
    rfl

/-! ### The lines of a report -/

theorem newline_notMem_duration (ns : Binary64) : '\n' ∉ (duration ns).toList := by
  have hunits : ∀ u ∈ nanosecond :: largerUnits, '\n' ∉ u.sign.toList := by decide
  rw [duration, String.toList_append, List.mem_append, not_or]
  exact ⟨newline_notMem_fixed _ _, hunits _ (timeUnit_mem ns)⟩

theorem newline_notMem_percentage (change : Binary64) : '\n' ∉ (percentage change).toList := by
  have hsign : ∀ p : Prop, [Decidable p] → '\n' ∉ (if p then "" else "+").toList := by
    intro p _
    split <;> decide
  exact newline_notMem_append (newline_notMem_append (hsign _) (newline_notMem_fixed _ _))
    (by decide)

theorem newline_notMem_entryLines {c : Comparison} (h : '\n' ∉ c.name.toList) :
    ∀ line ∈ entryLines c, '\n' ∉ line.toList := by
  simp only [entryLines, List.forall_mem_cons]
  exact ⟨newline_notMem_append (by decide) h,
    newline_notMem_append (by decide) (newline_notMem_duration _),
    newline_notMem_append (by decide) (newline_notMem_duration _),
    newline_notMem_append (by decide) (newline_notMem_percentage _),
    fun _ h => absurd h List.not_mem_nil⟩

/-- The lines of a section are its heading, and lines below that do not begin like one. -/
theorem mem_sectionLines {heading line : String} {cs : List Comparison}
    (h : line ∈ sectionLines heading cs) :
    line = heading ∧ cs ≠ [] ∨ line = narrowRule ∨ (∃ c ∈ cs, line ∈ entryLines c) ∨ line = "" := by
  rw [sectionLines] at h
  split at h
  · exact absurd h List.not_mem_nil
  · rename_i hne
    have hcs : cs ≠ [] := fun hnil => hne (List.isEmpty_iff.mpr hnil)
    simp only [List.mem_append, List.mem_cons, List.mem_flatMap, List.not_mem_nil, or_false] at h
    rcases h with (h | h | h) | h
    · exact .inl ⟨h, hcs⟩
    · exact .inr (.inl h)
    · exact .inr (.inr (.inl h))
    · exact .inr (.inr (.inr h))

theorem newline_notMem_sectionLines {heading : String} (hheading : '\n' ∉ heading.toList)
    {cs : List Comparison} (h : ∀ c ∈ cs, '\n' ∉ c.name.toList) :
    ∀ line ∈ sectionLines heading cs, '\n' ∉ line.toList := by
  intro line hline
  rcases mem_sectionLines hline with ⟨rfl, -⟩ | rfl | ⟨c, hc, hline⟩ | rfl
  · exact hheading
  · decide
  · exact newline_notMem_entryLines (h c hc) line hline
  · decide

def regressionsHeading (threshold : Binary64) : String :=
  regressionsMark ++ threshold.plain ++ "% slower):"

def improvementsHeading (threshold : Binary64) : String :=
  improvementsMark ++ threshold.plain ++ "% faster):"

def title : List String := ["", wideRule, "BENCHMARK REGRESSION CHECK", wideRule, ""]

theorem textLines_eq (c : Classification) (threshold : Binary64) :
    textLines c threshold = title ++ (sectionLines (regressionsHeading threshold) c.worstFirst ++
      (sectionLines (improvementsHeading threshold) c.greatestFirst ++
        summaryLines c threshold)) := by
  rw [textLines, List.append_assoc, List.append_assoc]
  rfl

theorem newline_notMem_textLines {c : Classification} (h : c.OneLine) (threshold : Binary64) :
    ∀ line ∈ textLines c threshold, '\n' ∉ line.toList := by
  have hheading {mark rest : String} (hmark : '\n' ∉ mark.toList) (hrest : '\n' ∉ rest.toList) :
      '\n' ∉ (mark ++ threshold.plain ++ rest).toList :=
    newline_notMem_append (newline_notMem_append hmark (newline_notMem_plain threshold)) hrest
  have hregressions : ∀ d ∈ c.worstFirst, '\n' ∉ d.name.toList := fun d hd =>
    h d (List.mem_append_left _ ((List.mergeSort_perm _ _).mem_iff.mp hd))
  have himprovements : ∀ d ∈ c.greatestFirst, '\n' ∉ d.name.toList := fun d hd =>
    h d (List.mem_append_right _ ((List.mergeSort_perm _ _).mem_iff.mp hd))
  rw [textLines_eq]
  simp only [List.forall_mem_append]
  exact ⟨by decide, newline_notMem_sectionLines (hheading (by decide) (by decide)) hregressions,
    newline_notMem_sectionLines (hheading (by decide) (by decide)) himprovements,
    List.forall_mem_cons.mpr ⟨by decide, newline_notMem_summaryLines⟩⟩

theorem linesOf_text {c : Classification} (h : c.OneLine) (threshold : Binary64) :
    linesOf (text c threshold) = (textLines c threshold).map String.toList ++ [[]] := by
  rw [linesOf, text, toList_join_ended, splitOn_ended (newline_notMem_textLines h threshold)]

/-! ### Headings -/

theorem head?_of_begins {mark : String} (hmark : mark.toList ≠ []) {line : List Char}
    (h : mark.toList <+: line) : line.head? = mark.toList.head? := by
  obtain ⟨rest, rfl⟩ := h
  exact List.head?_append_of_ne_nil _ hmark

theorem begins_heading (mark s s' : String) : mark.toList <+: (mark ++ s ++ s').toList := by
  rw [String.toList_append, String.toList_append, List.append_assoc]
  exact List.prefix_append _ _

/-- The first characters of lines that are no headings. -/
def ordinaryHeads : List (Option Char) := [none, some '=', some 'B', some '-', some ' ', some '📊']

theorem head?_label {label : String} (h : label.toList.head? = some ' ') (s : String) :
    (label ++ s).toList.head? = some ' ' := by
  rw [String.toList_append, List.head?_append, h]
  rfl

theorem head?_entryLines {c : Comparison} {line : String} (h : line ∈ entryLines c) :
    line.toList.head? = some ' ' := by
  simp only [entryLines, List.mem_cons, List.not_mem_nil, or_false] at h
  rcases h with rfl | rfl | rfl | rfl <;> exact head?_label (by decide) _

theorem head?_sectionLines {heading line : String} {cs : List Comparison}
    (h : line ∈ sectionLines heading cs) :
    line = heading ∧ cs ≠ [] ∨ line.toList.head? ∈ ordinaryHeads := by
  rcases mem_sectionLines h with h | rfl | ⟨c, -, hline⟩ | rfl
  · exact .inl h
  · exact .inr (by decide)
  · exact .inr (by rw [head?_entryLines hline]; decide)
  · exact .inr (by decide)

theorem head?_summaryLines {c : Classification} {threshold : Binary64} {line : String}
    (h : line ∈ summaryLines c threshold) : line.toList.head? ∈ ordinaryHeads := by
  have hblank {line : String} (h : line.toList.head? = some ' ') :
      line.toList.head? ∈ ordinaryHeads := by
    rw [h]
    decide
  simp only [summaryLines, List.mem_cons, List.not_mem_nil, or_false] at h
  rcases h with rfl | rfl | rfl | rfl | rfl | rfl
  · decide
  · decide
  · exact hblank (head?_label (by decide) _)
  · exact hblank (head?_label (by decide) _)
  · exact hblank (head?_label (by decide) _)
  · exact hblank (head?_label (head?_label (by decide) _) _)

/-- A line of a report is the heading of a section that is there, or no heading at all. -/
theorem mem_textLines {c : Classification} {threshold : Binary64} {line : String}
    (h : line ∈ textLines c threshold) :
    line = regressionsHeading threshold ∧ c.worstFirst ≠ [] ∨
      line = improvementsHeading threshold ∧ c.greatestFirst ≠ [] ∨
      line.toList.head? ∈ ordinaryHeads := by
  have htitle : ∀ line ∈ title, line.toList.head? ∈ ordinaryHeads := by decide
  rw [textLines_eq, List.mem_append, List.mem_append, List.mem_append] at h
  rcases h with h | h | h | h
  · exact .inr (.inr (htitle line h))
  · rcases head?_sectionLines h with h | h
    · exact .inl h
    · exact .inr (.inr h)
  · exact .inr (head?_sectionLines h)
  · exact .inr (.inr (head?_summaryLines h))

theorem head?_regressionsHeading (threshold : Binary64) :
    (regressionsHeading threshold).toList.head? = some '⚠' :=
  head?_of_begins (by decide) (begins_heading regressionsMark _ _)

theorem head?_improvementsHeading (threshold : Binary64) :
    (improvementsHeading threshold).toList.head? = some '✅' :=
  head?_of_begins (by decide) (begins_heading improvementsMark _ _)

/-- A line that begins otherwise than the headings of a section is none of them. -/
theorem not_begins {mark : String} {line : List Char} (hmark : mark.toList ≠ [])
    (h : line.head? ≠ mark.toList.head?) : ¬mark.toList <+: line :=
  fun hbegins => h (head?_of_begins hmark hbegins)

theorem heading_mem_sectionLines (heading : String) {cs : List Comparison} (h : cs ≠ []) :
    heading ∈ sectionLines heading cs := by
  cases cs with
  | nil => exact absurd rfl h
  | cons c cs => exact List.mem_cons_self

/-- Whether a line of a text begins with a mark. -/
def Marked (mark text : String) : Prop := ∃ line ∈ linesOf text, mark.toList <+: line

section Marked

variable {c : Classification} (h : c.OneLine) (threshold : Binary64)
include h

theorem marked_iff {mark : String} (heading : String) (hmark : mark.toList ≠ [])
    (hbegins : mark.toList <+: heading.toList) {cs : List Comparison}
    (hmem : cs ≠ [] → heading ∈ textLines c threshold)
    (honly : ∀ line ∈ textLines c threshold, line.toList.head? = mark.toList.head? → cs ≠ []) :
    Marked mark (text c threshold) ↔ cs ≠ [] := by
  rw [Marked, linesOf_text h]
  constructor
  · rintro ⟨line, hline, hfront⟩
    rcases List.mem_append.mp hline with hline | hline
    · obtain ⟨line, hmemline, rfl⟩ := List.mem_map.mp hline
      exact honly line hmemline (head?_of_begins hmark hfront)
    · rw [List.mem_singleton.mp hline] at hfront
      exact absurd (List.prefix_nil.mp hfront) hmark
  · exact fun hne => ⟨_, List.mem_append_left _ (List.mem_map_of_mem (hmem hne)), hbegins⟩

theorem marked_regressions : Marked regressionsMark (text c threshold) ↔ c.worstFirst ≠ [] := by
  refine marked_iff h threshold (regressionsHeading threshold) (by decide)
    (begins_heading _ _ _) (fun hne => ?_) fun line hline hhead => ?_
  · rw [textLines_eq]
    exact List.mem_append_right _ (List.mem_append_left _ (heading_mem_sectionLines _ hne))
  · rcases mem_textLines hline with ⟨-, hne⟩ | ⟨rfl, -⟩ | hordinary
    · exact hne
    · rw [head?_improvementsHeading] at hhead
      exact absurd hhead (by decide)
    · rw [hhead] at hordinary
      exact absurd hordinary (by decide)

theorem marked_improvements :
    Marked improvementsMark (text c threshold) ↔ c.greatestFirst ≠ [] := by
  refine marked_iff h threshold (improvementsHeading threshold) (by decide)
    (begins_heading _ _ _) (fun hne => ?_) fun line hline hhead => ?_
  · rw [textLines_eq]
    exact List.mem_append_right _ (List.mem_append_right _
      (List.mem_append_left _ (heading_mem_sectionLines _ hne)))
  · rcases mem_textLines hline with ⟨rfl, -⟩ | ⟨-, hne⟩ | hordinary
    · rw [head?_regressionsHeading] at hhead
      exact absurd hhead (by decide)
    · exact hne
    · rw [hhead] at hordinary
      exact absurd hordinary (by decide)

end Marked

/-! ### The whole report -/

/-- What follows the regressions begins with the heading of the improvements or of the summary. -/
theorem exists_next (c : Classification) (threshold : Binary64) (rest : List (List Char)) :
    ∃ next rest',
      (sectionLines (improvementsHeading threshold) c.greatestFirst).map String.toList ++
        "📊 SUMMARY:".toList :: rest = next :: rest' ∧ ¬regressionsMark.toList <+: next := by
  cases c.greatestFirst with
  | nil => exact ⟨_, _, rfl, not_begins (by decide) (by decide)⟩
  | cons d ds =>
    refine ⟨_, _, rfl, not_begins (by decide) ?_⟩
    rw [head?_improvementsHeading]
    decide

theorem readSections?_text {c : Classification} (h : c.OneLine) (threshold : Binary64) :
    readSections? (text c threshold) = some (content c threshold).shown := by
  obtain ⟨tail, htail⟩ : ∃ tail, (summaryLines c threshold).map String.toList ++ [[]] =
      "📊 SUMMARY:".toList :: tail := ⟨_, rfl⟩
  have hlines : (linesOf (text c threshold)).drop 5 =
      (sectionLines (regressionsHeading threshold) c.worstFirst).map String.toList ++
        ((sectionLines (improvementsHeading threshold) c.greatestFirst).map String.toList ++
          "📊 SUMMARY:".toList :: tail) := by
    rw [linesOf_text h, textLines_eq, List.map_append, List.map_append, List.map_append,
      List.append_assoc, List.append_assoc, List.append_assoc, htail]
    rfl
  have hsummary : ¬improvementsMark.toList <+: "📊 SUMMARY:".toList :=
    not_begins (by decide) (by decide)
  obtain ⟨next, rest, hnext, hmark⟩ := exists_next c threshold tail
  have hregressions := readSection?_sectionLines
    (begins_heading regressionsMark threshold.plain "% slower):") c.worstFirst hmark rest
  have himprovements := readSection?_sectionLines
    (begins_heading improvementsMark threshold.plain "% faster):") c.greatestFirst hsummary tail
  have hlengths : (content c threshold).shown.summary =
      ⟨c.regressions.length, c.improvements.length, c.unchanged.length⟩ := by
    simp [Content.shown, content, Classification.worstFirst, Classification.greatestFirst]
  rw [← hnext] at hregressions
  rw [readSections?, hlines, regressionsHeading, hregressions, improvementsHeading]
  simp only [Option.bind_eq_bind, Option.bind_some]
  rw [himprovements]
  simp only [Option.bind_some, summary?_text, ← hlengths]
  rfl

/-- A classification whose names look like other lines of a report. -/
def disguised : Classification where
  regressions := [⟨"  Baseline: 7ns", 100, 300, 200⟩, ⟨"", 100, 150, 50⟩]
  improvements := [⟨"⚠️  REGRESSIONS (>10% slower):", 2500000, 1000000, -60⟩]
  unchanged := []

/-- What a report shows can be told from its text, whatever the names on its lines look like, and it
is what the report for machines holds: the same comparisons in the same order, as durations and
percentages, and as many of each kind. A section is there just when it has something to show, so
reports that show different things are different texts. -/
theorem text_reads {c : Classification} (h : c.OneLine) (threshold : Binary64) :
    ∃ content, contentIn? (value c threshold) = some content ∧
      readSections? (text c threshold) = some content.shown ∧
      (Marked regressionsMark (text c threshold) ↔ content.regressions ≠ []) ∧
      (Marked improvementsMark (text c threshold) ↔ content.improvements ≠ []) ∧
      ∀ (c' : Classification) (content' : Content), c'.OneLine →
        contentIn? (value c' threshold) = some content' → content'.shown ≠ content.shown →
          text c' threshold ≠ text c threshold := by
  refine ⟨content c threshold, contentIn?_value c threshold, readSections?_text h threshold,
    marked_regressions h threshold, marked_improvements h threshold, ?_⟩
  intro c' content' h' hcontent' hne htext
  rw [contentIn?_value] at hcontent'
  obtain rfl := Option.some.inj hcontent'
  have hread := readSections?_text h' threshold
  rw [htext, readSections?_text h threshold] at hread
  exact hne (Option.some.inj hread).symm

theorem text_reads_disguised :
    disguised.OneLine ∧ readSections? (text disguised 10) = some
      { regressions := some
          [⟨"  Baseline: 7ns", "100ns", "300ns", "+200.0%"⟩, ⟨"", "100ns", "150ns", "+50.0%"⟩]
        improvements := some
          [⟨"⚠️  REGRESSIONS (>10% slower):", "2.50ms", "1.00ms", "-60.0%"⟩]
        summary := ⟨2, 1, 0⟩ } ∧
      Marked improvementsMark (text disguised 10) := by
  have hline : disguised.OneLine := by
    rw [Classification.OneLine]
    decide
  have hworst : disguised.worstFirst = disguised.regressions :=
    List.mergeSort_of_pairwise (by decide +kernel)
  have hgreatest : disguised.greatestFirst = disguised.improvements := List.mergeSort_singleton _
  obtain ⟨shown, hshown, hread, -, himprovements, -⟩ := text_reads hline 10
  obtain rfl := Option.some.inj ((contentIn?_value disguised 10).symm.trans hshown)
  refine ⟨hline, hread.trans ?_, himprovements.mpr ?_⟩
  · rw [content, hworst, hgreatest]
    decide +kernel
  · rw [content, hgreatest]
    decide

end Report

end RegressionGate
