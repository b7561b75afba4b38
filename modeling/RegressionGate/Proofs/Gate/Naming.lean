import RegressionGate.Proofs.Gate.Report
import RegressionGate.Proofs.Text.Utf8

/-! The names of benchmarks in a report. A group may be shown with any character but the separator,
since no directory has it in its name and no malformed bytes are shown as it; so a name is divided
at its first separator into the group and the case, and tells the benchmark. -/

namespace RegressionGate

open Estimate

namespace Benchmark

/-- The benchmark of a name, which ends its group at the first separator. -/
def ofName? (name : String) : Option Benchmark :=
  match name.toList.dropWhile (· ≠ separator) with
  | [] => none
  | _ :: case =>
    some ⟨String.ofList (name.toList.takeWhile (· ≠ separator)), String.ofList case⟩

theorem toList_name (b : Benchmark) :
    b.name.toList = b.group.toList ++ separator :: b.case.toList := by
  simp [name]

theorem ofName?_name {b : Benchmark} (h : separator ∉ b.group.toList) :
    ofName? b.name = some b := by
  have hgroup : ∀ c ∈ b.group.toList, decide (c ≠ separator) := fun c hc =>
    decide_eq_true fun heq => h (heq ▸ hc)
  rw [ofName?, toList_name, List.dropWhile_append_of_pos hgroup,
    List.takeWhile_append_of_pos hgroup]
  simp

-- No directory gives a group with a separator; its name could be that of another benchmark.
example : name ⟨"a/b", "c"⟩ = name ⟨"a", "b/c"⟩ := by decide

end Benchmark

/-- Bytes without the separator are not shown with one, malformed or not. -/
theorem FileName.separator_notMem_shown (n : FileName) : Benchmark.separator ∉ n.shown.toList := by
  intro h
  rcases Utf8.eq_or_subset_of_mem_lossy h with heq | hsubset
  · exact absurd heq (by decide)
  · exact n.separator_notMem (hsubset (by decide))

theorem CaseName.ofName?_benchmark (n : CaseName) :
    Benchmark.ofName? n.benchmark.name = some n.benchmark :=
  Benchmark.ofName?_name n.group.separator_notMem_shown

variable {t t' : Tree} {s s' : Settings} {b b' : Benchmark} {c c' : Comparison}

theorem Tree.FirstMean.ofName? {root label : Path} {ns : Binary64}
    (h : t.FirstMean root label b ns) : Benchmark.ofName? b.name = some b := by
  obtain ⟨n, -, rfl, -⟩ := h
  exact n.ofName?_benchmark

theorem Tree.Compares.ofName? (h : t.Compares s b c) : Benchmark.ofName? c.name = some b := by
  obtain ⟨base, ns, hbase, -, -, -, rfl⟩ := h
  exact hbase.ofName?

/-- Entries with one name are of one benchmark, also in different runs. -/
theorem Tree.Compares.eq_of_name_eq (h : t.Compares s b c) (h' : t'.Compares s' b' c')
    (hname : c.name = c'.name) : b = b' := by
  have hsome := h.ofName?
  rw [hname, h'.ofName?] at hsome
  exact (Option.some.inj hsome).symm

theorem Corresponds.nodup_map {α β : Type} {R : α → Comparison → Prop} {cs : List Comparison}
    (h : Corresponds R cs) {f : Comparison → β}
    (hf : ∀ a c a' c', R a c → R a' c' → f c = f c' → a = a') : (cs.map f).Nodup := by
  obtain ⟨pairs, hnodup, hpairs, hcs⟩ := h
  rw [(hcs.map f).nodup_iff, List.map_map]
  refine List.pairwise_map.mpr ((List.pairwise_map.mp hnodup).imp_of_mem fun hp hq hne heq => ?_)
  exact hne (hf _ _ _ _ ((hpairs _ _).mp hp) ((hpairs _ _).mp hq) heq)

/-- Whatever bytes name the directories, the name of a loaded benchmark gives it back when it is
divided at its first separator. So the entries that a run reports have different names, and entries
with one name, of one run or of two, are of one benchmark. -/
theorem names_identify (t : Tree) (s : Settings) :
    (∀ listing root label b ns, t.Lists listing →
      (load t listing root label).estimates.get? b = some ns →
        Benchmark.ofName? b.name = some b) ∧
    (∀ r report, runGate t s = .ok r → r.report = some report →
      report = s.report (s.classification t)) ∧
    ((s.classification t).all.map Comparison.name).Nodup ∧
    (∀ c ∈ (s.classification t).all,
      ∃ b, t.Compares s b c ∧ Benchmark.ofName? c.name = some b) ∧
    ∀ b c (t' : Tree) s' b' c', t.Compares s b c → t'.Compares s' b' c' → c.name = c'.name →
      b = b' := by
  refine ⟨?_, ?_, ?_, ?_, ?_⟩
  · intro listing root label b ns hl hget
    exact ((get?_load hl).mp hget).ofName?
  · intro r report hrun hreport
    exact (report_of_runGate hrun hreport).2
  · exact (corresponds_compares t s).nodup_map fun _ _ _ _ h h' => h.eq_of_name_eq h'
  · intro c hc
    obtain ⟨b, hb⟩ := (corresponds_compares t s).mem_iff.mp hc
    exact ⟨b, hb, hb.ofName?⟩
  · intro b c t' s' b' c' h h'
    exact h.eq_of_name_eq h'

theorem names_identify_collided :
    (∃ r report, runGate collided {} = .ok r ∧ r.report = some report ∧
      report = Settings.report {} (({} : Settings).classification collided)) ∧
    ((({} : Settings).classification collided).all.map Comparison.name).Nodup ∧
    ∃ b c, collided.Compares {} b c ∧ c ∈ (({} : Settings).classification collided).all ∧
      Benchmark.ofName? b.name = some b ∧
      (∃ b', collided.Compares {} b' c ∧ Benchmark.ofName? c.name = some b') ∧
      ∀ b', collided.Compares {} b' c → b = b' := by
  let b : Benchmark := ⟨"g\uFFFD", "c"⟩
  have hs : ({} : Settings).check = .ok () := by decide +kernel
  have hbaseline : collided.FirstMean ({} : Settings).root ({} : Settings).baselineLabel b 100 := by
    decide +kernel
  have hcurrent : collided.FirstMean ({} : Settings).root ({} : Settings).currentLabel b 200 := by
    decide +kernel
  have hcompares : collided.Compares {} b ⟨b.name, 100, 200, changePercent 100 200⟩ :=
    ⟨100, 200, hbaseline, hcurrent, by decide +kernel, by decide +kernel, rfl⟩
  have hmem := (corresponds_compares collided {}).mem_iff.mpr ⟨b, hcompares⟩
  have hget := (get?_load collided.lists_list).mpr hbaseline
  obtain ⟨hload, hreport, hnodup, hname, hone⟩ := names_identify collided {}
  have hrun := runGate_measured hs ⟨b, 100, hbaseline⟩ ⟨b, 200, hcurrent⟩
  exact ⟨⟨_, _, hrun, rfl, hreport _ _ hrun rfl⟩, hnodup, b, _, hcompares, hmem,
    hload collided.list _ _ b 100 collided.lists_list hget, hname _ hmem,
    fun b' h' => hone b _ collided {} b' _ hcompares h' rfl⟩

end RegressionGate
