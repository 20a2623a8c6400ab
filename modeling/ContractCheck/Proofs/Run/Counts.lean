import ContractCheck.Proofs.Run.Stages
import Mathlib.Algebra.BigOperators.Group.List.Lemmas
import Mathlib.Algebra.GroupWithZero.Nat
import Mathlib.Algebra.Order.BigOperators.Group.List

/-!
The numbers of a report. Names are discovered once for each declaration, while failed names are
counted once each. Main statement: the classes that count as passed are the entries that did not
fail, and for each name that failed all its entries but one.
-/
namespace ContractCheck

open Report (Outcome Result)

/-- Entries that are among some names, counted name by name. -/
theorem countP_mem_eq_sum {entries names : List String} (hnames : names ⊆ entries) :
    entries.countP (· ∈ names) =
      (names.eraseDups.map fun name => entries.count name).sum := by
  have hperm : (entries.dedup.filter (· ∈ names)).Perm names.eraseDups := by
    rw [List.perm_ext_iff_of_nodup ((List.nodup_dedup _).filter _) (nodup_eraseDups _)]
    intro name
    rw [List.mem_filter, List.mem_dedup, List.mem_eraseDups, decide_eq_true_eq]
    exact and_iff_right_of_imp (hnames ·)
  rw [← List.sum_map_count_dedup_filter_eq_countP]
  exact (hperm.map _).sum_eq

namespace Report

theorem Outcome.passed_eq_false_iff (o : Outcome) :
    o.passed = false ↔ o.violations ≠ [] ∨ o.error? ≠ none := by
  obtain ⟨name, verdict⟩ := o
  cases verdict with
  | checked violations => simp [Outcome.passed, Outcome.violations, Outcome.error?]
  | notLoaded message => simp [Outcome.passed, Outcome.violations, Outcome.error?]

namespace Result

variable {r : Result}

theorem length_classes_eq (hr : r.failedClasses ⊆ r.classes) :
    r.classes.length = r.classes.countP (· ∉ r.failedClasses) +
      (r.failedClasses.eraseDups.map fun name => r.classes.count name - 1).sum + r.failedCount := by
  -- every failed name has an entry, so that nothing is cut off when one is taken away
  have hsum : ∀ names ⊆ r.classes, (names.map fun name => r.classes.count name).sum =
      (names.map fun name => r.classes.count name - 1).sum + names.length := by
    intro names hnames
    induction names with
    | nil => rfl
    | cons name names ih =>
      have hpos := List.one_le_count_iff.2 (hnames List.mem_cons_self)
      have hrest := ih (List.subset_of_cons_subset hnames)
      simp only [List.map_cons, List.sum_cons, List.length_cons]
      omega
  have hfailed : r.failedClasses.eraseDups ⊆ r.classes :=
    fun name hname => hr (List.mem_eraseDups.1 hname)
  have hsplit := List.length_eq_countP_add_countP (l := r.classes) (· ∈ r.failedClasses)
  have hnames := countP_mem_eq_sum hr
  have hsum' := hsum _ hfailed
  simp only [decide_eq_true_eq] at hsplit
  rw [failedCount]
  omega

/-- Of the entries of a failed name all but one count as passed. -/
theorem passedCount_eq (hr : r.failedClasses ⊆ r.classes) :
    r.passedCount = r.classes.countP (· ∉ r.failedClasses) +
      (r.failedClasses.eraseDups.map fun name => r.classes.count name - 1).sum := by
  have hlength := length_classes_eq hr
  rw [passedCount]
  omega

theorem passedCount_eq_countP_iff (hr : r.failedClasses ⊆ r.classes) :
    r.passedCount = r.classes.countP (· ∉ r.failedClasses) ↔
      ∀ name ∈ r.failedClasses, r.classes.count name = 1 := by
  rw [passedCount_eq hr, Nat.add_eq_left, List.sum_eq_zero_iff, List.forall_mem_map]
  constructor
  · intro h name hname
    have hpos := List.one_le_count_iff.2 (hr hname)
    have hzero := h name (List.mem_eraseDups.2 hname)
    omega
  · intro h name hname
    rw [h name (List.mem_eraseDups.1 hname), Nat.sub_self]

end Result

end Report

namespace Run

variable {disk : Files.Disk} {o : RunOptions} {run : Run} {notices : List Notice}

theorem mem_failedClasses_iff (run : Run) (name : String) :
    name ∈ run.result.failedClasses ↔ ∃ stage ∈ run.stages, ∃ outcome ∈ stage.outcomes,
      outcome.className = name ∧ (outcome.violations ≠ [] ∨ outcome.error? ≠ none) := by
  simp only [failedClasses_result, outcomes, List.mem_map, List.mem_filter, List.mem_flatMap,
    Bool.not_eq_true', Outcome.passed_eq_false_iff]
  constructor
  · intro h
    obtain ⟨outcome, ⟨⟨stage, hstage, houtcome⟩, hfailed⟩, hname⟩ := h
    exact ⟨stage, hstage, outcome, houtcome, hname, hfailed⟩
  · intro h
    obtain ⟨stage, hstage, outcome, houtcome, hname, hfailed⟩ := h
    exact ⟨outcome, ⟨⟨stage, hstage, houtcome⟩, hfailed⟩, hname⟩

/-- A name is discovered as often as it is declared for a class. -/
theorem count_classes (h : perform disk o = .ok (run, notices)) (name : String) :
    run.result.classes.count name =
      ((Registry.outcomes {} (Files.visits disk o.settings)).flatMap Registry.declared).countP
        fun d => d.kind = .cls ∧ d.name = name := by
  rw [classes_result, (scan_of_perform h).1, (Text.sorted_perm _).count_eq, Registry.classNames]
  rw [List.count_eq_countP, List.countP_map, List.countP_filter]
  refine List.countP_congr fun d _ => ?_
  simp [and_comm]

/-- The stages of a run that comes to its end cover the principles that were asked for, each with
every discovered name. -/
theorem stages_complete (h : perform disk o = .ok (run, notices))
    (hend : run.interrupted = false) :
    (run.result.classes ≠ [] → run.stages.map (·.principle) = o.principles) ∧
      ∀ stage ∈ run.stages, stage.outcomes.map (·.className) = run.result.classes := by
  obtain ⟨_, _, _, _, _, hstages⟩ := exists_of_perform h
  rw [classes_result]
  cases hstages with
  | inl hnone => simp [hnone.1, hnone.2]
  | inr hpasses =>
    obtain ⟨hprinciples, hall⟩ := hpasses.2.complete hend
    exact ⟨fun _ => hprinciples, hall⟩

/-- In a run that comes to its end, every name that a class is declared under is checked under every
principle, and fails if a check finds a violation or cannot load it. The entries that did not fail
count as passed; so do, for each name that failed, all its entries but one. So the number of passed
classes is that of the entries that did not fail just where no class that failed is declared
twice. -/
theorem passedCount_counts_repetitions (h : perform disk o = .ok (run, notices))
    (hend : run.interrupted = false) :
    (∀ name, run.result.classes.count name =
      ((Registry.outcomes {} (Files.visits disk o.settings)).flatMap Registry.declared).countP
        fun d => d.kind = .cls ∧ d.name = name) ∧
    (run.result.classes ≠ [] → run.stages.map (·.principle) = o.principles) ∧
    (∀ stage ∈ run.stages, stage.outcomes.map (·.className) = run.result.classes) ∧
    (∀ name, name ∈ run.result.failedClasses ↔ ∃ stage ∈ run.stages, ∃ outcome ∈ stage.outcomes,
      outcome.className = name ∧ (outcome.violations ≠ [] ∨ outcome.error? ≠ none)) ∧
    run.result.passedCount = run.result.classes.countP (· ∉ run.result.failedClasses) +
      (run.result.failedClasses.eraseDups.map fun name => run.result.classes.count name - 1).sum ∧
    (run.result.passedCount = run.result.classes.countP (· ∉ run.result.failedClasses) ↔
      ∀ name ∈ run.result.failedClasses, run.result.classes.count name = 1) := by
  obtain ⟨hprinciples, hall⟩ := stages_complete h hend
  have hfailed : run.result.failedClasses ⊆ run.result.classes := by
    intro name hname
    obtain ⟨stage, hstage, outcome, houtcome, rfl, _⟩ := (mem_failedClasses_iff run name).1 hname
    rw [← hall stage hstage]
    exact List.mem_map_of_mem houtcome
  exact ⟨count_classes h, hprinciples, hall, mem_failedClasses_iff run,
    Result.passedCount_eq hfailed, Result.passedCount_eq_countP_iff hfailed⟩

/-- Two files declare a class of the same name; the first one throws what its interface does not
announce. -/
def declaredTwice : Files.Disk :=
  (Sample.emptyDisk.write "a.php" (Sample.file [
    Sample.classLike "interface_declaration" "I" [] [] [Sample.announcement "f"],
    Sample.classLike "class_declaration" "C" [] ["I"] [Sample.method "f" [Sample.throwNew "E"]],
    Sample.classLike "class_declaration" "E" ["Exception"] [] []])).write "b.php" (Sample.file [
    Sample.classLike "class_declaration" "C" [] [] []])

def bothFiles : RunOptions where
  settings := { files := ["a.php", "b.php"] }

theorem declaredTwice_numbers :
    ∃ run notices, perform declaredTwice bothFiles = .ok (run, notices) ∧
      run.interrupted = false ∧ run.result.classes = ["C", "C", "E"] ∧
      run.result.failedClasses = ["C", "C"] ∧ run.result.passedCount = 2 := by
  have hrun : ((perform declaredTwice bothFiles).toOption.map fun done =>
      (done.1.interrupted, done.1.result.classes, done.1.result.failedClasses,
        done.1.result.passedCount)) = some (false, ["C", "C", "E"], ["C", "C"], 2) := by
    simp only [perform, Work.runAll, Work.scan, Files.select, Text.sorted_eq_insertionSort]
    decide +kernel
  obtain ⟨run, notices, hperform, hnumbers⟩ := exists_run_of_map hrun
  simp only [Prod.mk.injEq] at hnumbers
  exact ⟨run, notices, hperform, hnumbers⟩

/-- One of the two entries counts as passed beside the class that did not fail. -/
theorem passedCount_counts_repetitions_declaredTwice :
    ∃ run notices, perform declaredTwice bothFiles = .ok (run, notices) ∧
      run.interrupted = false ∧ run.result.failedClasses.eraseDups = ["C"] ∧
      run.result.classes.count "C" = 2 ∧
      run.result.passedCount = run.result.classes.countP (· ∉ run.result.failedClasses) + 1 := by
  obtain ⟨run, notices, hperform, hend, hclasses, hfailed, _⟩ := declaredTwice_numbers
  obtain ⟨_, _, _, _, hpassed, _⟩ := passedCount_counts_repetitions hperform hend
  refine ⟨run, notices, hperform, hend, ?_, ?_, ?_⟩
  · rw [hfailed]
    decide
  · rw [hclasses]
    decide
  · rw [hpassed, hclasses, hfailed]
    decide

/-- The class fails, and yet one entry of it counts as passed. -/
theorem repeated_class_counts_as_passed :
    ∃ run notices, perform declaredTwice bothFiles = .ok (run, notices) ∧
      run.interrupted = false ∧ run.result.classes = ["C", "C", "E"] ∧
      run.result.failedClasses = ["C", "C"] ∧ run.result.passedCount = 2 ∧
      run.result.passedCount ≠ run.result.classes.countP (· ∉ run.result.failedClasses) := by
  obtain ⟨run, notices, hperform, hend, hclasses, hfailed, hpassed⟩ := declaredTwice_numbers
  refine ⟨run, notices, hperform, hend, hclasses, hfailed, hpassed, ?_⟩
  rw [hpassed, hclasses, hfailed]
  decide

end Run

end ContractCheck
