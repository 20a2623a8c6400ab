import ContractCheck.CommandLine.Execute
import ContractCheck.Proofs.Run.PlainNames
import ContractCheck.Proofs.Run.Stages
import ContractCheck.Proofs.Session.Order
import ContractCheck.Proofs.Session.TraitCycles

/-!
The verdicts of a run. The checks leave the registry alone, so a class that was discovered is found
when its turn comes. Main statement: every class is loaded, the errors of a run are those of its
files, and a class fails just where a violation is reported.
-/
namespace ContractCheck

open Report (Outcome Result RunError)

namespace Work

theorem failsOnCycles_applySegregation (cls interface : ClassDecl) (rule : SegregationRule × Nat) :
    FailsOnCycles (applySegregation cls interface rule) := by
  obtain ⟨rule, place⟩ := rule
  refine failsOnCycles_bind (failsOnCycles_lift get) fun s => ?_
  cases rule with
  | stubs => exact failsOnCycles_attempt _ _
  | unfinished => exact failsOnCycles_attempt _ _
  | fatInterface =>
    refine failsOnCycles_bind (failsOnCycles_attempt _ _) fun found => ?_
    exact failsOnCycles_bind (failsOnCycles_lift _) fun _ => failsOnCycles_lift (pure found.1)

theorem traitCycle_of_checkSegregation {s : Session} {name : String} {cls : ClassDecl}
    (hcls : s.registry.class? name = some cls) {fault : CheckFault}
    (h : ((checkSegregation name).run.run s).1 = .error fault) : fault = .traitCycle := by
  have hload : (load name).run.run s = (.ok cls, s) := load_registered hcls
  rw [checkSegregation, ExceptT.run_bind, StateT.run_bind, hload] at h
  refine failsOnCycles_bind (failsOnCycles_lift _) (fun interfaces => ?_) s fault h
  refine failsOnCycles_bind (failsOnCycles_lift get) fun t => ?_
  refine failsOnCycles_bind (failsOnCycles_gather (fun i =>
    failsOnCycles_gather (failsOnCycles_applySegregation cls i) _) _) fun violations => ?_
  exact failsOnCycles_bind (failsOnCycles_lift _) fun _ => failsOnCycles_lift (pure violations)

/-- A registered class is found under each principle. -/
theorem traitCycle_of_check (principle : Principle) {s : Session} {name : String} {cls : ClassDecl}
    (hcls : s.registry.class? name = some cls) {fault : CheckFault}
    (h : ((principle.check name).run.run s).1 = .error fault) : fault = .traitCycle := by
  cases principle with
  | substitution => exact traitCycle_of_checkSubstitution hcls h
  | segregation => exact traitCycle_of_checkSegregation hcls h

def Over (r : Registry) (rules : RuleList SubstitutionRule) (s : Session) : Prop :=
  MeasuresAlike r r rules s s

section

variable {r : Registry} {rules : RuleList SubstitutionRule} {s t : Session}

theorem Over.registry (hs : Over r rules s) : s.registry = r :=
  hs.mirrors.registry.1

/-- A session that has not been asked anything. -/
theorem over_of_unasked (hs : s.Unasked) : Over s.registry s.substitution s := by
  refine ⟨mirrors_of_upToDate (.refl _) ⟨rfl, rfl⟩ ⟨rfl, rfl⟩ ?_ ?_, rfl, rfl, rfl⟩
  all_goals exact fun m analyst _ => hs.upToDate m analyst

/-- A scan changes what is registered, and nothing that would have to be brought up to date. -/
theorem over_scan (hs : s.Unasked) (settings : Settings) :
    Over (s.registry.run (Files.visits s.disk settings)) s.substitution
      ((scan settings).run s).2 := by
  obtain ⟨after, hscan⟩ := run_scan settings s
  rw [hscan]
  have hunasked : Session.Unasked { s with
      registry := s.registry.run (Files.visits s.disk settings), notices := after } :=
    ⟨hs.ancestors, hs.pickedAncestors, hs.traces⟩
  exact over_of_unasked hunasked

theorem Over.check (hr : r.WellKeyed) (hs : Over r rules s) (principle : Principle)
    (name : String) : Over r rules ((principle.check name).run.run s).2 := by
  have halike := Registry.Alike.refl r
  cases principle with
  | substitution => exact ((kept_measuresAlike hr halike).checkSubstitution name s s hs).2.2
  | segregation => exact (agree_checkSegregation hr halike name s s hs).2.2

/-- Checks of registered classes load them all. -/
theorem Checks.loaded (hr : r.WellKeyed) {principle : Principle} {names : List String}
    {outcomes : List Outcome} {interrupted : Bool}
    (hnames : ∀ name ∈ names, ∃ cls, r.class? name = some cls)
    (h : Checks principle.check names s outcomes interrupted t) (hs : Over r rules s) :
    Over r rules t ∧ ∀ o ∈ outcomes, ∃ violations, o.verdict = .checked violations := by
  induction h with
  | nil => exact ⟨hs, by simp⟩
  | @cycle name _ s t hname =>
    have ht := hs.check hr principle name
    rw [hname] at ht
    exact ⟨ht, by simp⟩
  | @unknown name _ _ s _ _ _ _ hname _ _ =>
    obtain ⟨cls, hcls⟩ := hnames name List.mem_cons_self
    rw [← hs.registry] at hcls
    have hfault := traitCycle_of_check principle hcls (congrArg Prod.fst hname)
    cases hfault
  | @checked name violations _ s t _ _ _ hname _ ih =>
    have ht := hs.check hr principle name
    rw [hname] at ht
    obtain ⟨hu, hrest⟩ := ih (fun n hn => hnames n (List.mem_cons_of_mem _ hn)) ht
    exact ⟨hu, List.forall_mem_cons.2 ⟨⟨violations, rfl⟩, hrest⟩⟩

theorem Passes.loaded (hr : r.WellKeyed) {classes : List String} {principles : List Principle}
    {stages : List Stage} (hclasses : ∀ name ∈ classes, ∃ cls, r.class? name = some cls)
    (h : Passes classes principles s stages t) (hs : Over r rules s) :
    ∀ stage ∈ stages, ∀ o ∈ stage.outcomes, ∃ violations, o.verdict = .checked violations := by
  induction h with
  | nil => simp
  | stop hchecks =>
    intro stage hstage
    obtain rfl := List.mem_singleton.1 hstage
    exact (hchecks.loaded hr hclasses hs).2
  | next hchecks _ ih =>
    obtain ⟨ht, hfirst⟩ := hchecks.loaded hr hclasses hs
    exact List.forall_mem_cons.2 ⟨hfirst, ih ht⟩

end

end Work

namespace Run

variable {disk : Files.Disk} {o : RunOptions} {run : Run} {notices : List Notice}

/-- Each discovered class is registered. -/
theorem exists_class?_of_perform (hplain : disk.PlainNames o.settings)
    (h : perform disk o = .ok (run, notices)) :
    ∀ name ∈ run.scan.classes,
      ∃ cls, (Registry.run {} (Files.visits disk o.settings)).class? name = some cls := by
  intro name hname
  rw [(scan_of_perform h).1, (Text.sorted_perm _).mem_iff] at hname
  exact Registry.exists_class?_of_discovered hplain hname

/-- Each check loads its class. -/
theorem loaded_of_perform (hplain : disk.PlainNames o.settings)
    (h : perform disk o = .ok (run, notices)) :
    ∀ stage ∈ run.stages, ∀ outcome ∈ stage.outcomes,
      ∃ violations, outcome.verdict = .checked violations := by
  have hclasses := exists_class?_of_perform hplain h
  obtain ⟨s, t, u, hs, hscan, hstages⟩ := exists_of_perform h
  cases hstages with
  | inl hnone =>
    rw [hnone.2]
    simp
  | inr hpasses =>
    obtain ⟨hunasked, hregistry, rfl⟩ := Session.unasked_start hs
    have hover := Work.over_scan hunasked o.settings
    rw [hscan, hregistry] at hover
    have hwell := (Registry.indexed_run .empty (Files.visits s.disk o.settings)).wellKeyed
    exact hpasses.2.loaded hwell hclasses hover

section

variable (hloaded : ∀ outcome ∈ run.outcomes, ∃ violations, outcome.verdict = .checked violations)

include hloaded

/-- Where all classes are loaded, a class fails just where a violation is reported. -/
theorem failedCount_pos_iff : 0 < run.result.failedCount ↔ run.result.violations ≠ [] := by
  have hviolations : run.result.violations = run.outcomes.flatMap (·.violations) := by
    rw [result_eq]
    exact List.nil_append _
  have hpassed : ∀ outcome ∈ run.outcomes, outcome.passed = true ↔ outcome.violations = [] := by
    intro outcome houtcome
    obtain ⟨violations, hverdict⟩ := hloaded outcome houtcome
    rw [Outcome.passed, Outcome.violations, hverdict]
    exact List.isEmpty_iff
  have hdups : run.result.failedClasses.eraseDups = [] ↔ run.result.failedClasses = [] := by
    simp only [List.eq_nil_iff_forall_not_mem, List.mem_eraseDups]
  rw [Result.failedCount, List.length_pos_iff, not_iff_not, hdups, failedClasses_result,
    List.map_eq_nil_iff, List.filter_eq_nil_iff, hviolations, List.flatMap_eq_nil_iff]
  refine forall₂_congr fun outcome houtcome => ?_
  rw [← hpassed outcome houtcome]
  simp

theorem errors_result :
    run.result.errors = run.scan.failures.map fun failure => .file failure.1 failure.2 := by
  have hnone : run.outcomes.filterMap (·.error?) = [] := by
    rw [List.filterMap_eq_nil_iff]
    intro outcome houtcome
    obtain ⟨violations, hverdict⟩ := hloaded outcome houtcome
    rw [Outcome.error?, hverdict]
  rw [result_eq, Result.add, hnone]
  exact List.append_nil _

end

theorem exitCode_runChecks {request : CommandLine.Request} {settings : Settings}
    (h : perform disk (request.options settings) = .ok (run, notices))
    (hend : run.interrupted = false) :
    (request.runChecks disk settings).exitCode = 1 ↔ 0 < run.result.failedCount := by
  rw [CommandLine.Request.runChecks, h]
  simp [hend, Nat.pos_iff_ne_zero]

/-- In every run each discovered class is registered and each check loads its class, so that no class
is missing from the results. The errors are those of the selected files that could not be indexed,
one for each. A class fails just where a violation is reported, and then the exit code is 1, as long
as the run comes to its end. -/
theorem verdicts_of_perform (hplain : disk.PlainNames o.settings)
    (h : perform disk o = .ok (run, notices)) :
    (∀ name ∈ run.result.classes,
      ∃ cls, (Registry.run {} (Files.visits disk o.settings)).class? name = some cls) ∧
    (∀ stage ∈ run.stages, ∀ outcome ∈ stage.outcomes,
      ∃ violations, outcome.verdict = .checked violations) ∧
    (Files.select disk o.settings).Nodup ∧
    run.result.errors = (Registry.failures (Files.select disk o.settings)
      (Registry.outcomes {} (Files.visits disk o.settings))).map
        (fun failure => .file failure.1 failure.2) ∧
    (0 < run.result.failedCount ↔ run.result.violations ≠ []) ∧
    ∀ (request : CommandLine.Request) settings, request.options settings = o →
      run.interrupted = false →
        ((request.runChecks disk settings).exitCode = 1 ↔ run.result.violations ≠ []) := by
  have hclasses := exists_class?_of_perform hplain h
  rw [← classes_result] at hclasses
  have hloaded := loaded_of_perform hplain h
  have houtcomes : ∀ outcome ∈ run.outcomes, ∃ violations, outcome.verdict = .checked violations := by
    intro outcome houtcome
    obtain ⟨stage, hstage, houtcome⟩ := List.mem_flatMap.1 houtcome
    exact hloaded stage hstage outcome houtcome
  have hfailed := failedCount_pos_iff houtcomes
  refine ⟨hclasses, hloaded, Files.nodup_select _ _, ?_, hfailed, ?_⟩
  · rw [errors_result houtcomes, (scan_of_perform h).2]
  · rintro request settings rfl hend
    rw [exitCode_runChecks h hend, hfailed]

/-- A class that breaks its contract, a second declaration of it in other letter case, and a file with
a syntax error. -/
def redeclared : Files.Disk :=
  ((Sample.emptyDisk.write "a.php" (Sample.file [
    Sample.classLike "interface_declaration" "I" [] [] [Sample.announcement "f"],
    Sample.classLike "class_declaration" "C" [] ["I"] [Sample.method "f" [Sample.throwNew "E"]],
    Sample.classLike "class_declaration" "E" ["Exception"] [] []])).write "b.php" (Sample.file [
    Sample.classLike "class_declaration" "c" [] [] []])).write "broken.php" { parse := ⟨true, []⟩ }

def allFiles : CommandLine.Request × Settings :=
  (⟨none, none, none, false, false, false, false⟩, { files := ["a.php", "b.php", "broken.php"] })

theorem redeclared_plainNames : redeclared.PlainNames allFiles.2 := by
  simp only [Files.Disk.PlainNames, Files.select, Text.sorted_eq_insertionSort]
  decide +kernel

/-- Both spellings are found and fail, and the file is the only error. -/
theorem verdicts_of_perform_redeclared :
    redeclared.PlainNames allFiles.2 ∧
    ∃ run notices, perform redeclared (allFiles.1.options allFiles.2) = .ok (run, notices) ∧
      run.interrupted = false ∧ run.result.classes = ["C", "E", "c"] ∧
      run.result.failedClasses = ["C", "c"] ∧ run.result.violations ≠ [] ∧
      run.result.errors = [.file "/broken.php" "/broken.php: syntax error near line 1"] ∧
      (allFiles.1.runChecks redeclared allFiles.2).exitCode = 1 := by
  have hrun : ((perform redeclared (allFiles.1.options allFiles.2)).toOption.map fun done =>
      (done.1.interrupted, done.1.result.classes, done.1.result.failedClasses,
        done.1.scan.failures)) = some (false, ["C", "E", "c"], ["C", "c"],
          [("/broken.php", "/broken.php: syntax error near line 1")]) := by
    simp only [perform, Work.runAll, Work.scan, Files.select, Text.sorted_eq_insertionSort]
    decide +kernel
  obtain ⟨run, notices, hperform, hnumbers⟩ := exists_run_of_map hrun
  simp only [Prod.mk.injEq] at hnumbers
  obtain ⟨hend, hclasses, hfailed, hfailures⟩ := hnumbers
  obtain ⟨_, _, _, herrors, hviolations, hexit⟩ :=
    verdicts_of_perform redeclared_plainNames hperform
  have hpos : 0 < run.result.failedCount := by
    rw [Result.failedCount, hfailed]
    decide
  refine ⟨redeclared_plainNames, run, notices, hperform, hend, hclasses, hfailed,
    hviolations.1 hpos, ?_, (hexit _ _ rfl hend).2 (hviolations.1 hpos)⟩
  rw [herrors, ← (scan_of_perform hperform).2, hfailures]
  rfl

end Run

end ContractCheck
