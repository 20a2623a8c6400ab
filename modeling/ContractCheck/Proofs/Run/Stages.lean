import ContractCheck.Run
import ContractCheck.Proofs.Run.Scan
import ContractCheck.Proofs.Session.Queries

/-!
The stages of a run. Checks are made one after the other, and a cycle of traits ends them all. Main
statement: a run makes a scan and then a pass for each principle, and its result sums up the outcomes
of all passes.
-/
namespace ContractCheck

open Report (Outcome Result RunError)

def Sample.file (declarations : List Syntax.Node) : Files.File where
  bytes := (print (program declarations)).toUTF8.toList
  parse := ⟨false, rows 0 (program declarations)⟩

namespace Work

inductive Checks (check : String → Attempt (List Violation)) :
    List String → Session → List Outcome → Bool → Session → Prop
  | nil {s : Session} : Checks check [] s [] false s
  | cycle {name : String} {rest : List String} {s t : Session}
      (hname : (check name).run.run s = (.error .traitCycle, t)) :
      Checks check (name :: rest) s [] true t
  | unknown {name unknown : String} {rest : List String} {s t u : Session}
      {outcomes : List Outcome} {interrupted : Bool}
      (hname : (check name).run.run s = (.error (.unknownClass unknown), t))
      (hrest : Checks check rest
        (t.note (.classFailed name (CheckFault.unknownClass unknown).message)) outcomes interrupted u) :
      Checks check (name :: rest) s
        (⟨name, .notLoaded (CheckFault.unknownClass unknown).message⟩ :: outcomes) interrupted u
  | checked {name : String} {violations : List Violation} {rest : List String} {s t u : Session}
      {outcomes : List Outcome} {interrupted : Bool}
      (hname : (check name).run.run s = (.ok violations, t))
      (hrest : Checks check rest t outcomes interrupted u) :
      Checks check (name :: rest) s (⟨name, .checked violations⟩ :: outcomes) interrupted u

theorem checks_checkAll (check : String → Attempt (List Violation)) (names : List String)
    (s : Session) : Checks check names s ((checkAll check names).run s).1.1
      ((checkAll check names).run s).1.2 ((checkAll check names).run s).2 := by
  induction names generalizing s with
  | nil => exact .nil
  | cons name rest ih =>
    cases hname : (check name).run.run s with
    | mk result t =>
      rw [checkAll, StateT.run_bind, hname]
      cases result with
      | ok violations => exact .checked hname (ih t)
      | error fault =>
        cases fault with
        | traitCycle => exact .cycle hname
        | unknownClass unknown => exact .unknown hname (ih _)

/-- Checks that come to their end give an outcome for each class. -/
theorem Checks.map_className {check : String → Attempt (List Violation)} {names : List String}
    {s t : Session} {outcomes : List Outcome} (h : Checks check names s outcomes false t) :
    outcomes.map (·.className) = names := by
  generalize hend : false = interrupted at h
  induction h with
  | nil => rfl
  | cycle _ => cases hend
  | unknown _ _ ih => exact congrArg (List.cons _) (ih hend)
  | checked _ _ ih => exact congrArg (List.cons _) (ih hend)

inductive Passes (classes : List String) :
    List Principle → Session → List Stage → Session → Prop
  | nil {s : Session} : Passes classes [] s [] s
  | stop {principle : Principle} {rest : List Principle} {s t : Session} {outcomes : List Outcome}
      (hchecks : Checks principle.check classes s outcomes true t) :
      Passes classes (principle :: rest) s [⟨principle, outcomes, true⟩] t
  | next {principle : Principle} {rest : List Principle} {s t u : Session}
      {outcomes : List Outcome} {stages : List Stage}
      (hchecks : Checks principle.check classes s outcomes false t)
      (hrest : Passes classes rest t stages u) :
      Passes classes (principle :: rest) s (⟨principle, outcomes, false⟩ :: stages) u

theorem passes_stages (classes : List String) (principles : List Principle) (s : Session) :
    Passes classes principles s ((stages classes principles).run s).1
      ((stages classes principles).run s).2 := by
  induction principles generalizing s with
  | nil => exact .nil
  | cons principle rest ih =>
    have hchecks := checks_checkAll principle.check classes s
    cases hrun : (checkAll principle.check classes).run s with
    | mk result t =>
      obtain ⟨outcomes, interrupted⟩ := result
      rw [hrun] at hchecks
      have hstage : (stage classes principle).run s = (⟨principle, outcomes, interrupted⟩, t) := by
        rw [stage, StateT.run_bind, hrun]
        rfl
      rw [stages, StateT.run_bind, hstage]
      cases interrupted with
      | true => exact .stop hchecks
      | false => exact .next hchecks (ih t)

/-- Passes that come to their end cover all principles and classes. -/
theorem Passes.complete {classes : List String} {principles : List Principle} {s t : Session}
    {stages : List Stage} (h : Passes classes principles s stages t)
    (hend : stages.any (·.interrupted) = false) :
    stages.map (·.principle) = principles ∧
      ∀ stage ∈ stages, stage.outcomes.map (·.className) = classes := by
  induction h with
  | nil => exact ⟨rfl, by simp⟩
  | stop _ => cases hend
  | next hchecks _ ih =>
    rw [List.any_cons, Bool.false_or] at hend
    obtain ⟨hprinciples, hstages⟩ := ih hend
    rw [List.map_cons, hprinciples, List.forall_mem_cons]
    exact ⟨rfl, hchecks.map_className, hstages⟩

theorem fst_runAll (o : RunOptions) (s : Session) : ((runAll o).run s).1 =
    if ((scan o.settings).run s).1.classes = [] then { scan := ((scan o.settings).run s).1 }
    else
      { scan := ((scan o.settings).run s).1
        stages := ((stages ((scan o.settings).run s).1.classes o.principles).run
          ((scan o.settings).run s).2).1 } := by
  cases hscan : (scan o.settings).run s with
  | mk scan t =>
    rw [runAll, StateT.run_bind, hscan]
    cases scan with
    | mk classes failures =>
      cases classes with
      | nil => rfl
      | cons name rest => rfl

end Work

theorem Report.Result.add_add (r : Result) (first more : List Outcome) :
    (r.add first).add more = r.add (first ++ more) := by
  simp [Result.add]

namespace Run

def outcomes (run : Run) : List Outcome :=
  run.stages.flatMap (·.outcomes)

/-- The outcomes of all stages are added to what the scan gave. -/
theorem result_eq (run : Run) : run.result = Result.add
    { classes := run.scan.classes
      errors := run.scan.failures.map fun failure => .file failure.1 failure.2 } run.outcomes := by
  have hfold : ∀ (stages : List Stage) (r : Result),
      stages.foldl (fun r stage => r.add stage.outcomes) r = r.add (stages.flatMap (·.outcomes)) := by
    intro stages
    induction stages with
    | nil =>
      intro r
      simp [Result.add]
    | cons stage stages ih =>
      intro r
      rw [List.foldl_cons, ih, Result.add_add, List.flatMap_cons]
  exact hfold run.stages _

theorem classes_result (run : Run) : run.result.classes = run.scan.classes := by
  rw [result_eq]
  rfl

theorem failedClasses_result (run : Run) :
    run.result.failedClasses = (run.outcomes.filter (!·.passed)).map (·.className) := by
  rw [result_eq]
  exact List.nil_append _

/-- What a run is made of. Without classes there is no stage. -/
theorem exists_of_perform {disk : Files.Disk} {o : RunOptions} {run : Run} {notices : List Notice}
    (h : perform disk o = .ok (run, notices)) :
    ∃ s t u, Session.start disk o.effectiveThreshold none none = .ok s ∧
      (Work.scan o.settings).run s = (run.scan, t) ∧
      (run.scan.classes = [] ∧ run.stages = [] ∨
        run.scan.classes ≠ [] ∧
          Work.Passes run.scan.classes o.principles t run.stages u) := by
  rw [perform] at h
  cases hs : Session.start disk o.effectiveThreshold none none with
  | error fault =>
    rw [hs] at h
    cases h
  | ok s =>
    rw [hs] at h
    have hrun : ((Work.runAll o).run s).1 = run := congrArg Prod.fst (Except.ok.inj h)
    rw [Work.fst_runAll] at hrun
    by_cases hclasses : ((Work.scan o.settings).run s).1.classes = []
    · rw [if_pos hclasses] at hrun
      subst hrun
      exact ⟨s, _, s, rfl, rfl, .inl ⟨hclasses, rfl⟩⟩
    · rw [if_neg hclasses] at hrun
      subst hrun
      exact ⟨s, _, _, rfl, rfl, .inr ⟨hclasses, Work.passes_stages _ _ _⟩⟩

/-- A run of which something is known has been made. -/
theorem exists_run_of_map {α : Type} {disk : Files.Disk} {o : RunOptions}
    {view : Run × List Notice → α} {a : α} (h : (perform disk o).toOption.map view = some a) :
    ∃ run notices, perform disk o = .ok (run, notices) ∧ view (run, notices) = a := by
  cases hperform : perform disk o with
  | error fault =>
    rw [hperform] at h
    cases h
  | ok done =>
    rw [hperform] at h
    exact ⟨done.1, done.2, rfl, Option.some.inj h⟩

/-- The scan of a run starts without any files. -/
theorem scan_of_perform {disk : Files.Disk} {o : RunOptions} {run : Run} {notices : List Notice}
    (h : perform disk o = .ok (run, notices)) :
    run.scan.classes = Text.sorted (Registry.classNames
      ((Registry.outcomes {} (Files.visits disk o.settings)).flatMap Registry.declared)) ∧
    run.scan.failures = Registry.failures (Files.select disk o.settings)
      (Registry.outcomes {} (Files.visits disk o.settings)) := by
  obtain ⟨s, _, _, hs, hscan, _⟩ := exists_of_perform h
  obtain ⟨_, hregistry, rfl⟩ := Session.unasked_start hs
  obtain ⟨_, hrun⟩ := Work.run_scan o.settings s
  rw [hregistry] at hrun
  have hvalue := congrArg Prod.fst (hscan.symm.trans hrun)
  exact ⟨congrArg Scan.classes hvalue, congrArg Scan.failures hvalue⟩

end Run

end ContractCheck
