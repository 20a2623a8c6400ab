import ContractCheck.Session.Scan
import ContractCheck.Proofs.Lists
import ContractCheck.Proofs.Registry.Runs
import Mathlib.Data.List.Sort
import Mathlib.Data.String.Basic

/-!
Scans. The selected files are visited one after the other, on one disk. Main statement: the names to
check are those of the classes that the visits declare, the failures are the visits that fail, and
the session changes by what the visits register and by notices only.
-/
namespace ContractCheck

open Text

namespace Text

theorem sorted_perm (texts : List String) : (sorted texts).Perm texts :=
  List.mergeSort_perm texts notAfter

/-- Sorting in a form that can be evaluated. -/
theorem sorted_eq_insertionSort (texts : List String) :
    sorted texts = texts.insertionSort (· ≤ ·) := by
  have horder : notAfter = fun a b => decide (a ≤ b) := by
    funext a b
    simp [notAfter, ← not_lt]
  rw [sorted, horder, List.mergeSort_eq_insertionSort]

end Text

def Visit.files (disk : Files.Disk) (paths : List String) : List Visit :=
  paths.map fun path => ⟨disk, .file path⟩

namespace Files

theorem nodup_select (d : Disk) (s : Settings) : (select d s).Nodup := by
  rw [select, (sorted_perm _).nodup_iff]
  exact nodup_eraseDups _

def visits (d : Disk) (s : Settings) : List Visit :=
  Visit.files d (select d s)

end Files

namespace Registry

theorem outcomes_files_cons (r : Registry) (disk : Files.Disk) (path : String)
    (rest : List String) : r.outcomes (Visit.files disk (path :: rest)) =
      (r.indexFile disk path).outcome ::
        (r.indexFile disk path).registry.outcomes (Visit.files disk rest) := rfl

def classNames (ds : List ClassDecl) : List String :=
  (ds.filter (·.kind = .cls)).map (·.name)

def fault? (o : Except IndexFault (List ClassDecl)) : Option IndexFault :=
  match o with
  | .error fault => some fault
  | .ok _ => none

def failures (paths : List String) (os : List (Except IndexFault (List ClassDecl))) :
    List (String × String) :=
  (paths.zip os).filterMap fun visit => (fault? visit.2).map fun fault => (visit.1, fault.message)

end Registry

namespace Work

open Registry

def found (r : Registry) (disk : Files.Disk) (paths : List String) : Scan where
  classes := classNames ((r.outcomes (Visit.files disk paths)).flatMap declared)
  failures := failures paths (r.outcomes (Visit.files disk paths))

section

variable {r : Registry} {disk : Files.Disk} {path : String} (rest : List String)

theorem found_of_error {fault : IndexFault}
    (h : (r.indexFile disk path).outcome = .error fault) :
    found r disk (path :: rest) =
      { found (r.indexFile disk path).registry disk rest with
        failures := (path, fault.message) ::
          (found (r.indexFile disk path).registry disk rest).failures } := by
  rw [found, outcomes_files_cons, h]
  rfl

theorem found_of_ok {ds : List ClassDecl} (h : (r.indexFile disk path).outcome = .ok ds) :
    found r disk (path :: rest) =
      { found (r.indexFile disk path).registry disk rest with
        classes := classNames ds ++ (found (r.indexFile disk path).registry disk rest).classes } := by
  have hclasses : ∀ more : List ClassDecl,
      classNames (ds ++ more) = classNames ds ++ classNames more := by
    intro more
    simp [classNames]
  rw [found, outcomes_files_cons, h, List.flatMap_cons]
  exact congrArg (fun names => (⟨names, _⟩ : Scan)) (hclasses _)

end

theorem run_indexAll (paths : List String) (s : Session) : ∃ notices,
    (indexAll paths).run s = (found s.registry s.disk paths,
      { s with registry := s.registry.run (Visit.files s.disk paths), notices := notices }) := by
  induction paths generalizing s with
  | nil => exact ⟨s.notices, rfl⟩
  | cons path rest ih =>
    have hfile : (indexFile path).run s = ((s.registry.indexFile s.disk path).outcome, _) := rfl
    rw [indexAll, StateT.run_bind, hfile]
    -- the rest is indexed in the session that the file left, with a notice more if it failed
    cases houtcome : (s.registry.indexFile s.disk path).outcome with
    | error fault =>
      obtain ⟨notices, hrest⟩ := ih (Session.note { s with
        registry := (s.registry.indexFile s.disk path).registry
        notices := s.notices ++ (s.registry.indexFile s.disk path).notices }
          (.fileFailed path fault.message))
      refine ⟨notices, ?_⟩
      rw [found_of_error rest houtcome]
      exact congrArg (fun done : Scan × Session =>
        ({ done.1 with failures := (path, fault.message) :: done.1.failures }, done.2)) hrest
    | ok ds =>
      obtain ⟨notices, hrest⟩ := ih { s with
        registry := (s.registry.indexFile s.disk path).registry
        notices := s.notices ++ (s.registry.indexFile s.disk path).notices }
      refine ⟨notices, ?_⟩
      rw [found_of_ok rest houtcome]
      exact congrArg (fun done : Scan × Session =>
        ({ done.1 with classes := classNames ds ++ done.1.classes }, done.2)) hrest

theorem run_reports (notices : List Notice) (s : Session) : ∃ more,
    (notices.forM report).run s = ((), { s with notices := more }) := by
  induction notices generalizing s with
  | nil => exact ⟨s.notices, rfl⟩
  | cons n notices ih =>
    obtain ⟨more, hmore⟩ := ih (s.note n)
    exact ⟨more, hmore⟩

/-- A scan puts the names of the classes in order. -/
theorem run_scan (settings : Settings) (s : Session) : ∃ notices,
    (scan settings).run s =
      ({ classes := sorted
           (classNames ((s.registry.outcomes (Files.visits s.disk settings)).flatMap declared))
         failures := failures (Files.select s.disk settings)
           (s.registry.outcomes (Files.visits s.disk settings)) },
        { s with registry := s.registry.run (Files.visits s.disk settings), notices := notices }) := by
  have hscan : (scan settings).run s =
      (let done := (indexAll (Files.select s.disk settings)).run
        (((Files.selectNotices s.disk settings).forM report).run s).2
       let names := sorted done.1.classes
       ({ done.1 with classes := names },
        done.2.note (.scanned names.length done.2.registry.files.entries.length))) := rfl
  obtain ⟨before, hbefore⟩ := run_reports (Files.selectNotices s.disk settings) s
  obtain ⟨after, hafter⟩ := run_indexAll (Files.select s.disk settings)
    (((Files.selectNotices s.disk settings).forM report).run s).2
  rw [hscan, hafter, hbefore]
  exact ⟨_, rfl⟩

end Work

end ContractCheck
