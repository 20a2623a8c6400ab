import ContractCheck.Proofs.Registry.Order

/-!
Runs of indexing. Files are read and texts are handed over one after the other, while the disk
changes in between. Main statement: of each name the first declaration stands, what is held stays,
and a file has one outcome for good.
-/
namespace ContractCheck

open Text

structure Visit where
  disk : Files.Disk
  source : Source

namespace Visit

def key (v : Visit) : String :=
  v.source.key v.disk

def indexing (v : Visit) (r : Registry) : Indexing :=
  v.source.indexing v.disk r

def isText (v : Visit) : Bool :=
  match v.source with
  | .file _ => false
  | .text _ _ _ => true

end Visit

namespace Sample

def missing : Visit :=
  ⟨emptyDisk, .file "a.php"⟩

def conflict : List Visit := [
  ⟨emptyDisk, source "b.php" [classLike "class_declaration" "A" [] [] []]⟩,
  ⟨emptyDisk, source "c.php"
    [classLike "class_declaration" "a" [] [] [], classLike "class_declaration" "B" [] [] []]⟩]

def created : Visit :=
  ⟨emptyDisk.write "a.php" {}, .file "a.php"⟩

end Sample

namespace Registry

inductive Takes (r : Registry) (key : String) : Registry → Except IndexFault (List ClassDecl) → Prop
  | kept {ds : List ClassDecl} (hfiles : r.files.find? key = some ds) : Takes r key r (.ok ds)
  | failedBefore {fault : IndexFault} (hfiles : r.files.find? key = none)
      (hfailed : r.failed.find? key = some fault) : Takes r key r (.error fault)
  | nullByte (hfiles : r.files.find? key = none) (hfailed : r.failed.find? key = none)
      (hnull : key.toList.contains '\x00' = true) : Takes r key r (.error (.nullByte key))
  | fails (hfiles : r.files.find? key = none) (fault : IndexFault) :
      Takes r key { r with failed := r.failed.set key fault } (.error fault)
  | reads (hfiles : r.files.find? key = none) (ds : List ClassDecl) (namespaces : List String) :
      Takes r key
        { (r.registerAll ds).addNamespaces namespaces with files := r.files.set key ds } (.ok ds)

theorem takes_indexTree (r : Registry) (key : String) (tree : Syntax.Tree) :
    r.Takes key (r.indexTree key tree).registry (r.indexTree key tree).outcome := by
  rw [indexTree]
  cases hfiles : r.files.find? key with
  | some ds => exact .kept hfiles
  | none =>
    cases tree.hasError with
    | true => exact .fails hfiles _
    | false => exact .reads hfiles _ _

theorem takes_indexFile (r : Registry) (disk : Files.Disk) (path : String) :
    r.Takes (disk.absolute path) (r.indexFile disk path).registry
      (r.indexFile disk path).outcome := by
  rw [indexFile, Files.Disk.absolute]
  cases hfiles : r.files.find? (Files.Path.absolute disk.workingDirectory path).render with
  | some ds => exact .kept hfiles
  | none =>
    cases hfailed : r.failed.find? (Files.Path.absolute disk.workingDirectory path).render with
    | some fault => exact .failedBefore hfiles hfailed
    | none =>
      by_cases hnull :
          (Files.Path.absolute disk.workingDirectory path).render.toList.contains '\x00' = true
      · simp only [if_pos hnull]
        exact .nullByte hfiles hfailed hnull
      · simp only [if_neg hnull]
        cases disk.open? (Files.Path.absolute disk.workingDirectory path) with
        | error fault => exact .fails hfiles _
        | ok file =>
          cases htext : file.text with
          | error fault =>
            simp only [htext]
            exact .fails hfiles _
          | ok source =>
            simp only [htext]
            exact r.takes_indexTree _ _

theorem takes_indexing (r : Registry) (v : Visit) :
    r.Takes v.key (v.indexing r).registry (v.indexing r).outcome := by
  obtain ⟨disk, source⟩ := v
  cases source with
  | file path => exact r.takes_indexFile disk path
  | text path source parse => exact r.takes_indexTree _ _

/-- A failure only adds to what is remembered about failures. -/
theorem unchanged_of_takes {r r' : Registry} {key : String} {fault : IndexFault}
    (h : r.Takes key r' (.error fault)) :
    r'.files = r.files ∧ r'.classes = r.classes ∧ r'.namespaces = r.namespaces := by
  cases h <;> exact ⟨rfl, rfl, rfl⟩

theorem files_of_takes {r r' : Registry} {key : String} {o : Except IndexFault (List ClassDecl)}
    (h : r.Takes key r' o) {k : String} {ds : List ClassDecl} (hk : r.files.find? k = some ds) :
    r'.files.find? k = some ds := by
  cases h with
  | kept _ => exact hk
  | failedBefore _ _ => exact hk
  | nullByte _ _ _ => exact hk
  | fails _ _ => exact hk
  | reads hfiles _ _ =>
    have hne : key ≠ k := by
      intro heq
      rw [heq, hk] at hfiles
      cases hfiles
    exact (Table.find?_set_of_ne hne _ _).trans hk

/-- Registering keeps what is there, and of new names takes the first. -/
theorem find?_registerAll (r : Registry) (ds : List ClassDecl) (k : String) :
    (r.registerAll ds).classes.find? k =
      (r.classes.find? k).or (ds.find? fun d => lower d.name = k) := by
  induction ds generalizing r with
  | nil => exact Option.or_none.symm
  | cons d ds ih =>
    have hd : (r.register d).classes.find? k =
        (r.classes.find? k).or (if lower d.name = k then some d else none) :=
      Table.find?_insertNew _ _ _ _
    rw [registerAll, List.foldl_cons, ← registerAll, ih, hd, Option.or_assoc, List.find?_cons]
    by_cases hk : lower d.name = k <;> simp [hk]

def Held (r : Registry) : Prop :=
  ∀ key ds, r.files.find? key = some ds → ∀ d ∈ ds, (r.classes.find? (lower d.name)).isSome

theorem held_empty : Held {} := by
  intro key ds h
  cases h

def declared (o : Except IndexFault (List ClassDecl)) : List ClassDecl :=
  o.toOption.getD []

/-- A visit adds the class-likes of its outcome, unless their names are taken. Those of a file that
is held are all taken. -/
theorem find?_of_takes {r r' : Registry} (hr : r.Held) {key : String}
    {o : Except IndexFault (List ClassDecl)} (h : r.Takes key r' o) (k : String) :
    r'.classes.find? k =
      (r.classes.find? k).or ((declared o).find? fun d => lower d.name = k) := by
  cases h with
  | failedBefore _ _ => exact Option.or_none.symm
  | nullByte _ _ _ => exact Option.or_none.symm
  | fails _ _ => exact Option.or_none.symm
  | reads _ ds _ => exact r.find?_registerAll ds k
  | @kept ds hfiles =>
    cases hk : r.classes.find? k with
    | some d => rfl
    | none =>
      rw [Option.none_or, eq_comm, List.find?_eq_none]
      intro d hd heq
      have hsome := hr key ds hfiles d hd
      rw [of_decide_eq_true heq, hk] at hsome
      cases hsome

theorem isSome_of_declared {r r' : Registry} (hr : r.Held) {key : String}
    {o : Except IndexFault (List ClassDecl)} (h : r.Takes key r' o) {d : ClassDecl}
    (hd : d ∈ declared o) : (r'.classes.find? (lower d.name)).isSome := by
  have hsome : ((declared o).find? fun e => lower e.name = lower d.name).isSome :=
    List.find?_isSome.2 ⟨d, hd, decide_eq_true rfl⟩
  rw [find?_of_takes hr h, Option.isSome_or, hsome, Bool.or_true]

theorem held_of_takes {r r' : Registry} (hr : r.Held) {key : String}
    {o : Except IndexFault (List ClassDecl)} (h : r.Takes key r' o) : r'.Held := by
  have hnew : ∀ d ∈ declared o, (r'.classes.find? (lower d.name)).isSome :=
    fun d hd => isSome_of_declared hr h hd
  have hfind := find?_of_takes hr h
  cases h with
  | kept _ => exact hr
  | failedBefore _ _ => exact hr
  | nullByte _ _ _ => exact hr
  | fails _ _ => exact hr
  | reads _ ds namespaces =>
    intro k ds' hk d hd
    by_cases heq : key = k
    · subst heq
      rw [Table.find?_set_self] at hk
      cases hk
      exact hnew d hd
    · rw [Table.find?_set_of_ne heq] at hk
      rw [hfind, Option.isSome_or, hr k ds' hk d hd, Bool.true_or]

def remembered? (r : Registry) (key : String) : Option (Except IndexFault (List ClassDecl)) :=
  ((r.files.find? key).map .ok).or ((r.failed.find? key).map .error)

/-- A file has an outcome for good: it is remembered, or its path is refused each time. -/
def Settles (r : Registry) (key : String) (o : Except IndexFault (List ClassDecl)) : Prop :=
  r.remembered? key = some o ∨
    r.remembered? key = none ∧ key.toList.contains '\x00' = true ∧ o = .error (.nullByte key)

theorem settles_of_takes {r r' : Registry} {key : String}
    {o : Except IndexFault (List ClassDecl)} (h : r.Takes key r' o) : r'.Settles key o := by
  cases h with
  | kept hfiles => exact .inl (by rw [remembered?, hfiles]; rfl)
  | failedBefore hfiles hfailed => exact .inl (by rw [remembered?, hfiles, hfailed]; rfl)
  | nullByte hfiles hfailed hnull =>
    exact .inr ⟨by rw [remembered?, hfiles, hfailed]; rfl, hnull, rfl⟩
  | fails hfiles fault => exact .inl (by rw [remembered?, hfiles, Table.find?_set_self]; rfl)
  | reads _ ds _ => exact .inl (by rw [remembered?, Table.find?_set_self]; rfl)

theorem remembered?_of_takes {r r' : Registry} {key : String}
    {o : Except IndexFault (List ClassDecl)} (h : r.Takes key r' o) {k : String} (hk : key ≠ k) :
    r'.remembered? k = r.remembered? k := by
  cases h with
  | kept _ => rfl
  | failedBefore _ _ => rfl
  | nullByte _ _ _ => rfl
  | fails _ _ => rw [remembered?, Table.find?_set_of_ne hk, remembered?]
  | reads _ ds namespaces =>
    have hfailed : ((r.registerAll ds).addNamespaces namespaces).failed = r.failed :=
      r.failed_registerAll ds
    rw [remembered?, Table.find?_set_of_ne hk, hfailed, remembered?]

/-- A file whose outcome is settled is not read again. -/
theorem indexFile_of_settles {r : Registry} {disk : Files.Disk} {path : String}
    {o : Except IndexFault (List ClassDecl)} (h : r.Settles (disk.absolute path) o) :
    (r.indexFile disk path).registry = r ∧ (r.indexFile disk path).outcome = o := by
  rw [Settles, remembered?, Files.Disk.absolute] at h
  rw [indexFile]
  cases hfiles : r.files.find? (Files.Path.absolute disk.workingDirectory path).render with
  | some ds =>
    rw [hfiles] at h
    cases h with
    | inl h => exact ⟨rfl, Option.some.inj h⟩
    | inr h => cases h.1
  | none =>
    cases hfailed : r.failed.find? (Files.Path.absolute disk.workingDirectory path).render with
    | some fault =>
      rw [hfiles, hfailed] at h
      cases h with
      | inl h => exact ⟨rfl, Option.some.inj h⟩
      | inr h => cases h.1
    | none =>
      rw [hfiles, hfailed] at h
      cases h with
      | inl h => cases h
      | inr h =>
        obtain ⟨_, hnull, rfl⟩ := h
        simp only [if_pos hnull, and_self]

theorem settles_indexing {r : Registry} {key : String} {o : Except IndexFault (List ClassDecl)}
    (h : r.Settles key o) {v : Visit} (hv : v.isText = true → v.key ≠ key) :
    (v.indexing r).registry.Settles key o := by
  by_cases hkey : v.key = key
  · obtain ⟨disk, source⟩ := v
    cases source with
    | file path =>
      subst hkey
      exact (indexFile_of_settles h).1.symm ▸ h
    | text path source parse => exact absurd hkey (hv rfl)
  · rw [Settles, remembered?_of_takes (r.takes_indexing v) hkey]
    exact h

def run (r : Registry) (visits : List Visit) : Registry :=
  visits.foldl (fun r v => (v.indexing r).registry) r

def outcomes (r : Registry) : List Visit → List (Except IndexFault (List ClassDecl))
  | [] => []
  | v :: visits => (v.indexing r).outcome :: (v.indexing r).registry.outcomes visits

theorem run_append (r : Registry) (visits later : List Visit) :
    r.run (visits ++ later) = (r.run visits).run later :=
  List.foldl_append

theorem indexed_run {r : Registry} (hr : r.Indexed) (visits : List Visit) :
    (r.run visits).Indexed := by
  induction visits generalizing r with
  | nil => exact hr
  | cons v visits ih => exact ih (Source.indexed_indexing hr v.disk v.source)

theorem held_run {r : Registry} (hr : r.Held) (visits : List Visit) : (r.run visits).Held := by
  induction visits generalizing r with
  | nil => exact hr
  | cons v visits ih => exact ih (held_of_takes hr (r.takes_indexing v))

theorem find?_run {r : Registry} (hr : r.Held) (visits : List Visit) (k : String) :
    (r.run visits).classes.find? k = (r.classes.find? k).or
      (((r.outcomes visits).flatMap declared).find? fun d => lower d.name = k) := by
  induction visits generalizing r with
  | nil => exact Option.or_none.symm
  | cons v visits ih =>
    have hv := r.takes_indexing v
    rw [run, List.foldl_cons, ← run, ih (held_of_takes hr hv), find?_of_takes hr hv, outcomes,
      List.flatMap_cons, List.find?_append, Option.or_assoc]

theorem files_run {r : Registry} (visits : List Visit) {k : String} {ds : List ClassDecl}
    (hk : r.files.find? k = some ds) : (r.run visits).files.find? k = some ds := by
  induction visits generalizing r with
  | nil => exact hk
  | cons v visits ih => exact ih (files_of_takes (r.takes_indexing v) hk)

theorem settles_run {r : Registry} {key : String} {o : Except IndexFault (List ClassDecl)}
    (h : r.Settles key o) {visits : List Visit}
    (hvisits : ∀ v ∈ visits, v.isText = true → v.key ≠ key) : (r.run visits).Settles key o := by
  induction visits generalizing r with
  | nil => exact h
  | cons v visits ih =>
    exact ih (settles_indexing h (hvisits v List.mem_cons_self))
      fun w hw => hvisits w (List.mem_cons_of_mem v hw)

theorem outcome_again {r : Registry} {v w : Visit} {between : List Visit}
    (hw : w.isText = false) (hkey : w.key = v.key)
    (hbetween : ∀ t ∈ between, t.isText = true → t.key ≠ v.key) :
    (w.indexing (r.run (v :: between))).outcome = (v.indexing r).outcome := by
  have hsettles := settles_run (settles_of_takes (r.takes_indexing v)) hbetween
  rw [← hkey] at hsettles
  obtain ⟨disk, source⟩ := w
  cases source with
  | file path => exact (indexFile_of_settles hsettles).2
  | text path source parse => cases hw

/-- However files and texts are indexed, each class-like stands under its lower-cased name, and a
name stands for the first class-like that any outcome had under it. What is found and the files that
are held stay, a failure changes neither, and indexing a file again has the outcome it had, as long
as no text was handed over under its key. -/
theorem registry_after_visits (visits : List Visit) :
    (∀ e ∈ (run {} visits).classes.entries, e.1 = lower e.2.name) ∧
    (∀ name, (run {} visits).class? name =
      ((outcomes {} visits).flatMap declared).find? fun d => lower d.name = nameKey name) ∧
    (∀ later name d, (run {} visits).class? name = some d →
      (run {} (visits ++ later)).class? name = some d) ∧
    (∀ later key ds, (run {} visits).files.find? key = some ds →
      (run {} (visits ++ later)).files.find? key = some ds) ∧
    (∀ (v : Visit) fault, (v.indexing (run {} visits)).outcome = .error fault →
      (v.indexing (run {} visits)).registry.files = (run {} visits).files ∧
      (v.indexing (run {} visits)).registry.classes = (run {} visits).classes ∧
      (v.indexing (run {} visits)).registry.namespaces = (run {} visits).namespaces) ∧
    ∀ (v : Visit) between (w : Visit), w.isText = false → w.key = v.key →
      (∀ t ∈ between, t.isText = true → t.key ≠ v.key) →
      (w.indexing (run {} (visits ++ v :: between))).outcome =
        (v.indexing (run {} visits)).outcome := by
  refine ⟨(indexed_run .empty visits).wellKeyed.keys, ?_, ?_, ?_, ?_, ?_⟩
  · intro name
    exact (find?_run held_empty visits (nameKey name)).trans Option.none_or
  · intro later name d hd
    have hfind := find?_run (held_run held_empty visits) later (nameKey name)
    rw [class?] at hd ⊢
    rw [run_append, hfind, hd, Option.some_or]
  · intro later key ds hkey
    rw [run_append]
    exact files_run later hkey
  · intro v fault hfault
    have htakes := (run {} visits).takes_indexing v
    rw [hfault] at htakes
    exact unchanged_of_takes htakes
  · intro v between w hw hkey hbetween
    rw [run_append]
    exact outcome_again hw hkey hbetween

theorem registry_after_visits_conflict :
    ((run {} (Sample.missing :: Sample.conflict)).class? "a").map (·.name) = some "A" ∧
    (Sample.created.indexing {}).outcome.toOption.isSome = true ∧
    (Sample.created.indexing
      (run {} (Sample.missing :: Sample.conflict))).outcome.toOption.isSome = false := by
  refine ⟨?_, by decide +kernel, ?_⟩
  · rw [(registry_after_visits (Sample.missing :: Sample.conflict)).2.1 "a"]
    decide +kernel
  · -- the first visit asked for the same file, and no text after it is handed over under its key
    obtain ⟨_, _, _, _, _, hagain⟩ := registry_after_visits []
    have hkey : Sample.created.key = Sample.missing.key := by decide +kernel
    have hbetween : ∀ t ∈ Sample.conflict, t.isText = true → t.key ≠ Sample.missing.key := by
      decide +kernel
    rw [← List.nil_append (Sample.missing :: Sample.conflict),
      hagain Sample.missing Sample.conflict Sample.created rfl hkey hbetween]
    decide +kernel

end Registry

end ContractCheck
