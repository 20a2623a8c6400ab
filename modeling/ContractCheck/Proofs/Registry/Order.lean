import ContractCheck.Proofs.Hierarchy.Methods
import ContractCheck.Proofs.Registry.Indexed
import ContractCheck.Proofs.Sample

/-!
The order of indexing. Sources that share no key and no name of a class-like may be indexed in any
order: the registries that come about look up the same class-likes.
-/
namespace ContractCheck

open Text

namespace Table

variable {κ α : Type} [DecidableEq κ]

theorem find?_eq_some_iff {t : Table κ α} (hn : t.keys.Nodup) (k : κ) (v : α) :
    t.find? k = some v ↔ (k, v) ∈ t.entries :=
  ⟨mem_entries_of_find?, find?_of_mem hn⟩

/-- Two orders of the same entries look up the same. -/
theorem find?_perm {t u : Table κ α} (hn : t.keys.Nodup) (h : t.entries.Perm u.entries) (k : κ) :
    t.find? k = u.find? k := by
  have hu : u.keys.Nodup := (h.map Prod.fst).nodup_iff.1 hn
  apply Option.ext
  intro v
  rw [find?_eq_some_iff hn, find?_eq_some_iff hu, h.mem_iff]

/-- Entering a key does not see entries of other keys in front. -/
theorem entries_insertNew_append {t u : Table κ α} {front : List (κ × α)} {k : κ}
    (ht : t.entries = front ++ u.entries) (hk : k ∉ front.map (·.1)) (v : α) :
    (t.insertNew k v).entries = front ++ (u.insertNew k v).entries := by
  have hkeys : k ∈ t.keys ↔ k ∈ u.keys := by
    simp only [keys, ht, List.map_append, List.mem_append, hk, false_or]
  by_cases hu : k ∈ u.keys
  · rw [insertNew_of_mem (hkeys.2 hu), insertNew_of_mem hu, ht]
  · rw [entries_insertNew (mt hkeys.1 hu), entries_insertNew hu, ht, List.append_assoc]

end Table

namespace Registry

/-- Registries that look up the same class-likes, and have as many class-likes and methods. -/
structure Alike (r r' : Registry) : Prop where
  find : ∀ key, r.classes.find? key = r'.classes.find? key
  count : r.classes.entries.length = r'.classes.entries.length
  methods : r.declaredMethods.length = r'.declaredMethods.length

theorem Alike.refl (r : Registry) : r.Alike r :=
  ⟨fun _ => rfl, rfl, rfl⟩

theorem Alike.of_perm {r r' : Registry} (hr : r.WellKeyed)
    (h : r.classes.entries.Perm r'.classes.entries) : r.Alike r' := by
  refine ⟨Table.find?_perm hr.distinct h, h.length_eq, ?_⟩
  have hmethods : r.declaredMethods.Perm r'.declaredMethods := (h.map Prod.snd).flatMap_right _
  exact hmethods.length_eq

/-- Class-likes of new names join those that are there. -/
theorem entries_registerAll {r : Registry} {ds : List ClassDecl}
    (hnew : ∀ d ∈ ds, lower d.name ∉ r.classes.keys) :
    (r.registerAll ds).classes.entries =
      r.classes.entries ++ (registerAll {} ds).classes.entries := by
  have hgeneral : ∀ u v : Registry, v.classes.entries = r.classes.entries ++ u.classes.entries →
      (v.registerAll ds).classes.entries =
        r.classes.entries ++ (u.registerAll ds).classes.entries := by
    induction ds with
    | nil => exact fun _ _ h => h
    | cons d ds ih =>
      intro u v h
      have hd : lower d.name ∉ r.classes.entries.map (·.1) := hnew d List.mem_cons_self
      exact ih (fun e he => hnew e (List.mem_cons_of_mem d he)) (u.register d) (v.register d)
        (Table.entries_insertNew_append h hd d)
  exact hgeneral {} r (by simp)

theorem failed_registerAll (r : Registry) (ds : List ClassDecl) :
    (r.registerAll ds).failed = r.failed := by
  induction ds generalizing r with
  | nil => rfl
  | cons d ds ih => exact ih (r.register d)

theorem name_of_mem_registerAll {ds : List ClassDecl} {r : Registry} {key : String}
    (h : key ∈ (r.registerAll ds).classes.keys) :
    key ∈ r.classes.keys ∨ ∃ d ∈ ds, lower d.name = key := by
  induction ds generalizing r with
  | nil => exact Or.inl h
  | cons d ds ih =>
    cases ih h with
    | inl h =>
      cases (Table.mem_keys_insertNew _ _ _ _).1 h with
      | inl h => exact Or.inl h
      | inr h => exact Or.inr ⟨d, List.mem_cons_self, h.symm⟩
    | inr h =>
      obtain ⟨e, he, hkey⟩ := h
      exact Or.inr ⟨e, List.mem_cons_of_mem d he, hkey⟩

end Registry

inductive Source where
  | file (path : String)
  | text (path source : String) (parse : Files.Parse)

def Sample.source (path : String) (declarations : List Syntax.Node) : Source :=
  .text path (print (program declarations)) ⟨false, rows 0 (program declarations)⟩

namespace Source

def indexing (disk : Files.Disk) : Source → Registry → Indexing
  | .file path, r => r.indexFile disk path
  | .text path source parse, r => r.indexSource disk path source parse

def key (disk : Files.Disk) : Source → String
  | .file path => disk.absolute path
  | .text path _ _ => Registry.sourceKey disk path

def classes (disk : Files.Disk) (x : Source) : List ClassDecl :=
  (x.indexing disk {}).outcome.toOption.getD []

theorem indexed_indexing {r : Registry} (hr : r.Indexed) (disk : Files.Disk) (x : Source) :
    (x.indexing disk r).registry.Indexed := by
  cases x with
  | file path => exact .file hr disk path
  | text path source parse => exact .source hr _ _

end Source

namespace Registry

structure Adds (r : Registry) (key : String) (ds : List ClassDecl) (r' : Registry) : Prop where
  classes : r'.classes = (r.registerAll ds).classes
  files : ∀ k, k ≠ key → r'.files.find? k = r.files.find? k
  failed : ∀ k, k ≠ key → r'.failed.find? k = r.failed.find? k

theorem adds_nothing (r : Registry) (key : String) : r.Adds key [] r :=
  ⟨rfl, fun _ _ => rfl, fun _ _ => rfl⟩

theorem adds_fail (r : Registry) (key : String) (fault : IndexFault) :
    r.Adds key [] (r.fail key fault).registry := by
  refine ⟨rfl, fun _ _ => rfl, ?_⟩
  intro k hk
  exact Table.find?_set_of_ne (Ne.symm hk) _ _

theorem adds_indexTree {r : Registry} {key : String} (hkey : r.files.find? key = none)
    (tree : Syntax.Tree) :
    r.Adds key ((indexTree {} key tree).outcome.toOption.getD [])
      (r.indexTree key tree).registry := by
  have hempty : ({} : Registry).files.find? key = none := rfl
  simp only [indexTree, hkey, hempty]
  by_cases herror : tree.hasError = true
  · simp only [herror, if_true]
    exact r.adds_fail key _
  · simp only [herror, if_false, Bool.false_eq_true]
    refine ⟨rfl, ?_, ?_⟩
    · intro k hk
      exact Table.find?_set_of_ne (Ne.symm hk) _ _
    · intro k _
      exact congrArg (·.find? k) (r.failed_registerAll _)

theorem adds_indexFile {r : Registry} {disk : Files.Disk} {path : String}
    (hfiles : r.files.find? (disk.absolute path) = none)
    (hfailed : r.failed.find? (disk.absolute path) = none) :
    r.Adds (disk.absolute path) ((indexFile {} disk path).outcome.toOption.getD [])
      (r.indexFile disk path).registry := by
  have hempty : ({} : Registry).files.find? (disk.absolute path) = none := rfl
  have hnone : ({} : Registry).failed.find? (disk.absolute path) = none := rfl
  rw [Files.Disk.absolute] at hfiles hfailed hempty hnone ⊢
  simp only [indexFile, hfiles, hfailed, hempty, hnone]
  split
  · exact r.adds_nothing _
  · cases disk.open? (Files.Path.absolute disk.workingDirectory path) with
    | error fault => exact r.adds_fail _ _
    | ok file =>
      cases htext : file.text with
      | error fault =>
        simp only [htext]
        exact r.adds_fail _ _
      | ok source =>
        simp only [htext]
        exact adds_indexTree hfiles _

theorem adds_indexing {r : Registry} {disk : Files.Disk} {x : Source}
    (hfiles : r.files.find? (x.key disk) = none) (hfailed : r.failed.find? (x.key disk) = none) :
    r.Adds (x.key disk) (x.classes disk) (x.indexing disk r).registry := by
  cases x with
  | file path => exact adds_indexFile hfiles hfailed
  | text path source parse => exact adds_indexTree hfiles _

def indexSources (r : Registry) (disk : Files.Disk) (xs : List Source) : Registry :=
  xs.foldl (fun r x => (x.indexing disk r).registry) r

theorem indexed_indexSources {r : Registry} (hr : r.Indexed) (disk : Files.Disk)
    (xs : List Source) : (r.indexSources disk xs).Indexed := by
  induction xs generalizing r with
  | nil => exact hr
  | cons x xs ih => exact ih (Source.indexed_indexing hr disk x)

/-- No class-like, in any letter case, is declared by two of the sources. -/
def NamesApart (disk : Files.Disk) (xs : List Source) : Prop :=
  xs.Pairwise fun x y => ∀ d ∈ x.classes disk, ∀ e ∈ y.classes disk, lower d.name ≠ lower e.name

/-- Each source adds its own class-likes, as if it were alone. -/
theorem entries_indexSources {disk : Files.Disk} {xs : List Source} {r : Registry}
    (hkeys : (xs.map (·.key disk)).Nodup) (hdisjoint : NamesApart disk xs)
    (hnew : ∀ x ∈ xs, r.files.find? (x.key disk) = none ∧ r.failed.find? (x.key disk) = none ∧
      ∀ d ∈ x.classes disk, lower d.name ∉ r.classes.keys) :
    (r.indexSources disk xs).classes.entries = r.classes.entries ++
      xs.flatMap fun x => (registerAll {} (x.classes disk)).classes.entries := by
  induction xs generalizing r with
  | nil => simp [indexSources]
  | cons x xs ih =>
    rw [List.map_cons, List.nodup_cons] at hkeys
    obtain ⟨hfirst, hrest⟩ := List.pairwise_cons.1 hdisjoint
    obtain ⟨hfiles, hfailed, hnames⟩ := hnew x List.mem_cons_self
    have hadds := adds_indexing hfiles hfailed
    have hentries := entries_registerAll hnames
    rw [← hadds.classes] at hentries
    have hstep : ∀ y ∈ xs, (x.indexing disk r).registry.files.find? (y.key disk) = none ∧
        (x.indexing disk r).registry.failed.find? (y.key disk) = none ∧
        ∀ d ∈ y.classes disk, lower d.name ∉ (x.indexing disk r).registry.classes.keys := by
      intro y hy
      obtain ⟨hyfiles, hyfailed, hynames⟩ := hnew y (List.mem_cons_of_mem x hy)
      have hne : y.key disk ≠ x.key disk := by
        intro h
        exact hkeys.1 (h ▸ List.mem_map_of_mem hy)
      refine ⟨(hadds.files _ hne).trans hyfiles, (hadds.failed _ hne).trans hyfailed, ?_⟩
      intro d hd hmem
      rw [hadds.classes] at hmem
      cases name_of_mem_registerAll hmem with
      | inl h => exact hynames d hd h
      | inr h =>
        obtain ⟨e, he, heq⟩ := h
        exact hfirst y hy e he d hd heq
    have htail := ih hkeys.2 hrest hstep
    rw [List.flatMap_cons, ← List.append_assoc, ← hentries]
    exact htail

/-- Sources of different keys that share no class-like may be indexed in any order. -/
theorem alike_indexSources {disk : Files.Disk} {xs ys : List Source} (h : xs.Perm ys)
    (hkeys : (xs.map (·.key disk)).Nodup) (hdisjoint : NamesApart disk xs) :
    (indexSources {} disk xs).Alike (indexSources {} disk ys) := by
  have hkeys' : (ys.map (·.key disk)).Nodup := (h.map _).nodup_iff.1 hkeys
  have hdisjoint' : NamesApart disk ys :=
    h.pairwise hdisjoint fun hxy d hd e he => (hxy e he d hd).symm
  have hnew : ∀ x : Source, ({} : Registry).files.find? (x.key disk) = none ∧
      ({} : Registry).failed.find? (x.key disk) = none ∧
      ∀ d ∈ x.classes disk, lower d.name ∉ ({} : Registry).classes.keys :=
    fun x => ⟨rfl, rfl, by simp [Table.keys]⟩
  apply Alike.of_perm (indexed_indexSources .empty disk xs).wellKeyed
  rw [entries_indexSources hkeys hdisjoint fun x _ => hnew x,
    entries_indexSources hkeys' hdisjoint' fun x _ => hnew x]
  exact (h.flatMap_right _).append_left _

end Registry

end ContractCheck
