import ContractCheck.Registry.Indexing
import ContractCheck.Proofs.Table
import ContractCheck.Proofs.Text.LetterCase

/-!
The registries that indexing makes. Whatever is indexed, each class-like stands under its lower-cased
name and each of its methods under its own, none of them twice, and no import has a target with a
backslash in front.
-/
namespace ContractCheck

open Text

theorem Imports.unslashed_of_parseEntry {entry : List Char} {e : String × String}
    (h : parseEntry entry = some e) : Unslashed e.2 := by
  rw [parseEntry] at h
  split at h
  · cases h
  · split at h
    all_goals
      simp only [Option.ite_none_left_eq_some, Option.some.injEq] at h
      obtain ⟨_, rfl⟩ := h
      simpa [dropBackslashes] using unslashed_dropBackslashes (String.ofList (trim _))

theorem Imports.unslashed_of_mem_parse {text : String} {e : String × String}
    (h : e ∈ (parse text).entries) : Unslashed e.2 := by
  rw [parse] at h
  split at h
  · simp at h
  · rcases Table.mem_entries_foldl_set h with h | h
    · simp at h
    · obtain ⟨entry, _, he⟩ := List.mem_filterMap.1 h
      exact unslashed_of_parseEntry he

theorem Imports.unslashed_of_mem_foldl {ns : List Syntax.Node} {acc : Imports}
    (hacc : ∀ e ∈ acc.entries, Unslashed e.2) {e : String × String}
    (h : e ∈ (ns.foldl (fun acc n => acc.update (parse n.text)) acc).entries) : Unslashed e.2 := by
  induction ns generalizing acc with
  | nil => exact hacc e h
  | cons n ns ih =>
    rw [List.foldl_cons] at h
    apply ih ?_ h
    intro e' he'
    rcases Table.mem_entries_update he' with he' | he'
    · exact hacc e' he'
    · exact unslashed_of_mem_parse he'

theorem Declaration.Block.unslashed_of_mem_imports {b : Block} {e : String × String}
    (h : e ∈ b.imports.entries) : Unslashed e.2 := by
  rw [Block.imports] at h
  exact Imports.unslashed_of_mem_foldl (by simp) h

structure ClassDecl.WellRead (d : ClassDecl) : Prop where
  imports : ∀ e ∈ d.imports.entries, Unslashed e.2
  methods : ∀ e ∈ d.methods.entries, e.1 = lower e.2.name ∧ e.2.owner = d.name
  distinct : d.methods.keys.Nodup

namespace Declaration

/-- Methods entered one after the other, each under its lower-cased name. -/
theorem enter_methods (ms : List Method) (acc : MethodTable) (owner : String)
    (hms : ∀ m ∈ ms, m.owner = owner)
    (hacc : (∀ e ∈ acc.entries, e.1 = lower e.2.name ∧ e.2.owner = owner) ∧ acc.keys.Nodup) :
    (∀ e ∈ (ms.foldl (fun acc m => acc.insertNew (lower m.name) m) acc).entries,
      e.1 = lower e.2.name ∧ e.2.owner = owner) ∧
      (ms.foldl (fun acc m => acc.insertNew (lower m.name) m) acc).keys.Nodup := by
  induction ms generalizing acc with
  | nil => exact hacc
  | cons m ms ih =>
    have howner : m.owner = owner := hms m List.mem_cons_self
    refine ih (acc.insertNew (lower m.name) m) (fun x hx => hms x (List.mem_cons_of_mem m hx)) ?_
    refine ⟨?_, Table.nodup_keys_insertNew hacc.2 (lower m.name) m⟩
    intro e he
    rcases Table.mem_entries_insertNew he with he | rfl
    · exact hacc.1 e he
    · exact ⟨rfl, howner⟩

theorem wellRead_of_readClass {path namespaceName : String} {imports : Imports} {n : Syntax.Node}
    {d : ClassDecl} (hi : ∀ e ∈ imports.entries, Unslashed e.2)
    (h : readClass path namespaceName imports n = some d) : d.WellRead := by
  simp only [readClass, Option.bind_eq_bind, Option.bind_eq_some_iff, Option.pure_def,
    Option.some.injEq] at h
  obtain ⟨simple, _, kind, _, rfl⟩ := h
  obtain ⟨hmethods, hdistinct⟩ := enter_methods
    (((withPrevious none (((n.field? "body").map (·.namedChildren)).getD [])).filter
      (·.2.kind == "method_declaration")).map fun p =>
        readMethod path (qualify namespaceName simple.text) kind p.1 p.2) {}
    (qualify namespaceName simple.text) (by
      intro m hm
      obtain ⟨_, _, rfl⟩ := List.mem_map.1 hm
      rfl) (by simp [Table.keys])
  exact ⟨hi, hmethods, hdistinct⟩

theorem wellRead_of_mem_classesOf {path : String} {root : Syntax.Node} {d : ClassDecl}
    (h : d ∈ classesOf path root) : d.WellRead := by
  obtain ⟨b, _, hd⟩ := List.mem_flatMap.1 h
  obtain ⟨n, _, hn⟩ := List.mem_filterMap.1 hd
  exact wellRead_of_readClass (fun e he => b.unslashed_of_mem_imports he) hn

end Declaration

namespace Registry

/-- The registries that come about by indexing files and sources, whatever trees these have. -/
inductive Indexed : Registry → Prop
  | empty : Indexed {}
  | file {r : Registry} (hr : Indexed r) (disk : Files.Disk) (path : String) :
      Indexed (r.indexFile disk path).registry
  | source {r : Registry} (hr : Indexed r) (key : String) (tree : Syntax.Tree) :
      Indexed (r.indexTree key tree).registry

/-- Each class-like is well read and stands under its lower-cased name, and no name is taken
twice. -/
structure WellKeyed (r : Registry) : Prop where
  keys : ∀ e ∈ r.classes.entries, e.1 = lower e.2.name
  distinct : r.classes.keys.Nodup
  read : ∀ e ∈ r.classes.entries, e.2.WellRead

theorem wellKeyed_empty : WellKeyed {} :=
  ⟨by simp, by simp [Table.keys], by simp⟩

theorem wellKeyed_register {r : Registry} (hr : r.WellKeyed) {d : ClassDecl} (hd : d.WellRead) :
    (r.register d).WellKeyed := by
  refine ⟨?_, Table.nodup_keys_insertNew hr.distinct (lower d.name) d, ?_⟩
  · intro e he
    rcases Table.mem_entries_insertNew he with he | rfl
    · exact hr.keys e he
    · rfl
  · intro e he
    rcases Table.mem_entries_insertNew he with he | rfl
    · exact hr.read e he
    · exact hd

theorem wellKeyed_registerAll {r : Registry} (hr : r.WellKeyed) {ds : List ClassDecl}
    (hds : ∀ d ∈ ds, d.WellRead) : (r.registerAll ds).WellKeyed := by
  induction ds generalizing r with
  | nil => exact hr
  | cons d ds ih =>
    exact ih (wellKeyed_register hr (hds d List.mem_cons_self))
      (fun x hx => hds x (List.mem_cons_of_mem d hx))

/-- Only the registered class-likes matter. -/
theorem WellKeyed.of_classes {r r' : Registry} (hr : r.WellKeyed) (h : r'.classes = r.classes) :
    r'.WellKeyed :=
  ⟨h ▸ hr.keys, h ▸ hr.distinct, h ▸ hr.read⟩

theorem wellKeyed_indexTree {r : Registry} (hr : r.WellKeyed) (key : String) (tree : Syntax.Tree) :
    (r.indexTree key tree).registry.WellKeyed := by
  rw [indexTree]
  split
  · exact hr
  · split
    · exact hr.of_classes rfl
    · refine WellKeyed.of_classes (wellKeyed_registerAll hr ?_) rfl
      intro d hd
      cases hroot : tree.root with
      | none => simp [hroot] at hd
      | some root =>
        rw [hroot] at hd
        exact Declaration.wellRead_of_mem_classesOf hd

theorem wellKeyed_indexFile {r : Registry} (hr : r.WellKeyed) (disk : Files.Disk) (path : String) :
    (r.indexFile disk path).registry.WellKeyed := by
  rw [indexFile]
  split
  · exact hr
  · exact hr
  · split
    · exact hr
    · split
      · exact hr.of_classes rfl
      · split
        · exact hr.of_classes rfl
        · exact wellKeyed_indexTree hr _ _

theorem Indexed.wellKeyed {r : Registry} (hr : r.Indexed) : r.WellKeyed := by
  induction hr with
  | empty => exact wellKeyed_empty
  | file _ disk path ih => exact wellKeyed_indexFile ih disk path
  | source _ key tree ih => exact wellKeyed_indexTree ih key tree

theorem WellKeyed.lower_name_of_find? {r : Registry} (hr : r.WellKeyed) {key : String}
    {d : ClassDecl} (h : r.classes.find? key = some d) : lower d.name = key :=
  (hr.keys _ (Table.mem_entries_of_find? h)).symm

theorem WellKeyed.read_of_find? {r : Registry} (hr : r.WellKeyed) {key : String} {d : ClassDecl}
    (h : r.classes.find? key = some d) : d.WellRead :=
  hr.read _ (Table.mem_entries_of_find? h)

theorem WellKeyed.lower_name_of_class? {r : Registry} (hr : r.WellKeyed) {name : String}
    {d : ClassDecl} (h : r.class? name = some d) : lower d.name = nameKey name :=
  hr.lower_name_of_find? h

theorem WellKeyed.unslashed_of_class? {r : Registry} (hr : r.WellKeyed) {name : String}
    {d : ClassDecl} (h : r.class? name = some d) : Unslashed d.name :=
  unslashed_of_lower_eq_nameKey (hr.lower_name_of_class? h)

end Registry

end ContractCheck
