import ContractCheck.Proofs.Run.Scan

/-!
Names under which class-likes are declared. A parser takes an identifier for the name of a
class-like, which has no backslash, and the namespace in front of it is trimmed. Main statement: then
every name that is discovered is registered as it stands.
-/
namespace ContractCheck

open Text

namespace Syntax.Node

def nodes (n : Node) : List Node :=
  n.preorder fun _ => false

theorem mem_nodes_self (n : Node) : n ∈ n.nodes := by
  cases n with
  | mk info children => exact List.mem_cons_self

theorem nodes_subset_preorderAll {c : Node} {ns : List Node} (hc : c ∈ ns) :
    c.nodes ⊆ preorderAll (fun _ => false) ns := by
  induction ns with
  | nil => cases hc
  | cons n ns ih =>
    intro m hm
    rw [preorderAll, List.mem_append]
    cases List.mem_cons.1 hc with
    | inl heq =>
      subst heq
      exact .inl hm
    | inr hrest => exact .inr (ih hrest hm)

theorem nodes_subset_of_mem_children {n c : Node} (hc : c ∈ n.children) : c.nodes ⊆ n.nodes := by
  cases n with
  | mk info children =>
    intro m hm
    exact List.mem_cons_of_mem _ (nodes_subset_preorderAll hc hm)

theorem nodes_subset_of_mem_namedChildren {n c : Node} (hc : c ∈ n.namedChildren) :
    c.nodes ⊆ n.nodes :=
  nodes_subset_of_mem_children (List.mem_filter.1 hc).1

theorem nodes_subset_of_field? {n c : Node} {role : String} (hc : n.field? role = some c) :
    c.nodes ⊆ n.nodes :=
  nodes_subset_of_mem_children (List.mem_of_find?_eq_some hc)

def PlainNames (root : Node) : Prop :=
  ∀ n ∈ root.nodes, (Declaration.classKind? n.kind).isSome →
    ∀ simple ∈ n.field? "name", Unslashed simple.text

instance (root : Node) : Decidable root.PlainNames :=
  inferInstanceAs (Decidable (∀ n ∈ root.nodes, _ → ∀ simple ∈ n.field? "name", _))

end Syntax.Node

theorem Text.unslashed_trimBackslashes (name : String) : Unslashed (trimBackslashes name) := by
  have hfront := unslashed_dropBackslashes name
  rw [Unslashed, dropBackslashes, String.toList_ofList] at hfront
  rw [Unslashed, trimBackslashes, String.toList_ofList, trimWhile, dropEndWhile]
  -- what is dropped at the end leaves a beginning of the rest
  obtain ⟨back, hback⟩ := List.reverse_prefix.2
    (List.dropWhile_suffix (· = '\\') (l := (name.toList.dropWhile (· = '\\')).reverse))
  rw [List.reverse_reverse] at hback
  intro hhead
  rw [← hback, List.head?_append, hhead] at hfront
  exact hfront rfl

namespace Declaration

open Syntax (Node)

mutual

theorem items_subset_nodes : (n : Node) → items n ⊆ n.nodes
  | .mk info children => by
    rw [items]
    split
    · exact fun m hm => List.mem_singleton.1 hm ▸ Node.mem_nodes_self _
    · split
      · exact fun m hm => List.mem_cons_of_mem _ (itemsIn_subset_preorderAll children hm)
      · exact List.nil_subset _

theorem itemsIn_subset_preorderAll :
    (ns : List Node) → itemsIn ns ⊆ Node.preorderAll (fun _ => false) ns
  | [] => List.nil_subset _
  | n :: ns => by
    intro m hm
    rw [itemsIn, List.mem_append] at hm
    rw [Node.preorderAll, List.mem_append]
    cases hm with
    | inl hfirst =>
      split at hfirst
      · exact .inl (items_subset_nodes n hfirst)
      · cases hfirst
    | inr hrest => exact .inr (itemsIn_subset_preorderAll ns hrest)

end

/-- The statements of all blocks are nodes of the program, and no block has a name with a backslash
in front. -/
theorem blocksFrom_within {root : Node} {name : String} {current ns : List Node} {b : Block}
    (hname : Unslashed name) (hcurrent : ∀ n ∈ current, n.nodes ⊆ root.nodes)
    (hns : ∀ n ∈ ns, n.nodes ⊆ root.nodes) (hb : b ∈ blocksFrom name current ns) :
    Unslashed b.namespaceName ∧ ∀ n ∈ b.statements, n.nodes ⊆ root.nodes := by
  induction ns generalizing name current with
  | nil =>
    obtain rfl := List.mem_singleton.1 hb
    exact ⟨hname, hcurrent⟩
  | cons n ns ih =>
    rw [List.forall_mem_cons] at hns
    obtain ⟨hn, hrest⟩ := hns
    have hinner := unslashed_trimBackslashes (((n.field? "name").map (·.text)).getD "")
    rw [blocksFrom] at hb
    split at hb
    · refine ih hname ?_ hrest hb
      intro m hm
      cases List.mem_append.1 hm with
      | inl hm => exact hcurrent m hm
      | inr hm => exact List.mem_singleton.1 hm ▸ hn
    · cases hbody : n.field? "body" with
      | some body =>
        rw [hbody] at hb
        cases List.mem_cons.1 hb with
        | inl heq =>
          subst heq
          refine ⟨hinner, fun m hm => ?_⟩
          exact List.Subset.trans (Node.nodes_subset_of_mem_namedChildren hm)
            (List.Subset.trans (Node.nodes_subset_of_field? hbody) hn)
        | inr hb => exact ih hname hcurrent hrest hb
      | none =>
        rw [hbody] at hb
        cases List.mem_cons.1 hb with
        | inl heq =>
          subst heq
          exact ⟨hname, hcurrent⟩
        | inr hb => exact ih hinner (by simp) hrest hb

theorem unslashed_qualify {namespaceName simple : String} (hn : Unslashed namespaceName)
    (hs : Unslashed simple) : Unslashed (qualify namespaceName simple) := by
  rw [qualify]
  split
  · exact hs
  · rename_i hne
    rw [String.append_assoc]
    exact unslashed_append hn hne _

theorem unslashed_of_mem_classesOf {path : String} {root : Node} (hroot : root.PlainNames)
    {d : ClassDecl} (hd : d ∈ classesOf path root) : Unslashed d.name := by
  obtain ⟨b, hb, hd⟩ := List.mem_flatMap.1 hd
  obtain ⟨n, hn, hread⟩ := List.mem_filterMap.1 hd
  obtain ⟨statement, hstatement, hitem⟩ := List.mem_flatMap.1 (List.mem_filter.1 hn).1
  obtain ⟨hnamespace, hwithin⟩ := blocksFrom_within (by decide) (by simp)
    (fun m hm => Node.nodes_subset_of_mem_namedChildren hm) (List.mem_filter.1 hb).1
  have hnode := hwithin statement hstatement (items_subset_nodes statement hitem)
  simp only [readClass, Option.bind_eq_bind, Option.bind_eq_some_iff, Option.pure_def,
    Option.some.injEq] at hread
  obtain ⟨simple, hsimple, kind, hkind, rfl⟩ := hread
  refine unslashed_qualify hnamespace (hroot n hnode ?_ simple hsimple)
  rw [hkind]
  rfl

end Declaration

namespace Files

def Disk.tree? (d : Disk) (path : String) : Option Syntax.Node :=
  (d.open? (Path.absolute d.workingDirectory path)).toOption.bind fun file =>
    file.text.toOption.bind fun text => (file.parse.tree text).root

def Disk.PlainNames (d : Disk) (s : Settings) : Prop :=
  ∀ path ∈ select d s, ∀ root ∈ d.tree? path, root.PlainNames

end Files

namespace Registry

theorem mem_declared_indexTree {r : Registry} {key : String} {tree : Syntax.Tree} {d : ClassDecl}
    (hd : d ∈ declared (r.indexTree key tree).outcome) :
    (∃ ds, r.files.find? key = some ds ∧ d ∈ ds) ∨
      ∃ root ∈ tree.root, d ∈ Declaration.classesOf key root := by
  rw [indexTree] at hd
  cases hfiles : r.files.find? key with
  | some ds =>
    rw [hfiles] at hd
    exact .inl ⟨ds, rfl, hd⟩
  | none =>
    rw [hfiles] at hd
    obtain ⟨hasError, root⟩ := tree
    cases hasError with
    | true => cases hd
    | false =>
      cases root with
      | none => cases hd
      | some root => exact .inr ⟨root, rfl, hd⟩

/-- The class-likes of an outcome are those of a file that is held, or of the tree that was read. -/
theorem mem_declared_indexFile {r : Registry} {disk : Files.Disk} {path : String} {d : ClassDecl}
    (hd : d ∈ declared (r.indexFile disk path).outcome) :
    (∃ ds, r.files.find? (disk.absolute path) = some ds ∧ d ∈ ds) ∨
      ∃ root ∈ disk.tree? path, d ∈ Declaration.classesOf (disk.absolute path) root := by
  rw [Files.Disk.absolute, Files.Disk.tree?]
  rw [indexFile] at hd
  cases hfiles : r.files.find? (Files.Path.absolute disk.workingDirectory path).render with
  | some ds =>
    rw [hfiles] at hd
    exact .inl ⟨ds, rfl, hd⟩
  | none =>
    cases hfailed : r.failed.find? (Files.Path.absolute disk.workingDirectory path).render with
    | some fault =>
      rw [hfiles, hfailed] at hd
      cases hd
    | none =>
      simp only [hfiles, hfailed] at hd
      split at hd
      · cases hd
      · cases hopen : disk.open? (Files.Path.absolute disk.workingDirectory path) with
        | error fault =>
          rw [hopen] at hd
          cases hd
        | ok file =>
          rw [hopen] at hd
          cases htext : file.text with
          | error fault =>
            simp only [htext] at hd
            cases hd
          | ok source =>
            simp only [htext] at hd
            cases mem_declared_indexTree hd with
            | inl hheld =>
              obtain ⟨ds, hds, _⟩ := hheld
              rw [hfiles] at hds
              cases hds
            | inr hread =>
              obtain ⟨root, hroot, hd⟩ := hread
              refine .inr ⟨root, ?_, hd⟩
              show root ∈ file.text.toOption.bind _
              rw [htext]
              exact hroot

theorem files_eq_of_takes {r r' : Registry} {key : String} {o : Except IndexFault (List ClassDecl)}
    (h : r.Takes key r' o) {k : String} {ds : List ClassDecl} (hk : r'.files.find? k = some ds) :
    r.files.find? k = some ds ∨ o = .ok ds := by
  cases h with
  | kept _ => exact .inl hk
  | failedBefore _ _ => exact .inl hk
  | nullByte _ _ _ => exact .inl hk
  | fails _ _ => exact .inl hk
  | reads _ ds' _ =>
    by_cases hkey : key = k
    · subst hkey
      rw [Table.find?_set_self] at hk
      exact .inr (congrArg Except.ok (Option.some.inj hk))
    · rw [Table.find?_set_of_ne hkey] at hk
      exact .inl hk

def PlainFiles (r : Registry) : Prop :=
  ∀ key ds, r.files.find? key = some ds → ∀ d ∈ ds, Unslashed d.name

theorem plainFiles_empty : PlainFiles {} := by
  intro key ds h
  cases h

section

variable {r : Registry} {disk : Files.Disk}

theorem unslashed_of_indexFile (hr : r.PlainFiles) {path : String}
    (htree : ∀ root ∈ disk.tree? path, root.PlainNames) :
    ∀ d ∈ declared (r.indexFile disk path).outcome, Unslashed d.name := by
  intro d hd
  cases mem_declared_indexFile hd with
  | inl hheld =>
    obtain ⟨ds, hds, hd⟩ := hheld
    exact hr _ ds hds d hd
  | inr hread =>
    obtain ⟨root, hroot, hd⟩ := hread
    exact Declaration.unslashed_of_mem_classesOf (htree root hroot) hd

theorem plainFiles_indexFile (hr : r.PlainFiles) {path : String}
    (htree : ∀ root ∈ disk.tree? path, root.PlainNames) :
    (r.indexFile disk path).registry.PlainFiles := by
  intro key ds hds d hd
  cases files_eq_of_takes (r.takes_indexFile disk path) hds with
  | inl hheld => exact hr key ds hheld d hd
  | inr hnew =>
    apply unslashed_of_indexFile hr htree
    rw [hnew]
    exact hd

theorem unslashed_of_outcomes (hr : r.PlainFiles) {paths : List String}
    (htrees : ∀ path ∈ paths, ∀ root ∈ disk.tree? path, root.PlainNames) :
    ∀ d ∈ (r.outcomes (Visit.files disk paths)).flatMap declared, Unslashed d.name := by
  induction paths generalizing r with
  | nil => simp [Visit.files, outcomes]
  | cons path paths ih =>
    rw [List.forall_mem_cons] at htrees
    intro d hd
    cases List.mem_append.1 (List.flatMap_cons ▸ hd) with
    | inl hfirst => exact unslashed_of_indexFile hr htrees.1 d hfirst
    | inr hrest => exact ih (plainFiles_indexFile hr htrees.1) htrees.2 d hrest

end

/-- The class of every name that a scan finds is registered, be it by this or by an earlier
declaration. -/
theorem exists_class?_of_discovered {disk : Files.Disk} {s : Settings} (hplain : disk.PlainNames s)
    {name : String}
    (hname : name ∈ classNames ((outcomes {} (Files.visits disk s)).flatMap declared)) :
    ∃ d, (run {} (Files.visits disk s)).class? name = some d := by
  obtain ⟨d, hd, rfl⟩ := List.mem_map.1 hname
  have hmem := (List.mem_filter.1 hd).1
  have hunslashed := unslashed_of_outcomes plainFiles_empty hplain d hmem
  rw [← Option.isSome_iff_exists, class?, nameKey_of_unslashed hunslashed,
    find?_run held_empty, Option.isSome_or, Bool.or_eq_true]
  exact .inr (List.find?_isSome.2 ⟨d, hmem, decide_eq_true rfl⟩)

end Registry

end ContractCheck
