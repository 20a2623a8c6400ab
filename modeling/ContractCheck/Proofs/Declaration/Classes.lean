import ContractCheck.Proofs.Declaration.Blocks
import ContractCheck.Proofs.Lists
import ContractCheck.Proofs.Sample

/-!
The class-likes of a source. Main statement: indexing a source finds each class-like that stands in a
region, directly or inside containers, once. It is named in the namespace of the region, and shares
the imports of the whole region.
-/
namespace ContractCheck

open Syntax (Node Position)
open Syntax.Node (Reached reached reachedIn)

namespace Declaration

def nests (n c : Node) : Bool :=
  isContainer n.kind && c.info.named

def isItem (n : Node) : Bool :=
  isUse n || (classKind? n.kind).isSome

theorem isContainer_of_isItem {n : Node} (h : isItem n = true) : isContainer n.kind = false := by
  rw [isItem, Bool.or_eq_true] at h
  rcases h with h | h
  · rw [isUse, beq_iff_eq] at h
    rw [h]
    decide
  · unfold classKind? at h
    split at h
    all_goals
      first
        | rename_i hkind
          rw [hkind]
          decide
        | cases h

theorem isItem_and_not_isUse_iff {n : Node} :
    isItem n = true ∧ isUse n = false ↔ (classKind? n.kind).isSome = true := by
  constructor
  · rintro ⟨hitem, huse⟩
    rwa [isItem, huse, Bool.false_or] at hitem
  · intro hkind
    refine ⟨by rw [isItem, hkind, Bool.or_true], ?_⟩
    -- the kind of a use declaration is none of a class-like
    by_contra huse
    rw [Bool.not_eq_false, isUse, beq_iff_eq] at huse
    rw [huse] at hkind
    exact absurd hkind (by decide)

mutual

theorem items_eq : (n : Node) → items n = ((reached nests n).filter (isItem ·.2)).map (·.2)
  | .mk info children => by
    have hcond : (info.kind == "namespace_use_declaration" || (classKind? info.kind).isSome) =
        isItem (.mk info children) := rfl
    rw [items, reached, List.filter_cons, hcond]
    by_cases hitem : isItem (.mk info children) = true
    · have hnone : reachedIn nests (nests (.mk info children)) 0 children = [] := by
        apply Node.reachedIn_eq_nil
        intro c
        rw [nests, isContainer_of_isItem hitem, Bool.false_and]
      rw [if_pos hitem, if_pos hitem, hnone]
      rfl
    · rw [if_neg hitem, if_neg hitem]
      cases hcontainer : isContainer info.kind with
      | true =>
        rw [if_pos rfl]
        apply itemsIn_eq children
        intro c
        rw [nests, Node.kind, Node.info, hcontainer, Bool.true_and]
      | false =>
        have hnone : reachedIn nests (nests (.mk info children)) 0 children = [] := by
          apply Node.reachedIn_eq_nil
          intro c
          rw [nests, Node.kind, Node.info, hcontainer, Bool.false_and]
        rw [if_neg (by simp), hnone]
        rfl

theorem itemsIn_eq : (ns : List Node) → {allowed : Node → Bool} →
    (hallowed : ∀ c, allowed c = c.info.named) → {i : Nat} →
    itemsIn ns = ((reachedIn nests allowed i ns).filter (isItem ·.2)).map (·.2)
  | [], _, _, _ => rfl
  | n :: ns, allowed, hallowed, i => by
    rw [itemsIn, reachedIn, List.filter_append, List.map_append, itemsIn_eq ns hallowed, hallowed]
    congr 1
    split
    · rw [items_eq n, List.filter_map, List.map_map]
      rfl
    · rfl

end

def Stands (root : Node) (g : Region) (p : Position) (n : Node) : Prop :=
  ∃ q t m, Statement root g q m ∧ Reached nests m t n ∧ p = q ++ t

section

variable {root n n' : Node} {g g' : Region} {p : Position}

theorem Stands.at? (h : Stands root g p n) : root.at? p = some n := by
  obtain ⟨q, t, m, hstatement, hreached, rfl⟩ := h
  rw [Node.at?_append, hstatement.at?, Option.bind_some, hreached.at?]

/-- A place belongs to one region. -/
theorem Stands.region_eq (h : Stands root g p n) (h' : Stands root g' p n') : g = g' := by
  obtain ⟨q, t, m, hstatement, _, rfl⟩ := h
  obtain ⟨q', t', m', hstatement', _, heq⟩ := h'
  apply hstatement.region_eq hstatement'
  have hhead := congrArg List.head? heq
  cases hstatement <;> cases hstatement' <;> exact hhead

end

def Merged (root : Node) (g : Region) (imports : Imports) : Prop :=
  ∃ uses : List (Position × Node), uses.Pairwise (fun a b => a.1.Before b.1) ∧
    (∀ p n, (p, n) ∈ uses ↔ Stands root g p n ∧ isUse n = true) ∧
    imports = uses.foldl (fun acc u => acc.update (Imports.parse u.2.text)) {}

def Part.items (part : Part) : List Occurrence :=
  part.statements.flatMap fun s => ((reached nests s.node).filter (isItem ·.2)).map fun e =>
    ⟨part.region, s.position ++ e.1, e.2⟩

def Part.classLikes (part : Part) : List Occurrence :=
  (part.items.filter (!isUse ·.node)).filter fun o => (o.node.field? "name").isSome

section

variable {root : Node} {part : Part}

theorem map_node_items (part : Part) :
    part.items.map (·.node) = (part.block root).statements.flatMap items := by
  rw [Part.items, Part.block, List.map_flatMap, List.flatMap_map]
  apply List.flatMap_congr
  intro s _
  rw [List.map_map, items_eq]
  rfl

theorem mem_items_iff (hpart : part ∈ regions root) {o : Occurrence} :
    o ∈ part.items ↔ o.region = part.region ∧ Stands root part.region o.position o.node ∧
      isItem o.node = true := by
  obtain ⟨g, p, n⟩ := o
  simp only [Part.items, List.mem_flatMap, List.mem_map, List.mem_filter]
  constructor
  · rintro ⟨s, hs, e, ⟨he, hitem⟩, heq⟩
    cases heq
    obtain ⟨_, hstatement⟩ := (mem_statements_iff hpart).1 hs
    exact ⟨rfl, ⟨_, _, _, hstatement, Node.mem_reached_iff.1 he, rfl⟩, hitem⟩
  · rintro ⟨rfl, ⟨q, t, m, hstatement, hreached, rfl⟩, hitem⟩
    exact ⟨⟨part.region, q, m⟩, (mem_statements_iff hpart).2 ⟨rfl, hstatement⟩, (t, n),
      ⟨Node.mem_reached_iff.2 hreached, hitem⟩, rfl⟩

theorem pairwise_items (hpart : part ∈ regions root) :
    part.items.Pairwise fun a b => a.position.Before b.position := by
  rw [Part.items, List.pairwise_flatMap]
  constructor
  · intro s _
    rw [List.pairwise_map]
    exact ((Node.pairwise_reached s.node).filter _).imp fun h => Position.Before.inside h s.position
  · refine (pairwise_statements hpart).imp_of_mem ?_
    intro a b ha hb h x hx y hy
    obtain ⟨e, _, rfl⟩ := List.mem_map.1 hx
    obtain ⟨e', _, rfl⟩ := List.mem_map.1 hy
    obtain ⟨_, hstatement⟩ := (mem_statements_iff hpart).1 ha
    obtain ⟨_, hstatement'⟩ := (mem_statements_iff hpart).1 hb
    exact h.append (hstatement.length_eq hstatement') e.1 e'.1

/-- A block has the imports of its region. -/
theorem merged_imports (hpart : part ∈ regions root) :
    Merged root part.region (part.block root).imports := by
  refine ⟨(part.items.filter (isUse ·.node)).map fun o => (o.position, o.node), ?_, ?_, ?_⟩
  · rw [List.pairwise_map]
    exact (pairwise_items hpart).filter _
  · intro p n
    simp only [List.mem_map, List.mem_filter, Prod.mk.injEq]
    constructor
    · rintro ⟨o, ⟨ho, huse⟩, rfl, rfl⟩
      exact ⟨((mem_items_iff hpart).1 ho).2.1, huse⟩
    · rintro ⟨hstands, huse⟩
      refine ⟨⟨part.region, p, n⟩, ⟨(mem_items_iff hpart).2 ⟨rfl, hstands, ?_⟩, huse⟩, rfl, rfl⟩
      rw [isItem, huse, Bool.true_or]
  · rw [Block.imports, ← map_node_items, List.filter_map, List.foldl_map, List.foldl_map]
    rfl

theorem mem_classLikes_iff (hpart : part ∈ regions root) {o : Occurrence} :
    o ∈ part.classLikes ↔ o.region = part.region ∧ Stands root part.region o.position o.node ∧
      (classKind? o.node.kind).isSome = true ∧ (o.node.field? "name").isSome = true := by
  rw [Part.classLikes, List.mem_filter, List.mem_filter, mem_items_iff hpart, Bool.not_eq_true',
    ← isItem_and_not_isUse_iff]
  tauto

end

/-- What is read of a class-like: its name in the namespace of its region, and the imports of the
region. -/
structure ReadAs (root : Node) (path : String) (o : Occurrence) (d : ClassDecl) : Prop where
  name : ∃ simple, o.node.field? "name" = some simple ∧
    d.name = qualify (o.region.namespaceName root) simple.text
  kind : classKind? o.node.kind = some d.kind
  namespaceName : d.namespaceName = o.region.namespaceName root
  imports : Merged root o.region d.imports
  location : d.location = locate path o.node

section

variable {root : Node} {part : Part}

theorem forall₂_classes (hpart : part ∈ regions root) (path : String) :
    List.Forall₂ (ReadAs root path) part.classLikes ((part.block root).classes path) := by
  rw [Part.classLikes, Block.classes, Block.classNodes, ← map_node_items, List.filter_map,
    List.filterMap_map]
  apply forall₂_filterMap
  intro o ho
  obtain ⟨hitem, huse⟩ := List.mem_filter.1 ho
  obtain ⟨hregion, _, hitem⟩ := (mem_items_iff hpart).1 hitem
  rw [Bool.not_eq_true'] at huse
  obtain ⟨kind, hkind⟩ := Option.isSome_iff_exists.1 (isItem_and_not_isUse_iff.1 ⟨hitem, huse⟩)
  show (_ ∧ readClass path _ _ o.node = none) ∨ (_ ∧ ∃ d, readClass path _ _ o.node = some d ∧ _)
  cases hname : o.node.field? "name" with
  | none =>
    refine .inl ⟨rfl, ?_⟩
    rw [readClass, hname]
    rfl
  | some simple =>
    refine .inr ⟨rfl, ?_⟩
    rw [readClass, hname, hkind]
    refine ⟨_, rfl, ⟨simple, hname, ?_⟩, hkind, ?_, ?_, rfl⟩
    · rw [hregion]
      rfl
    · rw [hregion]
      rfl
    · rw [hregion]
      exact merged_imports hpart

/-- Blocks without statements have no class-likes, so it does not matter that they are dropped. -/
theorem classesOf_eq (path : String) (root : Node) :
    classesOf path root = (regions root).flatMap fun part => (part.block root).classes path := by
  rw [classesOf, blocks, blocksFrom_eq_regions]
  induction regions root with
  | nil => rfl
  | cons part rest ih =>
    rw [List.map_cons, List.filter_cons, List.flatMap_cons, ← ih]
    cases hempty : (part.block root).statements with
    | nil =>
      have hnone : (part.block root).classes path = [] := by
        rw [Block.classes, Block.classNodes, hempty]
        rfl
      rw [hnone]
      rfl
    | cons n ns => rfl

end

structure DeclaredAt (root : Node) (o : Occurrence) : Prop where
  stands : Stands root o.region o.position o.node
  classLike : (classKind? o.node.kind).isSome = true
  named : (o.node.field? "name").isSome = true

def classLikes (root : Node) : List Occurrence :=
  (regions root).flatMap (·.classLikes)

theorem mem_classLikes_iff_declaredAt {root : Node} {o : Occurrence} :
    o ∈ classLikes root ↔ DeclaredAt root o := by
  rw [classLikes, List.mem_flatMap]
  constructor
  · rintro ⟨part, hpart, ho⟩
    obtain ⟨hregion, hstands, hkind, hname⟩ := (mem_classLikes_iff hpart).1 ho
    exact ⟨hregion ▸ hstands, hkind, hname⟩
  · rintro ⟨hstands, hkind, hname⟩
    obtain ⟨q, t, m, hstatement, _⟩ := id hstands
    obtain ⟨part, hpart, hregion⟩ := exists_region_of_statement hstatement
    exact ⟨part, hpart, (mem_classLikes_iff hpart).2 ⟨hregion.symm, hregion ▸ hstands, hkind, hname⟩⟩

/-- No place is listed twice, and inside a region the order is that of the source. -/
theorem pairwise_classLikes (root : Node) : (classLikes root).Pairwise fun a b =>
    a.position ≠ b.position ∧ (a.region = b.region → a.position.Before b.position) := by
  rw [classLikes, List.pairwise_flatMap]
  constructor
  · intro part hpart
    exact (((pairwise_items hpart).filter _).filter _).imp fun h => ⟨h.ne, fun _ => h⟩
  · have hdistinct := nodup_regions (Remaining.start root).ascending []
    rw [List.Nodup, List.pairwise_map] at hdistinct
    refine hdistinct.imp_of_mem ?_
    intro part part' hpart hpart' hne a ha b hb
    obtain ⟨hregion, hstands, _⟩ := (mem_classLikes_iff hpart).1 ha
    obtain ⟨hregion', hstands', _⟩ := (mem_classLikes_iff hpart').1 hb
    constructor
    · intro heq
      rw [← heq] at hstands'
      exact hne (hstands.region_eq hstands')
    · intro heq
      rw [hregion, hregion'] at heq
      exact absurd heq hne

end Declaration

namespace Registry

open Declaration

/-- A source without errors, indexed under a new key: its class-likes are those with a name that
stand in a region of the program, each place once. -/
theorem class_likes_indexed_once {r : Registry} {key : String} {tree : Syntax.Tree} {root : Node}
    (hnew : r.files.find? key = none) (herror : tree.hasError = false)
    (hroot : tree.root = some root) :
    ∃ classes found, (r.indexTree key tree).outcome = .ok classes ∧
      (r.indexTree key tree).registry.files.find? key = some classes ∧
      (∀ o, o ∈ found ↔ DeclaredAt root o) ∧
      (∀ o ∈ found, root.at? o.position = some o.node) ∧
      (found.Pairwise fun a b =>
        a.position ≠ b.position ∧ (a.region = b.region → a.position.Before b.position)) ∧
      List.Forall₂ (ReadAs root key) found classes := by
  refine ⟨classesOf key root, Declaration.classLikes root, ?_, ?_,
    fun o => mem_classLikes_iff_declaredAt, ?_, pairwise_classLikes root, ?_⟩
  · simp [indexTree, hnew, herror, hroot]
  · simp [indexTree, hnew, herror, hroot, Table.find?_set_self]
  · intro o ho
    exact (mem_classLikes_iff_declaredAt.1 ho).stands.at?
  · rw [classesOf_eq]
    exact forall₂_flatMap fun part hpart => forall₂_classes hpart key

def mixedProgram : Node :=
  Sample.program [
    Sample.classLike "class_declaration" "G" [] [] [],
    Sample.node "namespace_definition" "" "" [Sample.node "namespace_name" "name" "A" []],
    Sample.classLike "class_declaration" "B" [] [] [],
    Sample.node "namespace_definition" "" "" [Sample.node "namespace_name" "name" "C" [],
      Sample.node "compound_statement" "body" "" [
        Sample.node "namespace_use_declaration" "" "use X\\Y;" [],
        Sample.classLike "enum_declaration" "D" [] [] []]],
    Sample.node "if_statement" "" "" [
      Sample.node "compound_statement" "body" "" [Sample.classLike "trait_declaration" "T" [] [] []],
      Sample.node "else_clause" "alternative" "" [
        Sample.node "namespace_use_declaration" "" "use P\\Q as R;" []]]]

def mixedTree : Syntax.Tree := ⟨false, some mixedProgram⟩

theorem class_likes_indexed_once_mixed :
    ∃ classes found, (indexTree {} "m.php" mixedTree).outcome = .ok classes ∧
      classes.map (·.name) = ["G", "C\\D", "A\\B", "A\\T"] ∧
      classes.map (·.imports.entries) =
        [[], [("Y", "X\\Y")], [("R", "P\\Q")], [("R", "P\\Q")]] ∧
      (∀ o, o ∈ found ↔ DeclaredAt mixedProgram o) ∧
      List.Forall₂ (ReadAs mixedProgram "m.php") found classes := by
  have hread : ((indexTree {} "m.php" mixedTree).outcome.toOption.map fun ds =>
      (ds.map (·.name), ds.map (·.imports.entries))) =
      some (["G", "C\\D", "A\\B", "A\\T"],
        [[], [("Y", "X\\Y")], [("R", "P\\Q")], [("R", "P\\Q")]]) := by
    decide +kernel
  have hnew : Table.find? ({} : Registry).files "m.php" = none := rfl
  have hroot : mixedTree.root = some mixedProgram := rfl
  obtain ⟨classes, found, houtcome, _, hfound, _, _, hclasses⟩ :=
    class_likes_indexed_once hnew rfl hroot
  rw [houtcome] at hread
  obtain ⟨hnames, himports⟩ := Prod.mk.inj (Option.some.inj hread)
  exact ⟨classes, found, houtcome, hnames, himports, hfound, hclasses⟩

end Registry

end ContractCheck
