import ContractCheck.Proofs.Syntax.Rows
import ContractCheck.Registry.Indexing
import Mathlib.Data.List.Chain
import Mathlib.Order.Bounds.Basic

/-!
The line that a syntax error names. Main statement: where the nodes of a tree follow each other in the
source, it is the earliest line on which one of its faults starts.
-/
namespace ContractCheck

namespace Syntax

namespace Node

theorem preorderAll_append (skip : String → Bool) (as bs : List Node) :
    preorderAll skip (as ++ bs) = preorderAll skip as ++ preorderAll skip bs := by
  induction as with
  | nil => rfl
  | cons a as ih => rw [List.cons_append, preorderAll, ih, preorderAll, List.append_assoc]

theorem preorder_eq (skip : String → Bool) (n : Node) :
    n.preorder skip = n :: preorderAll skip n.children := by
  cases n
  rfl

/-- Where nothing is skipped, a node is followed by all that is in it, and then by the rest. -/
theorem preorderAll_cons (n : Node) (ns : List Node) :
    preorderAll (fun _ => false) (n :: ns) =
      n :: (preorderAll (fun _ => false) n.children ++ preorderAll (fun _ => false) ns) := by
  rw [preorderAll, if_neg Bool.false_ne_true, preorder_eq, List.cons_append]

/-- What a search with a stack comes to first is what comes first in document order. -/
theorem searchStack_eq_find? (p : Node → Bool) (stack : List Node) :
    searchStack p stack = (preorderAll (fun _ => false) stack).find? p := by
  fun_induction searchStack p stack with
  | case1 => rfl
  | case2 n stack hp => rw [preorderAll_cons, List.find?_cons_of_pos hp]
  | case3 n stack hp ih =>
    rw [ih, preorderAll_append, preorderAll_cons, List.find?_cons_of_neg hp]

theorem faultLine_eq (n : Node) :
    n.faultLine = (((n.preorder fun _ => false).find? isFault).getD n).startLine := by
  rw [faultLine, searchStack_eq_find?, preorderAll_cons, preorderAll, List.append_nil, preorder_eq]

end Node

namespace RowTree

/-- No child starts before its parent, nor before the end of its preceding sibling. -/
def InOrder (t : RowTree) : Prop :=
  ∀ m ∈ t.nodes, (∀ c ∈ m.children, m.start ≤ c.start) ∧
    m.children.IsChain fun c d => c.stop ≤ d.start

instance (t : RowTree) : Decidable t.InOrder :=
  inferInstanceAs (Decidable (∀ m ∈ t.nodes, _ ∧ _))

structure Regular (m : RowTree) : Prop where
  start_le_stop : m.start ≤ m.stop
  start_le : ∀ c ∈ m.children, m.start ≤ c.start
  stop_le : ∀ c ∈ m.children, c.stop ≤ m.stop
  chain : m.children.IsChain fun c d => c.stop ≤ d.start

mutual

theorem stop_le_of_mem_nodes : (t : RowTree) → (∀ m ∈ t.nodes, m.Regular) → ∀ m ∈ t.nodes,
    m.stop ≤ t.stop
  | mk row children, h, m, hm => by
    rw [nodes, List.forall_mem_cons] at h
    rw [nodes, List.mem_cons] at hm
    obtain rfl | hm := hm
    · exact Nat.le_refl _
    · obtain ⟨c, hc, hstop⟩ := exists_stop_le_of_mem_nodesIn children h.2 m hm
      exact Nat.le_trans hstop (h.1.stop_le c hc)

theorem exists_stop_le_of_mem_nodesIn : (ts : List RowTree) → (∀ m ∈ nodesIn ts, m.Regular) →
    ∀ m ∈ nodesIn ts, ∃ t ∈ ts, m.stop ≤ t.stop
  | t :: ts, h, m, hm => by
    rw [nodesIn, List.forall_mem_append] at h
    rw [nodesIn, List.mem_append] at hm
    obtain hm | hm := hm
    · exact ⟨t, List.mem_cons_self, stop_le_of_mem_nodes t h.1 m hm⟩
    · obtain ⟨u, hu, hstop⟩ := exists_stop_le_of_mem_nodesIn ts h.2 m hm
      exact ⟨u, List.mem_cons_of_mem _ hu, hstop⟩

end

mutual

/-- In document order no node starts before the one in front of it. -/
theorem pairwise_nodes : (t : RowTree) → (∀ m ∈ t.nodes, m.Regular) →
    t.nodes.Pairwise fun a b => a.start ≤ b.start
  | mk row children, h => by
    rw [nodes, List.forall_mem_cons] at h
    obtain ⟨hroot, hbelow⟩ := h
    have hfirst : ∀ c ∈ children.head?, (mk row children).start ≤ c.start :=
      fun c hc => hroot.start_le c (List.mem_of_mem_head? hc)
    obtain ⟨hsorted, hafter⟩ := pairwise_nodesIn children hbelow hroot.chain hfirst
    rw [nodes]
    exact .cons hafter hsorted

-- The bound is the start of the parent for the first sibling and the end of the one in front for the
-- others, so that no two siblings need to be compared that do not stand side by side.
theorem pairwise_nodesIn {bound : Nat} : (ts : List RowTree) → (∀ m ∈ nodesIn ts, m.Regular) →
    ts.IsChain (fun c d => c.stop ≤ d.start) → (∀ t ∈ ts.head?, bound ≤ t.start) →
    (nodesIn ts).Pairwise (fun a b => a.start ≤ b.start) ∧ ∀ m ∈ nodesIn ts, bound ≤ m.start
  | [], _, _, _ => by simp [nodesIn]
  | t :: ts, h, hchain, hbound => by
    rw [nodesIn, List.forall_mem_append] at h
    rw [List.isChain_cons] at hchain
    have hfront := pairwise_nodes t h.1
    obtain ⟨hback, hafter⟩ := pairwise_nodesIn ts h.2 hchain.2 hchain.1
    have hle : bound ≤ t.start := hbound t rfl
    have hextent : t.start ≤ t.stop := (h.1 t (mem_nodes_self t)).start_le_stop
    have hinside : ∀ m ∈ t.nodes, t.start ≤ m.start := by
      rw [nodes_eq, List.pairwise_cons] at hfront
      rw [nodes_eq, List.forall_mem_cons]
      exact ⟨Nat.le_refl _, hfront.1⟩
    rw [nodesIn, List.pairwise_append, List.forall_mem_append]
    refine ⟨⟨hfront, hback, ?_⟩, ?_, ?_⟩
    · intro a ha b hb
      calc a.start ≤ a.stop := (h.1 a ha).start_le_stop
        _ ≤ t.stop := stop_le_of_mem_nodes t h.1 a ha
        _ ≤ b.start := hafter b hb
    · intro m hm
      exact Nat.le_trans hle (hinside m hm)
    · intro m hm
      exact Nat.le_trans (Nat.le_trans hle hextent) (hafter m hm)

end

/-- Of nodes that start one after the other, the first with a property starts no later than any
other with it. -/
theorem start_le_of_find? {p : RowTree → Bool} {ts : List RowTree} {t m : RowTree}
    (hsorted : ts.Pairwise fun a b => a.start ≤ b.start) (ht : ts.find? p = some t) (hm : m ∈ ts)
    (hp : p m = true) : t.start ≤ m.start := by
  obtain ⟨-, front, back, rfl, hfront⟩ := List.find?_eq_some_iff_append.1 ht
  rw [List.mem_append, List.mem_cons] at hm
  obtain hm | rfl | hm := hm
  · have hnot := hfront m hm
    rw [hp] at hnot
    cases hnot
  · exact Nat.le_refl _
  · exact (List.pairwise_cons.1 (List.pairwise_append.1 hsorted).2.1).1 m hm

end RowTree

/-- A parse of a source. It is assumed of the parser that each node covers a stretch of the source,
which may be empty, and ends no sooner than its children. -/
structure ParseTree (source : String) where
  root : RowTree
  stretches : ∀ m ∈ root.nodes, m.start ≤ m.stop ∧ m.stop ≤ source.utf8ByteSize
  enclosing : ∀ m ∈ root.nodes, ∀ c ∈ m.children, c.stop ≤ m.stop

namespace ParseTree

variable {source : String} (t : ParseTree source)

/-- The lines on which faults start, counted from zero. -/
def faultLines : Set Nat :=
  {line | ∃ m ∈ t.root.nodes, m.isFault = true ∧ line = lineAt source m.start}

theorem regular (h : t.root.InOrder) : ∀ m ∈ t.root.nodes, m.Regular := by
  intro m hm
  obtain ⟨hstart, hchain⟩ := h m hm
  exact ⟨(t.stretches m hm).1, hstart, t.enclosing m hm, hchain⟩

/-- The first fault in document order is the one whose line is told. -/
theorem faultLine_of_find? {m : RowTree} (hm : t.root.nodes.find? RowTree.isFault = some m) :
    (t.root.node source).faultLine = lineAt source m.start + 1 := by
  have hsame : Node.isFault ∘ RowTree.node source = RowTree.isFault :=
    funext (RowTree.isFault_node source)
  have hstretch := t.stretches m (List.mem_of_find?_eq_some hm)
  rw [Node.faultLine_eq, RowTree.preorder_node, List.find?_map, hsame, hm, Option.map_some,
    Option.getD_some, RowTree.startLine_node source (Nat.le_trans hstretch.1 hstretch.2)]

theorem isLeast_of_find? (h : t.root.InOrder) {m : RowTree}
    (hm : t.root.nodes.find? RowTree.isFault = some m) :
    IsLeast t.faultLines (lineAt source m.start) := by
  have hsorted := RowTree.pairwise_nodes t.root (t.regular h)
  constructor
  · exact ⟨m, List.mem_of_find?_eq_some hm, List.find?_some hm, rfl⟩
  · rintro _ ⟨n, hn, hfault, rfl⟩
    exact lineAt_mono (RowTree.start_le_of_find? hsorted hm hn hfault)

end ParseTree

end Syntax

namespace Registry

open Syntax (ParseTree RowTree Tree lineAt)

/-- A source that has faults fails, unless its key is taken, with the earliest line on which one of
them starts, counted from one. Of the parser this assumes that nodes lie within the source, end no
sooner than their children, and follow each other in it. -/
theorem fault_line_is_earliest {source : String} (t : ParseTree source)
    (hordered : t.root.InOrder) (hfault : ∃ m ∈ t.root.nodes, m.isFault = true) :
    ∃ first, IsLeast t.faultLines first ∧
      (Tree.ofRows source true t.root.rows).root.map (·.faultLine) = some (first + 1) ∧
      ∀ (r : Registry) (key : String), r.files.find? key = none →
        ∃ fault, (r.indexTree key (Tree.ofRows source true t.root.rows)).outcome = .error fault ∧
          fault.message = key ++ ": syntax error near line " ++ toString (first + 1) := by
  obtain ⟨m, hm⟩ := Option.isSome_iff_exists.1 (List.find?_isSome.2 hfault)
  have hline := t.faultLine_of_find? hm
  refine ⟨lineAt source m.start, t.isLeast_of_find? hordered hm, ?_, ?_⟩
  · rw [RowTree.ofRows_rows, Option.map_some, hline]
  · intro r key hnew
    refine ⟨.syntaxError key (lineAt source m.start + 1), ?_, rfl⟩
    rw [RowTree.ofRows_rows, indexTree, hnew, ← hline]
    rfl

end Registry

namespace Sample

open Syntax (ParseTree RowTree Tree lineAt)

def part (kind field : String) (start stop : Nat) (children : List RowTree) : RowTree :=
  .mk { kind, named := true, field, start, stop, childCount := 0 } children

def token (kind : String) (start stop : Nat) : RowTree :=
  .mk { kind, named := false, field := "", start, stop, childCount := 0 } []

def missingToken (kind : String) (offset : Nat) : RowTree :=
  .mk { kind, named := false, field := "", start := offset, stop := offset, childCount := 0,
        missing := true } []

def unclosedSource : String :=
  "<?php\nclass A \x7b\n    public function f( \x7b\n\x7d\n"

/-- The parser adds a parenthesis on the third line and a brace on the fourth. -/
def unclosedClass : ParseTree unclosedSource where
  root :=
    part "program" "" 0 43 [
      part "php_tag" "" 0 5 [],
      part "class_declaration" "" 6 42 [
        token "class" 6 11,
        part "name" "name" 12 13 [],
        part "declaration_list" "body" 14 42 [
          token "\x7b" 14 15,
          part "method_declaration" "" 20 42 [
            part "visibility_modifier" "" 20 26 [token "public" 20 26],
            token "function" 27 35,
            part "name" "name" 36 37 [],
            part "formal_parameters" "parameters" 37 38 [token "(" 37 38, missingToken ")" 38],
            part "compound_statement" "body" 39 42 [token "\x7b" 39 40, token "\x7d" 41 42]],
          missingToken "\x7d" 42]]]
  stretches := by decide +kernel
  enclosing := by decide +kernel

theorem fault_line_of_unclosedClass :
    unclosedClass.root.InOrder ∧ (∃ m ∈ unclosedClass.root.nodes, m.isFault = true) ∧
      IsLeast unclosedClass.faultLines 2 ∧
      ∃ fault, (Registry.indexTree {} "<memory>"
          (Tree.ofRows unclosedSource true unclosedClass.root.rows)).outcome = .error fault ∧
        fault.message = "<memory>: syntax error near line 3" := by
  have hordered : unclosedClass.root.InOrder := by decide +kernel
  have hfault : ∃ m ∈ unclosedClass.root.nodes, m.isFault = true := by decide +kernel
  have hthird : ∃ m ∈ unclosedClass.root.nodes,
      m.isFault = true ∧ 2 = lineAt unclosedSource m.start := by decide +kernel
  have hlater : ∀ m ∈ unclosedClass.root.nodes,
      m.isFault = true → 2 ≤ lineAt unclosedSource m.start := by decide +kernel
  have hleast : IsLeast unclosedClass.faultLines 2 := by
    refine ⟨hthird, ?_⟩
    rintro _ ⟨m, hm, hmfault, rfl⟩
    exact hlater m hm hmfault
  obtain ⟨first, hfirst, -, hindex⟩ :=
    Registry.fault_line_is_earliest unclosedClass hordered hfault
  obtain rfl : first = 2 := hfirst.unique hleast
  obtain ⟨fault, houtcome, hmessage⟩ := hindex {} "<memory>" rfl
  exact ⟨hordered, hfault, hleast, fault, houtcome, hmessage.trans (by decide +kernel)⟩

/-- That nodes enclose their children cannot be left out: a fault that goes on after its parent has
ended may start after the next sibling of the parent, and is found first all the same. -/
theorem overhanging_child_hides_earlier_fault :
    ∃ (source : String) (t : RowTree), t.InOrder ∧
      (∀ m ∈ t.nodes, m.start ≤ m.stop ∧ m.stop ≤ source.utf8ByteSize) ∧
      ∃ m ∈ t.nodes, m.isFault = true ∧ lineAt source m.start + 1 < (t.node source).faultLine := by
  refine ⟨"\n\n", part "program" "" 0 2
    [part "name" "" 0 0 [missingToken ")" 2], missingToken ";" 1], ?_⟩
  rw [Syntax.Node.faultLine_eq]
  decide +kernel

end Sample

end ContractCheck
