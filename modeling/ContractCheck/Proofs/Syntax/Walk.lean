import ContractCheck.Proofs.Syntax.Positions
import ContractCheck.Syntax.Walk
import Mathlib.Logic.Function.Iterate

/-!
The walk with a stack. Main statement: it comes to an end and is the recursive traversal, that is, it
visits in document order each place below the start that is not cut off by a skipped node, and the
start itself.
-/
namespace ContractCheck.Syntax

namespace Node

def unskipped (skip : String → Bool) (_ m : Node) : Bool :=
  !skip m.kind

/-- A place that is not cut off: below the start, no node on the way to it, itself included, is of a
skipped kind. -/
def Survives (skip : String → Bool) (n : Node) (p : Position) : Prop :=
  (n.at? p).isSome = true ∧
    ∀ q m, q ≠ [] → q <+: p → n.at? q = some m → skip m.kind = false

variable {skip : String → Bool}

theorem exists_reached_iff {n : Node} {p : Position} :
    (∃ m, Reached (unskipped skip) n p m) ↔ n.Survives skip p := by
  induction p generalizing n with
  | nil =>
    refine iff_of_true ⟨n, .here n⟩ ⟨rfl, ?_⟩
    intro q m hq hle
    exact absurd (List.prefix_nil.1 hle) hq
  | cons i p ih =>
    constructor
    · rintro ⟨m, h⟩
      obtain ⟨c, hc, hallowed, h⟩ := reached_cons_iff.1 h
      obtain ⟨hsome, hway⟩ := ih.1 ⟨m, h⟩
      refine ⟨by rwa [at?, hc], ?_⟩
      intro q d hq hle hd
      obtain ⟨j, q, rfl⟩ := List.exists_cons_of_ne_nil hq
      obtain ⟨rfl, hrest⟩ := List.cons_prefix_cons.1 hle
      rw [at?, hc, Option.bind_some] at hd
      cases q with
      | nil =>
        obtain rfl : c = d := Option.some.inj hd
        simpa [unskipped] using hallowed
      | cons k q => exact hway (k :: q) d (by simp) hrest hd
    · rintro ⟨hsome, hway⟩
      obtain ⟨c, hc⟩ := Option.isSome_iff_exists.1 (Option.isSome_of_isSome_bind hsome)
      have hchild : skip c.kind = false :=
        hway [i] c (by simp) (by simp) (by rw [at?, hc]; rfl)
      rw [at?, hc, Option.bind_some] at hsome
      have hbelow : c.Survives skip p := by
        refine ⟨hsome, fun q d hq hle hd => ?_⟩
        apply hway (i :: q) d (by simp) (List.cons_prefix_cons.2 ⟨rfl, hle⟩)
        rw [at?, hc, Option.bind_some, hd]
      obtain ⟨m, hm⟩ := ih.2 hbelow
      exact ⟨m, .step hc (by simp [unskipped, hchild]) hm⟩

mutual

theorem map_snd_reached : (n : Node) → (reached (unskipped skip) n).map (·.2) = n.preorder skip
  | mk info children => by
    rw [reached, List.map_cons, preorder]
    exact congrArg _ (map_snd_reachedIn children (mk info children) 0)

theorem map_snd_reachedIn : (ns : List Node) → (n : Node) → (i : Nat) →
    (reachedIn (unskipped skip) (unskipped skip n) i ns).map (·.2) = preorderAll skip ns
  | [], _, _ => rfl
  | m :: ns, n, i => by
    rw [reachedIn, List.map_append, map_snd_reachedIn ns, preorderAll]
    cases hskip : skip m.kind with
    | true => simp [unskipped, hskip]
    | false =>
      simp only [unskipped, hskip, Bool.not_false, if_true, Bool.false_eq_true, if_false,
        List.map_map, Function.comp_def]
      rw [map_snd_reached m]

end

end Node

namespace Cursor

open Node (Survives unskipped reached reachedIn)

variable {skip : String → Bool}

def down? : Cursor → Position → Option Cursor
  | c, [] => some c
  | c, i :: p => c.children[i]?.bind (·.down? p)

theorem map_node_down? (c : Cursor) (p : Position) :
    (c.down? p).map (·.node) = c.node.at? p := by
  induction p generalizing c with
  | nil => rfl
  | cons i p ih =>
    rw [down?, Node.at?, children, List.getElem?_map]
    cases c.node.children[i]? with
    | none => rfl
    | some n => exact ih ⟨n, c.node :: c.above⟩

/-- The nodes on the stack are worked off one after the other, whatever lies below them. -/
theorem walkStack_append (as bs : List Cursor) :
    walkStack skip (as ++ bs) = walkStack skip as ++ walkStack skip bs := by
  fun_induction walkStack skip as with
  | case1 => rfl
  | case2 c stack hskip ih => rw [List.cons_append, walkStack, if_pos hskip, ih]
  | case3 c stack hskip ih =>
    rw [List.append_assoc] at ih
    rw [List.cons_append, walkStack, if_neg hskip, ih, List.cons_append]

theorem walkStack_cons (c : Cursor) (stack : List Cursor) :
    walkStack skip (c :: stack) =
      (if skip c.node.kind then [] else c.walk skip) ++ walkStack skip stack := by
  rw [walkStack]
  split
  · rfl
  · rw [walkStack_append]
    rfl

mutual

theorem map_some_walk : (n : Node) → (above : List Node) →
    (walk skip ⟨n, above⟩).map some =
      (reached (unskipped skip) n).map fun e => down? ⟨n, above⟩ e.1
  | .mk info children, above => by
    rw [walk, List.map_cons, reached, List.map_cons]
    exact congrArg _ (map_some_walkStack children ⟨.mk info children, above⟩ [] rfl)

/-- The rest of the children of a node, after those in front. -/
theorem map_some_walkStack : (ns : List Node) → (c : Cursor) → (front : List Node) →
    c.node.children = front ++ ns →
    (walkStack skip (ns.map fun n => ⟨n, c.node :: c.above⟩)).map some =
      (reachedIn (unskipped skip) (unskipped skip c.node) front.length ns).map fun e => c.down? e.1
  | [], _, _, _ => by
    rw [List.map_nil, walkStack]
    rfl
  | n :: ns, c, front, hchildren => by
    have hrest := map_some_walkStack ns c (front ++ [n]) (by simp [hchildren])
    have hchild : c.children[front.length]? = some ⟨n, c.node :: c.above⟩ := by
      simp [children, hchildren]
    rw [List.length_append, List.length_singleton] at hrest
    rw [List.map_cons, walkStack_cons, List.map_append, hrest, reachedIn, List.map_append]
    congr 1
    cases hskip : skip n.kind with
    | true => simp [unskipped, hskip]
    | false =>
      simp only [unskipped, hskip, Bool.not_false, if_true, Bool.false_eq_true, if_false,
        List.map_map, Function.comp_def, down?, hchild, Option.bind_some]
      exact map_some_walk n (c.node :: c.above)

end

theorem map_node_walk (c : Cursor) : (c.walk skip).map (·.node) = c.node.preorder skip := by
  have hplaces : (c.walk skip).map some =
      (reached (unskipped skip) c.node).map fun e => c.down? e.1 := map_some_walk c.node c.above
  apply List.map_injective_iff.2 fun _ _ => Option.some.inj
  calc ((c.walk skip).map (·.node)).map some
      = ((c.walk skip).map some).map (Option.map (·.node)) := by simp
    _ = (reached (unskipped skip) c.node).map fun e => (c.down? e.1).map (·.node) := by
      rw [hplaces, List.map_map]
      rfl
    _ = (reached (unskipped skip) c.node).map fun e => some e.2 := by
      apply List.map_congr_left
      intro e he
      rw [map_node_down?]
      exact (Node.mem_reached_iff.1 he).at?
    _ = (c.node.preorder skip).map some := by
      rw [← Node.map_snd_reached, List.map_map]
      rfl

/-- A place is visited just if it is not cut off. -/
theorem mem_walk_iff {c place : Cursor} :
    place ∈ c.walk skip ↔ ∃ p, c.node.Survives skip p ∧ c.down? p = some place := by
  have hplaces : (c.walk skip).map some =
      (reached (unskipped skip) c.node).map fun e => c.down? e.1 := map_some_walk c.node c.above
  have hmem : place ∈ c.walk skip ↔ some place ∈ (c.walk skip).map some :=
    (List.mem_map_of_injective fun _ _ => Option.some.inj).symm
  rw [hmem, hplaces, List.mem_map]
  constructor
  · rintro ⟨⟨p, m⟩, hm, hplace⟩
    exact ⟨p, Node.exists_reached_iff.1 ⟨m, Node.mem_reached_iff.1 hm⟩, hplace⟩
  · rintro ⟨p, hp, hplace⟩
    obtain ⟨m, hm⟩ := Node.exists_reached_iff.2 hp
    exact ⟨⟨p, m⟩, Node.mem_reached_iff.2 hm, hplace⟩

structure Visiting where
  stack : List Cursor
  visited : List Cursor

namespace Visiting

/-- One turn of the walk: the top of the stack is left out if it is of a skipped kind, else it is
visited and its children take its place. -/
def turn (skip : String → Bool) (v : Visiting) : Visiting :=
  match v.stack with
  | [] => v
  | c :: rest =>
    if skip c.node.kind then ⟨rest, v.visited⟩ else ⟨c.children ++ rest, v.visited ++ [c]⟩

def outcome (skip : String → Bool) (v : Visiting) : List Cursor :=
  v.visited ++ walkStack skip v.stack

theorem outcome_turn (v : Visiting) : (v.turn skip).outcome skip = v.outcome skip := by
  obtain ⟨stack, visited⟩ := v
  cases stack with
  | nil => rfl
  | cons c rest =>
    simp only [turn, outcome]
    rw [walkStack]
    split
    · rfl
    · simp

theorem weight_turn (v : Visiting) : weight (v.turn skip).stack ≤ weight v.stack - 1 := by
  obtain ⟨stack, visited⟩ := v
  cases stack with
  | nil => exact Nat.le_refl _
  | cons c rest =>
    simp only [turn]
    split
    · have hpos := Node.size_pos c.node
      simp only [weight, List.map_cons, Node.sizeAll]
      omega
    · exact Nat.le_sub_one_of_lt (weight_children_append c rest)

theorem stack_eq_nil_of_weight {v : Visiting} (h : weight v.stack = 0) : v.stack = [] := by
  cases hstack : v.stack with
  | nil => rfl
  | cons c rest =>
    have hpos := Node.size_pos c.node
    rw [hstack, weight, List.map_cons, Node.sizeAll] at h
    omega

/-- The stack is empty after as many turns as there are nodes on it and below. -/
theorem turn_iterate {v : Visiting} {k : Nat} (hk : weight v.stack ≤ k) :
    (turn skip)^[k] v = ⟨[], v.outcome skip⟩ := by
  induction k generalizing v with
  | zero =>
    have hnil := stack_eq_nil_of_weight (Nat.le_zero.1 hk)
    obtain ⟨stack, visited⟩ := v
    cases hnil
    rw [outcome, walkStack, List.append_nil]
    rfl
  | succ k ih =>
    have hless : weight (v.turn skip).stack ≤ weight v.stack - 1 := weight_turn v
    rw [Function.iterate_succ_apply, ih (by omega), outcome_turn]

end Visiting

/-- From a start that is visited in any case, turn after turn, the stack is empty after no more turns
than the tree has nodes. What was visited then is the walk: it is the recursive traversal, and it
holds each place that is not cut off once, in document order. -/
theorem walk_in_document_order (skip : String → Bool) (c : Cursor) :
    (∃ k ≤ c.node.size, (Visiting.turn skip)^[k] ⟨c.children, [c]⟩ = ⟨[], c.walk skip⟩) ∧
    (c.walk skip).map (·.node) = c.node.preorder skip ∧ (c.walk skip).head? = some c ∧
    ∃ ps : List Position, ps.Pairwise Position.Before ∧
      (∀ p, p ∈ ps ↔ c.node.Survives skip p) ∧ (c.walk skip).map some = ps.map c.down? := by
  refine ⟨⟨weight c.children, ?_, Visiting.turn_iterate (Nat.le_refl _)⟩, map_node_walk c, rfl, ?_⟩
  · have hless := weight_children_append c []
    rw [List.append_nil, weight, weight, List.map_singleton, Node.sizeAll, Node.sizeAll] at hless
    rw [weight]
    omega
  · refine ⟨(reached (unskipped skip) c.node).map (·.1), ?_, ?_, ?_⟩
    · exact List.pairwise_map.2 (Node.pairwise_reached c.node)
    · intro p
      rw [← Node.exists_reached_iff]
      simp [← Node.mem_reached_iff]
    · rw [List.map_map]
      exact map_some_walk c.node c.above

end Cursor

end ContractCheck.Syntax
