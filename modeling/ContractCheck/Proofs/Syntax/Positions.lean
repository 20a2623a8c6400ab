import ContractCheck.Syntax.Node
import Mathlib.Data.List.Basic

/-!
Positions in a tree. Equal nodes may stand at several places, so places are told apart by the child
that is taken on each level. Main statement: the nodes that are reached by allowed steps are listed
in document order, each place once.
-/
namespace ContractCheck.Syntax

abbrev Position := List Nat

/-- Document order: a node comes before all that is in it, and an earlier sibling with all that is
in it before a later one. -/
abbrev Position.Before : Position → Position → Prop :=
  List.Lex (· < ·)

theorem Position.Before.ne {p q : Position} (h : p.Before q) : p ≠ q := by
  induction h with
  | nil => simp
  | rel hlt => simp [Nat.ne_of_lt hlt]
  | cons _ ih => simpa using ih

theorem Position.Before.inside {p q : Position} (h : p.Before q) (s : Position) :
    Position.Before (s ++ p) (s ++ q) := by
  induction s with
  | nil => exact h
  | cons i s ih => exact .cons ih

/-- Of places that are equally deep, what is in the first comes before what is in the second. -/
theorem Position.Before.append {p q : Position} (h : p.Before q) (hlength : p.length = q.length)
    (s t : Position) : (p ++ s).Before (q ++ t) := by
  induction h with
  | nil => cases hlength
  | rel hlt => exact .rel hlt
  | cons _ ih => exact .cons (ih (Nat.succ.inj hlength))

namespace Node

def at? : Node → Position → Option Node
  | n, [] => some n
  | n, i :: p => n.children[i]?.bind (·.at? p)

theorem at?_append (n : Node) (p q : Position) : n.at? (p ++ q) = (n.at? p).bind (·.at? q) := by
  induction p generalizing n with
  | nil => rfl
  | cons i p ih =>
    rw [List.cons_append, at?, at?]
    cases n.children[i]? with
    | none => rfl
    | some c => exact ih c

section

variable (enter : Node → Node → Bool)

/-- A node stands at a position, and each step down to it, from a node to one of its children, is
allowed. -/
inductive Reached : Node → Position → Node → Prop
  | here (n : Node) : Reached n [] n
  | step {n c m : Node} {i : Nat} {p : Position} (hc : n.children[i]? = some c)
      (hallowed : enter n c = true) (h : Reached c p m) : Reached n (i :: p) m

mutual

def reached : Node → List (Position × Node)
  | mk info children => ([], mk info children) :: reachedIn (enter (mk info children)) 0 children

def reachedIn (allowed : Node → Bool) (i : Nat) : List Node → List (Position × Node)
  | [] => []
  | n :: ns =>
    (if allowed n then (reached n).map fun e => (i :: e.1, e.2) else []) ++
      reachedIn allowed (i + 1) ns

end

end

variable {enter : Node → Node → Bool}

theorem reached_eq (n : Node) :
    reached enter n = ([], n) :: reachedIn enter (enter n) 0 n.children := by
  cases n
  rfl

theorem reached_nil_iff {n m : Node} : Reached enter n [] m ↔ m = n := by
  constructor
  · intro h
    cases h
    rfl
  · rintro rfl
    exact .here m

theorem reached_cons_iff {n m : Node} {i : Nat} {p : Position} :
    Reached enter n (i :: p) m ↔
      ∃ c, n.children[i]? = some c ∧ enter n c = true ∧ Reached enter c p m := by
  constructor
  · intro h
    cases h with
    | step hc hallowed h => exact ⟨_, hc, hallowed, h⟩
  · rintro ⟨c, hc, hallowed, h⟩
    exact .step hc hallowed h

theorem Reached.at? {n m : Node} {p : Position} (h : Reached enter n p m) : n.at? p = some m := by
  induction h with
  | here n => rfl
  | step hc _ _ ih => rw [Node.at?, hc, Option.bind_some, ih]

theorem mem_reachedIn_iff {allowed : Node → Bool} {ns : List Node} {i : Nat} {p : Position}
    {m : Node} : (p, m) ∈ reachedIn enter allowed i ns ↔
      ∃ j q c, p = (i + j) :: q ∧ ns[j]? = some c ∧ allowed c = true ∧ (q, m) ∈ reached enter c := by
  induction ns generalizing i with
  | nil => simp [reachedIn]
  | cons n ns ih =>
    rw [reachedIn, List.mem_append, ih]
    constructor
    · rintro (hfirst | ⟨j, q, c, rfl, hc, hallowed, hm⟩)
      · split at hfirst
        · rename_i hallowed
          obtain ⟨e, he, heq⟩ := List.mem_map.1 hfirst
          cases heq
          exact ⟨0, e.1, n, rfl, rfl, hallowed, he⟩
        · cases hfirst
      · exact ⟨j + 1, q, c, by rw [Nat.add_right_comm, Nat.add_assoc], hc, hallowed, hm⟩
    · rintro ⟨j, q, c, rfl, hc, hallowed, hm⟩
      cases j with
      | zero =>
        obtain rfl : n = c := Option.some.inj hc
        rw [if_pos hallowed]
        exact .inl (List.mem_map.2 ⟨(q, m), hm, rfl⟩)
      | succ j =>
        exact .inr ⟨j, q, c, by rw [Nat.add_right_comm, Nat.add_assoc], hc, hallowed, hm⟩

theorem reachedIn_eq_nil {allowed : Node → Bool} (hallowed : ∀ c, allowed c = false) (i : Nat)
    (ns : List Node) : reachedIn enter allowed i ns = [] := by
  induction ns generalizing i with
  | nil => rfl
  | cons n ns ih => simp [reachedIn, hallowed, ih]

/-- All that is reached is listed, and nothing else. -/
theorem mem_reached_iff {n : Node} {p : Position} {m : Node} :
    (p, m) ∈ reached enter n ↔ Reached enter n p m := by
  induction p generalizing n with
  | nil =>
    rw [reached_eq, List.mem_cons, mem_reachedIn_iff, reached_nil_iff]
    simp
  | cons i p ih =>
    rw [reached_eq, List.mem_cons, mem_reachedIn_iff, reached_cons_iff]
    constructor
    · rintro (heq | ⟨j, q, c, hp, hc, hallowed, hm⟩)
      · cases heq
      · rw [Nat.zero_add] at hp
        cases hp
        exact ⟨c, hc, hallowed, ih.1 hm⟩
    · rintro ⟨c, hc, hallowed, hm⟩
      exact .inr ⟨i, p, c, by rw [Nat.zero_add], hc, hallowed, ih.2 hm⟩

mutual

theorem pairwise_reached : (n : Node) → (reached enter n).Pairwise fun a b => a.1.Before b.1
  | mk info children => by
    rw [reached, List.pairwise_cons]
    refine ⟨?_, pairwise_reachedIn children 0⟩
    intro e he
    obtain ⟨j, q, c, hp, _⟩ := mem_reachedIn_iff.1 he
    rw [hp]
    exact .nil

theorem pairwise_reachedIn {allowed : Node → Bool} : (ns : List Node) → (i : Nat) →
    (reachedIn enter allowed i ns).Pairwise fun a b => a.1.Before b.1
  | [], _ => .nil
  | n :: ns, i => by
    rw [reachedIn, List.pairwise_append]
    refine ⟨?_, pairwise_reachedIn ns (i + 1), ?_⟩
    · split
      · rw [List.pairwise_map]
        exact (pairwise_reached n).imp fun h => .cons h
      · exact .nil
    · intro a ha b hb
      split at ha
      · obtain ⟨e, _, rfl⟩ := List.mem_map.1 ha
        obtain ⟨j, q, c, hp, _⟩ := mem_reachedIn_iff.1 hb
        rw [hp]
        exact .rel (by omega)
      · cases ha

end

end Node

end ContractCheck.Syntax
