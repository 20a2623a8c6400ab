import ContractCheck.Declaration.Reader
import ContractCheck.Proofs.Lists
import ContractCheck.Proofs.Syntax.Positions

/-!
The regions of a program. A region has a namespace of its own: it is what stands in the braces of a
namespace definition, or all statements of the program, those in braces apart, from a definition
without braces to the next one. Main statement: one pass over the program, which keeps the last
definition without braces, finds the statements of all regions in source order.
-/
namespace ContractCheck.Declaration

open Syntax (Node Position)

/-- A region of a program: the braces of a definition, or what comes after a definition without
braces or, for none, before any. Definitions are given by their index in the program. -/
inductive Region where
  | braces (index : Nat)
  | after (index : Option Nat)
deriving DecidableEq

structure Defines (root : Node) (i : Nat) (d : Node) : Prop where
  child : root.children[i]? = some d
  named : d.info.named = true
  kind : d.kind = "namespace_definition"

def Opens (root : Node) (i : Nat) : Prop :=
  ∃ d, Defines root i d ∧ d.field? "body" = none

def LastOpening (root : Node) (i : Nat) : Option Nat → Prop
  | none => ∀ j < i, ¬ Opens root j
  | some j => j < i ∧ Opens root j ∧ ∀ k, j < k → k < i → ¬ Opens root k

def bodyIndex (d : Node) : Nat :=
  d.children.findIdx (·.info.field = "body")

inductive Statement (root : Node) : Region → Position → Node → Prop
  | ofProgram {i : Nat} {n : Node} {opening : Option Nat} (hchild : root.children[i]? = some n)
      (hnamed : n.info.named = true) (hkind : n.kind ≠ "namespace_definition")
      (hopening : LastOpening root i opening) : Statement root (.after opening) [i] n
  | ofBraces {i k : Nat} {d body n : Node} (hd : Defines root i d)
      (hbody : d.field? "body" = some body) (hchild : body.children[k]? = some n)
      (hnamed : n.info.named = true) : Statement root (.braces i) [i, bodyIndex d, k] n

def definedName (root : Node) (i : Nat) : String :=
  Text.trimBackslashes (((root.children[i]?.bind (·.field? "name")).map (·.text)).getD "")

def Region.namespaceName (root : Node) : Region → String
  | .braces i => definedName root i
  | .after (some i) => definedName root i
  | .after none => ""

structure Occurrence where
  region : Region
  position : Position
  node : Node

def namedAt (n : Node) : List (Node × Nat) :=
  n.children.zipIdx.filter (·.1.info.named)

theorem map_fst_namedAt (n : Node) : (namedAt n).map (·.1) = n.namedChildren := by
  have hall : n.children.zipIdx.map (·.1) = n.children := List.zipIdx_map_fst 0 n.children
  rw [namedAt, Node.namedChildren]
  conv_rhs => rw [← hall, List.filter_map]
  rfl

theorem mem_namedAt_iff {n c : Node} {i : Nat} :
    (c, i) ∈ namedAt n ↔ n.children[i]? = some c ∧ c.info.named = true := by
  rw [namedAt, List.mem_filter, List.mem_zipIdx_iff_getElem?]

theorem pairwise_namedAt (n : Node) : (namedAt n).Pairwise fun a b => a.2 < b.2 :=
  (pairwise_zipIdx n.children 0).filter _

def inBraces (i : Nat) (d body : Node) : List Occurrence :=
  (namedAt body).map fun e => ⟨.braces i, [i, bodyIndex d, e.2], e.1⟩

def placed (opening : Option Nat) : List (Node × Nat) → List Occurrence
  | [] => []
  | e :: rest =>
    if e.1.kind ≠ "namespace_definition" then ⟨.after opening, [e.2], e.1⟩ :: placed opening rest
    else
      match e.1.field? "body" with
      | some body => inBraces e.2 e.1 body ++ placed opening rest
      | none => placed (some e.2) rest

section

variable {root : Node} {opening : Option Nat} {l : List (Node × Nat)}

theorem exists_head_of_mem_placed {o : Occurrence} (ho : o ∈ placed opening l) :
    ∃ e ∈ l, ∃ t, o.position = e.2 :: t := by
  induction l generalizing opening with
  | nil => cases ho
  | cons e rest ih =>
    have hrest : ∀ {opening}, o ∈ placed opening rest → ∃ x ∈ e :: rest, ∃ t, o.position = x.2 :: t := by
      intro opening ho
      obtain ⟨x, hx, t, ht⟩ := ih ho
      exact ⟨x, List.mem_cons_of_mem e hx, t, ht⟩
    rw [placed] at ho
    split at ho
    · rcases List.mem_cons.1 ho with rfl | ho
      · exact ⟨e, List.mem_cons_self, [], rfl⟩
      · exact hrest ho
    · split at ho
      · rcases List.mem_append.1 ho with ho | ho
        · obtain ⟨x, _, rfl⟩ := List.mem_map.1 ho
          exact ⟨e, List.mem_cons_self, _, rfl⟩
        · exact hrest ho
      · exact hrest ho

theorem pairwise_inBraces (i : Nat) (d body : Node) :
    (inBraces i d body).Pairwise fun a b => a.position.Before b.position := by
  rw [inBraces, List.pairwise_map]
  exact (pairwise_namedAt body).imp fun h => .cons (.cons (.rel h))

theorem pairwise_placed (h : l.Pairwise fun a b => a.2 < b.2) :
    (placed opening l).Pairwise fun a b => a.position.Before b.position := by
  induction l generalizing opening with
  | nil => exact .nil
  | cons e rest ih =>
    have hfront : ∀ {opening t}, ∀ o ∈ placed opening rest, Position.Before (e.2 :: t) o.position := by
      intro opening t o ho
      obtain ⟨x, hx, t', ht'⟩ := exists_head_of_mem_placed ho
      rw [ht']
      exact .rel (List.rel_of_pairwise_cons h hx)
    rw [placed]
    split
    · exact List.pairwise_cons.2 ⟨hfront, ih h.tail⟩
    · split
      · refine List.pairwise_append.2 ⟨pairwise_inBraces _ _ _, ih h.tail, ?_⟩
        intro a ha b hb
        obtain ⟨x, _, rfl⟩ := List.mem_map.1 ha
        exact hfront b hb
      · exact ih h.tail

end

section

variable {root : Node}

theorem LastOpening.unique {i : Nat} {a b : Option Nat} (ha : LastOpening root i a)
    (hb : LastOpening root i b) : a = b := by
  cases a with
  | none =>
    cases b with
    | none => rfl
    | some k => exact absurd hb.2.1 (ha k hb.1)
  | some j =>
    cases b with
    | none => exact absurd ha.2.1 (hb j ha.1)
    | some k =>
      rcases Nat.lt_trichotomy j k with hlt | rfl | hlt
      · exact absurd hb.2.1 (ha.2.2 k hlt hb.1)
      · rfl
      · exact absurd ha.2.1 (hb.2.2 j hlt ha.1)

namespace Statement

variable {g g' : Region} {p p' : Position} {n n' : Node}

/-- A statement stands at its position in the program. -/
theorem at? (h : Statement root g p n) : root.at? p = some n := by
  cases h with
  | ofProgram hchild => simp [Node.at?, hchild]
  | @ofBraces i k d body n hd hbody hchild =>
    have hindex : d.children[bodyIndex d]? = some body := getElem?_findIdx_of_find? hbody
    simp [Node.at?, hd.child, hindex, hchild]

theorem length_eq (h : Statement root g p n) (h' : Statement root g p' n') :
    p.length = p'.length := by
  cases h with
  | ofProgram =>
    cases h'
    rfl
  | ofBraces =>
    cases h'
    rfl

/-- The child of the program that a statement belongs to tells its region. -/
theorem region_eq (h : Statement root g p n) (h' : Statement root g' p' n')
    (hhead : p.head? = p'.head?) : g = g' := by
  cases h with
  | ofProgram hchild _ hkind hopening =>
    cases h' with
    | ofProgram hchild' _ _ hopening' =>
      cases hhead
      rw [hopening.unique hopening']
    | ofBraces hd =>
      cases hhead
      rw [hd.child] at hchild
      exact absurd (Option.some.inj hchild ▸ hd.kind) hkind
  | ofBraces hd =>
    cases h' with
    | ofProgram hchild' _ hkind' =>
      cases hhead
      rw [hd.child] at hchild'
      exact absurd (Option.some.inj hchild' ▸ hd.kind) hkind'
    | ofBraces hd' =>
      cases hhead
      rfl

end Statement

structure Ascending (opening : Option Nat) (l : List (Node × Nat)) : Prop where
  indices : l.Pairwise fun a b => a.2 < b.2
  behind : ∀ j ∈ opening, ∀ e ∈ l, j < e.2

theorem Ascending.tail {e : Node × Nat} (h : Ascending opening (e :: l)) : Ascending opening l :=
  ⟨h.indices.tail, fun j hj x hx => h.behind j hj x (List.mem_cons_of_mem e hx)⟩

theorem Ascending.opened {e : Node × Nat} (h : Ascending opening (e :: l)) :
    Ascending (some e.2) l := by
  refine ⟨h.indices.tail, ?_⟩
  intro j hj x hx
  cases hj
  exact List.rel_of_pairwise_cons h.indices hx

structure Remaining (root : Node) (opening : Option Nat) (l : List (Node × Nat)) : Prop where
  ascending : Ascending opening l
  children : ∀ e ∈ l, root.children[e.2]? = some e.1 ∧ e.1.info.named = true
  opened : ∀ j ∈ opening, Opens root j
  others : ∀ j, Opens root j → (∃ k ∈ opening, j ≤ k) ∨ ∃ e ∈ l, e.2 = j

namespace Remaining

variable {opening : Option Nat} {e : Node × Nat} {l : List (Node × Nat)}

theorem start (root : Node) : Remaining root none (namedAt root) := by
  refine ⟨⟨pairwise_namedAt root, by simp⟩, fun e he => mem_namedAt_iff.1 he, by simp, ?_⟩
  rintro j ⟨d, hd, _⟩
  exact .inr ⟨(d, j), mem_namedAt_iff.2 ⟨hd.child, hd.named⟩, rfl⟩

theorem lastOpening (h : Remaining root opening (e :: l)) : LastOpening root e.2 opening := by
  have hlist : ∀ x ∈ e :: l, e.2 ≤ x.2 := by
    intro x hx
    rcases List.mem_cons.1 hx with rfl | hx
    · exact Nat.le_refl _
    · exact Nat.le_of_lt (List.rel_of_pairwise_cons h.ascending.indices hx)
  have hothers : ∀ j < e.2, Opens root j → ∃ k ∈ opening, j ≤ k := by
    intro j hj hopens
    refine (h.others j hopens).resolve_right ?_
    rintro ⟨x, hx, rfl⟩
    exact absurd (hlist x hx) (by omega)
  cases opening with
  | none =>
    intro j hj hopens
    obtain ⟨k, hk, _⟩ := hothers j hj hopens
    cases hk
  | some j =>
    refine ⟨h.ascending.behind j rfl e List.mem_cons_self, h.opened j rfl, ?_⟩
    intro k hjk hk hopens
    obtain ⟨i, hi, hle⟩ := hothers k hk hopens
    cases hi
    omega

/-- A child that opens no region leaves the last definition as it is. -/
theorem tail (h : Remaining root opening (e :: l)) (he : ¬ Opens root e.2) :
    Remaining root opening l := by
  refine ⟨h.ascending.tail, fun x hx => h.children x (List.mem_cons_of_mem e hx), h.opened, ?_⟩
  intro j hopens
  refine (h.others j hopens).imp_right ?_
  rintro ⟨x, hx, rfl⟩
  rcases List.mem_cons.1 hx with rfl | hx
  · exact absurd hopens he
  · exact ⟨x, hx, rfl⟩

theorem next (h : Remaining root opening (e :: l)) (he : Opens root e.2) :
    Remaining root (some e.2) l := by
  refine ⟨h.ascending.opened, fun x hx => h.children x (List.mem_cons_of_mem e hx), ?_, ?_⟩
  · rintro j hj
    cases hj
    exact he
  · intro j hopens
    rcases h.others j hopens with ⟨k, hk, hle⟩ | ⟨x, hx, rfl⟩
    · have hlt := h.ascending.behind k hk e List.mem_cons_self
      exact .inl ⟨e.2, rfl, by omega⟩
    · rcases List.mem_cons.1 hx with rfl | hx
      · exact .inl ⟨x.2, rfl, Nat.le_refl _⟩
      · exact .inr ⟨x, hx, rfl⟩

/-- What the next child of the program is, and what is left after it. -/
theorem placed_cases (h : Remaining root opening (e :: l)) :
    (e.1.kind ≠ "namespace_definition" ∧ Remaining root opening l ∧
      placed opening (e :: l) = ⟨.after opening, [e.2], e.1⟩ :: placed opening l) ∨
    (∃ body, Defines root e.2 e.1 ∧ e.1.field? "body" = some body ∧ Remaining root opening l ∧
      placed opening (e :: l) = inBraces e.2 e.1 body ++ placed opening l) ∨
    (Opens root e.2 ∧ Remaining root (some e.2) l ∧
      placed opening (e :: l) = placed (some e.2) l) := by
  obtain ⟨hchild, hnamed⟩ := h.children e List.mem_cons_self
  have hself : ∀ d, Defines root e.2 d → e.1 = d := by
    intro d hd
    exact Option.some.inj (hchild.symm.trans hd.child)
  rw [placed]
  by_cases hkind : e.1.kind ≠ "namespace_definition"
  · refine .inl ⟨hkind, h.tail ?_, if_pos hkind⟩
    rintro ⟨d, hd, _⟩
    exact hkind (hself d hd ▸ hd.kind)
  · rw [if_neg hkind]
    have hdefines : Defines root e.2 e.1 := ⟨hchild, hnamed, not_not.1 hkind⟩
    cases hbody : e.1.field? "body" with
    | some body =>
      refine .inr (.inl ⟨body, hdefines, rfl, h.tail ?_, rfl⟩)
      rintro ⟨d, hd, hnone⟩
      rw [← hself d hd, hbody] at hnone
      cases hnone
    | none =>
      have hopens : Opens root e.2 := ⟨e.1, hdefines, hbody⟩
      exact .inr (.inr ⟨hopens, h.next hopens, rfl⟩)

theorem statement_of_mem_placed (h : Remaining root opening l) {o : Occurrence}
    (ho : o ∈ placed opening l) : Statement root o.region o.position o.node := by
  induction l generalizing opening with
  | nil => cases ho
  | cons e rest ih =>
    rcases h.placed_cases with ⟨hkind, hrest, heq⟩ | ⟨body, hd, hbody, hrest, heq⟩ | ⟨_, hrest, heq⟩
    · rw [heq] at ho
      rcases List.mem_cons.1 ho with rfl | ho
      · obtain ⟨hchild, hnamed⟩ := h.children e List.mem_cons_self
        exact .ofProgram hchild hnamed hkind h.lastOpening
      · exact ih hrest ho
    · rw [heq] at ho
      rcases List.mem_append.1 ho with ho | ho
      · obtain ⟨x, hx, rfl⟩ := List.mem_map.1 ho
        obtain ⟨hchild, hnamed⟩ := mem_namedAt_iff.1 hx
        exact .ofBraces hd hbody hchild hnamed
      · exact ih hrest ho
    · rw [heq] at ho
      exact ih hrest ho

theorem mem_placed_of_statement (h : Remaining root opening l) {g : Region} {p : Position} {n : Node}
    (hs : Statement root g p n) {x : Node × Nat} (hx : x ∈ l) (hhead : p.head? = some x.2) :
    ⟨g, p, n⟩ ∈ placed opening l := by
  induction l generalizing opening with
  | nil => cases hx
  | cons e rest ih =>
    have hchild := (h.children e List.mem_cons_self).1
    rcases h.placed_cases with ⟨hkind, hrest, heq⟩ | ⟨body, hd, hbody, hrest, heq⟩ |
        ⟨⟨d, hd, hnone⟩, hrest, heq⟩
    · rw [heq]
      rcases List.mem_cons.1 hx with rfl | hx
      · cases hs with
        | ofProgram hn _ _ hopening =>
          cases hhead
          rw [hopening.unique h.lastOpening, Option.some.inj (hn.symm.trans hchild)]
          exact List.mem_cons_self
        | ofBraces hd =>
          cases hhead
          exact absurd (Option.some.inj (hd.child.symm.trans hchild) ▸ hd.kind) hkind
      · exact List.mem_cons_of_mem _ (ih hrest hx)
    · rw [heq]
      rcases List.mem_cons.1 hx with rfl | hx
      · cases hs with
        | ofProgram hn _ hkind =>
          cases hhead
          exact absurd (Option.some.inj (hchild.symm.trans hn) ▸ hd.kind) hkind
        | ofBraces hd' hbody' hn hnamed =>
          cases hhead
          obtain rfl := Option.some.inj (hd'.child.symm.trans hchild)
          obtain rfl := Option.some.inj (hbody'.symm.trans hbody)
          exact List.mem_append_left _ (List.mem_map.2 ⟨_, mem_namedAt_iff.2 ⟨hn, hnamed⟩, rfl⟩)
      · exact List.mem_append_right _ (ih hrest hx)
    · rw [heq]
      rcases List.mem_cons.1 hx with rfl | hx
      · cases hs with
        | ofProgram hn _ hkind =>
          cases hhead
          exact absurd (Option.some.inj (hd.child.symm.trans hn) ▸ hd.kind) hkind
        | ofBraces hd' hbody' =>
          cases hhead
          rw [Option.some.inj (hd'.child.symm.trans hd.child), hnone] at hbody'
          cases hbody'
      · exact ih hrest hx

end Remaining

/-- The statements of all regions are listed, and nothing else. -/
theorem mem_placed_iff {g : Region} {p : Position} {n : Node} :
    ⟨g, p, n⟩ ∈ placed none (namedAt root) ↔ Statement root g p n := by
  constructor
  · exact (Remaining.start root).statement_of_mem_placed
  · intro h
    have hchild : ∃ x ∈ namedAt root, p.head? = some x.2 := by
      cases h with
      | @ofProgram i n _ hchild hnamed =>
        exact ⟨(n, i), mem_namedAt_iff.2 ⟨hchild, hnamed⟩, rfl⟩
      | @ofBraces i _ d _ _ hd => exact ⟨(d, i), mem_namedAt_iff.2 ⟨hd.child, hd.named⟩, rfl⟩
    obtain ⟨x, hx, hhead⟩ := hchild
    exact (Remaining.start root).mem_placed_of_statement h hx hhead

end

end ContractCheck.Declaration
