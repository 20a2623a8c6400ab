import ContractCheck.Proofs.Declaration.Regions

/-!
Splitting a program into blocks. Main statement: the blocks are the regions of the program, each of
them once and with all of its statements in source order.
-/
namespace ContractCheck.Declaration

open Syntax (Node Position)

structure Part where
  region : Region
  statements : List Occurrence

def parts (opening : Option Nat) (current : List Occurrence) : List (Node × Nat) → List Part
  | [] => [⟨.after opening, current⟩]
  | e :: rest =>
    if e.1.kind ≠ "namespace_definition" then
      parts opening (current ++ [⟨.after opening, [e.2], e.1⟩]) rest
    else
      match e.1.field? "body" with
      | some body => ⟨.braces e.2, inBraces e.2 e.1 body⟩ :: parts opening current rest
      | none => ⟨.after opening, current⟩ :: parts (some e.2) [] rest

def Part.block (root : Node) (part : Part) : Block :=
  ⟨part.region.namespaceName root, part.statements.map (·.node)⟩

section

variable {root : Node} {opening : Option Nat} {l : List (Node × Nat)}

theorem blocksFrom_eq {current : List Occurrence} (hl : ∀ e ∈ l, root.children[e.2]? = some e.1) :
    blocksFrom ((Region.after opening).namespaceName root) (current.map (·.node)) (l.map (·.1)) =
      (parts opening current l).map (·.block root) := by
  induction l generalizing opening current with
  | nil => rfl
  | cons e rest ih =>
    rw [List.forall_mem_cons] at hl
    have hname : Text.trimBackslashes (((e.1.field? "name").map (·.text)).getD "") =
        definedName root e.2 := by
      rw [definedName, hl.1]
      rfl
    rw [List.map_cons, blocksFrom, parts]
    by_cases hkind : e.1.kind ≠ "namespace_definition"
    · rw [if_pos hkind, if_pos hkind, ← ih hl.2, List.map_append]
      rfl
    · rw [if_neg hkind, if_neg hkind]
      simp only [hname]
      cases hbody : e.1.field? "body" with
      | some body =>
        have hstatements : (inBraces e.2 e.1 body).map (·.node) = body.namedChildren := by
          rw [inBraces, List.map_map, ← map_fst_namedAt]
          rfl
        rw [List.map_cons, ← ih hl.2, Part.block, hstatements]
        rfl
      | none =>
        rw [List.map_cons, ← ih hl.2]
        rfl

def Region.Among (opening : Option Nat) (l : List (Node × Nat)) (g : Region) : Prop :=
  g = .after opening ∨ ∃ e ∈ l, g = .braces e.2 ∨ g = .after (some e.2)

theorem Region.Among.cons {e : Node × Nat} {g : Region} (h : g.Among opening l) :
    g.Among opening (e :: l) := by
  refine h.imp_right ?_
  rintro ⟨x, hx, hg⟩
  exact ⟨x, List.mem_cons_of_mem e hx, hg⟩

theorem Region.Among.opened {e : Node × Nat} {g : Region} (h : g.Among (some e.2) l) :
    g.Among opening (e :: l) := by
  rcases h with hg | ⟨x, hx, hg⟩
  · exact .inr ⟨e, List.mem_cons_self, .inr hg⟩
  · exact .inr ⟨x, List.mem_cons_of_mem e hx, hg⟩

theorem region_of_mem_inBraces {i : Nat} {d body : Node} {o : Occurrence}
    (ho : o ∈ inBraces i d body) : o.region = .braces i := by
  obtain ⟨_, _, rfl⟩ := List.mem_map.1 ho
  rfl

theorem among_of_mem_placed {o : Occurrence} (ho : o ∈ placed opening l) :
    o.region.Among opening l := by
  induction l generalizing opening with
  | nil => cases ho
  | cons e rest ih =>
    rw [placed] at ho
    split at ho
    · rcases List.mem_cons.1 ho with rfl | ho
      · exact .inl rfl
      · exact (ih ho).cons
    · split at ho
      · rcases List.mem_append.1 ho with ho | ho
        · exact .inr ⟨e, List.mem_cons_self, .inl (region_of_mem_inBraces ho)⟩
        · exact (ih ho).cons
      · exact (ih ho).opened

theorem among_of_mem_parts {current : List Occurrence} {part : Part}
    (hpart : part ∈ parts opening current l) : part.region.Among opening l := by
  induction l generalizing opening current with
  | nil =>
    obtain rfl := List.mem_singleton.1 hpart
    exact .inl rfl
  | cons e rest ih =>
    rw [parts] at hpart
    split at hpart
    · exact (ih hpart).cons
    · split at hpart
      · rcases List.mem_cons.1 hpart with rfl | hpart
        · exact .inr ⟨e, List.mem_cons_self, .inl rfl⟩
        · exact (ih hpart).cons
      · rcases List.mem_cons.1 hpart with rfl | hpart
        · exact .inl rfl
        · exact (ih hpart).opened

theorem Ascending.not_among_braces {e : Node × Nat} (h : Ascending opening (e :: l)) :
    ¬ (Region.braces e.2).Among opening l := by
  rintro (hg | ⟨x, hx, hg | hg⟩)
  · cases hg
  · exact Nat.ne_of_lt (List.rel_of_pairwise_cons h.indices hx) (Region.braces.inj hg)
  · cases hg

theorem Ascending.not_among_opening {e : Node × Nat} (h : Ascending opening (e :: l)) :
    ¬ (Region.after opening).Among (some e.2) l := by
  rintro (hg | ⟨x, hx, hg | hg⟩)
  · cases hg
    exact Nat.lt_irrefl _ (h.behind e.2 rfl e List.mem_cons_self)
  · cases hg
  · cases hg
    exact Nat.lt_irrefl _ (h.behind x.2 rfl x (List.mem_cons_of_mem e hx))

/-- Each region is split off once. -/
theorem nodup_regions (h : Ascending opening l) (current : List Occurrence) :
    ((parts opening current l).map (·.region)).Nodup := by
  induction l generalizing opening current with
  | nil => simp [parts]
  | cons e rest ih =>
    rw [parts]
    split
    · exact ih h.tail _
    · split
      · rw [List.map_cons, List.nodup_cons]
        refine ⟨?_, ih h.tail current⟩
        intro hmem
        obtain ⟨part, hpart, heq⟩ := List.mem_map.1 hmem
        have hamong := among_of_mem_parts hpart
        rw [heq] at hamong
        exact h.not_among_braces hamong
      · rw [List.map_cons, List.nodup_cons]
        refine ⟨?_, ih h.opened []⟩
        intro hmem
        obtain ⟨part, hpart, heq⟩ := List.mem_map.1 hmem
        have hamong := among_of_mem_parts hpart
        rw [heq] at hamong
        exact h.not_among_opening hamong

/-- A region that is not among those of a list has no statement there. -/
theorem filter_placed_eq_nil {g : Region} (hg : ¬ g.Among opening l) :
    (placed opening l).filter (·.region = g) = [] := by
  rw [List.filter_eq_nil_iff]
  intro o ho hregion
  exact hg (of_decide_eq_true hregion ▸ among_of_mem_placed ho)

theorem filter_inBraces {g : Region} (i : Nat) (d body : Node) :
    (inBraces i d body).filter (·.region = g) = if .braces i = g then inBraces i d body else [] := by
  split
  · rename_i hg
    rw [List.filter_eq_self]
    intro o ho
    simp [region_of_mem_inBraces ho, hg]
  · rename_i hg
    rw [List.filter_eq_nil_iff]
    intro o ho
    simp [region_of_mem_inBraces ho, hg]

/-- A region that is split off has all of its statements, in order. -/
theorem statements_eq_filter (h : Ascending opening l) {current : List Occurrence} {part : Part}
    (hpart : part ∈ parts opening current l) :
    part.statements = (if .after opening = part.region then current else []) ++
      (placed opening l).filter (·.region = part.region) := by
  induction l generalizing opening current with
  | nil =>
    obtain rfl := List.mem_singleton.1 hpart
    simp [placed]
  | cons e rest ih =>
    rw [parts] at hpart
    rw [placed]
    by_cases hkind : e.1.kind ≠ "namespace_definition"
    · rw [if_pos hkind] at hpart ⊢
      rw [ih h.tail hpart, List.filter_cons]
      by_cases hopen : .after opening = part.region
      · simp [hopen]
      · simp [hopen]
    · rw [if_neg hkind] at hpart ⊢
      cases hbody : e.1.field? "body" with
      | some body =>
        simp only [hbody] at hpart ⊢
        rw [List.filter_append, filter_inBraces]
        rcases List.mem_cons.1 hpart with rfl | hpart
        · simp [filter_placed_eq_nil h.not_among_braces]
        · have hne : .braces e.2 ≠ part.region := fun heq =>
            h.not_among_braces (heq ▸ among_of_mem_parts hpart)
          rw [if_neg hne, List.nil_append]
          exact ih h.tail hpart
      | none =>
        simp only [hbody] at hpart ⊢
        rcases List.mem_cons.1 hpart with rfl | hpart
        · simp [filter_placed_eq_nil h.not_among_opening]
        · have hne : .after opening ≠ part.region := fun heq =>
            h.not_among_opening (heq ▸ among_of_mem_parts hpart)
          rw [if_neg hne, ih h.opened hpart]
          simp

theorem exists_open_part (opening : Option Nat) (current : List Occurrence)
    (l : List (Node × Nat)) : ∃ part ∈ parts opening current l, part.region = .after opening := by
  induction l generalizing current with
  | nil => exact ⟨_, List.mem_singleton_self _, rfl⟩
  | cons e rest ih =>
    rw [parts]
    split
    · exact ih _
    · split
      · obtain ⟨part, hpart, hregion⟩ := ih current
        exact ⟨part, List.mem_cons_of_mem _ hpart, hregion⟩
      · exact ⟨_, List.mem_cons_self, rfl⟩

theorem exists_part_of_mem_placed {o : Occurrence} (ho : o ∈ placed opening l)
    (current : List Occurrence) : ∃ part ∈ parts opening current l, part.region = o.region := by
  induction l generalizing opening current with
  | nil => cases ho
  | cons e rest ih =>
    rw [placed] at ho
    rw [parts]
    by_cases hkind : e.1.kind ≠ "namespace_definition"
    · rw [if_pos hkind] at ho ⊢
      rcases List.mem_cons.1 ho with rfl | ho
      · exact exists_open_part _ _ _
      · exact ih ho _
    · rw [if_neg hkind] at ho ⊢
      cases hbody : e.1.field? "body" with
      | some body =>
        simp only [hbody] at ho
        rw [List.exists_mem_cons_iff]
        rcases List.mem_append.1 ho with ho | ho
        · exact .inl (region_of_mem_inBraces ho).symm
        · exact .inr (ih ho current)
      | none =>
        simp only [hbody] at ho
        rw [List.exists_mem_cons_iff]
        exact .inr (ih ho [])

def regions (root : Node) : List Part :=
  parts none [] (namedAt root)

theorem blocksFrom_eq_regions (root : Node) :
    blocksFrom "" [] root.namedChildren = (regions root).map (·.block root) := by
  rw [← map_fst_namedAt]
  exact @blocksFrom_eq root none (namedAt root) [] fun e he => (mem_namedAt_iff.1 he).1

variable {part : Part}

theorem statements_of_mem_regions (hpart : part ∈ regions root) :
    part.statements = (placed none (namedAt root)).filter (·.region = part.region) := by
  rw [statements_eq_filter (Remaining.start root).ascending hpart]
  simp

/-- A region has exactly its statements. -/
theorem mem_statements_iff (hpart : part ∈ regions root) {o : Occurrence} :
    o ∈ part.statements ↔
      o.region = part.region ∧ Statement root part.region o.position o.node := by
  rw [statements_of_mem_regions hpart, List.mem_filter, decide_eq_true_eq, and_comm]
  apply and_congr_right
  intro hregion
  rw [← hregion]
  exact mem_placed_iff

theorem pairwise_statements (hpart : part ∈ regions root) :
    part.statements.Pairwise fun a b => a.position.Before b.position := by
  rw [statements_of_mem_regions hpart]
  exact (pairwise_placed (pairwise_namedAt root)).filter _

theorem exists_region_of_statement {g : Region} {p : Position} {n : Node}
    (h : Statement root g p n) : ∃ part ∈ regions root, part.region = g :=
  exists_part_of_mem_placed (mem_placed_iff.2 h) []

end

end ContractCheck.Declaration
