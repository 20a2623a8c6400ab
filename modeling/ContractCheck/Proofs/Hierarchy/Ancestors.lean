import ContractCheck.Hierarchy.Basic
import ContractCheck.Proofs.Registry.Indexed
import Mathlib.Logic.Relation

/-!
The ancestors of a name are the names that are reached from it over direct supertypes. Names are
compared by their keys here; full names, which have no backslash in front, are decided by letter case
alone.
-/
namespace ContractCheck

open Text

namespace Registry

def Extends (r : Registry) (k k' : String) : Prop :=
  ∃ name ∈ r.supertypesOfKey k, nameKey name = k'

theorem ancestors_congr (r : Registry) {a b : String} (h : nameKey a = nameKey b) :
    r.ancestors a = r.ancestors b := by
  rw [ancestors, ancestors, directSupertypes, directSupertypes, h]

/-- A search gives names that the queue leads to and that were not seen before. -/
theorem sound_ancestorsFrom {r : Registry} {seen queue : List String} {n : String}
    (hn : n ∈ r.ancestorsFrom seen queue) :
    nameKey n ∉ seen ∧
      ∃ q ∈ queue, Relation.ReflTransGen r.Extends (nameKey q) (nameKey n) := by
  fun_induction ancestorsFrom r seen queue with
  | case1 => simp at hn
  | case2 seen name queue hs ih =>
    obtain ⟨hnew, q, hq, hreach⟩ := ih hn
    exact ⟨hnew, q, List.mem_cons_of_mem name hq, hreach⟩
  | case3 seen name queue hs ih =>
    rcases List.mem_cons.1 hn with rfl | hn
    · exact ⟨hs, n, List.mem_cons_self, .refl⟩
    · obtain ⟨hnew, q, hq, hreach⟩ := ih hn
      refine ⟨fun h => hnew (List.mem_cons_of_mem _ h), ?_⟩
      rcases List.mem_append.1 hq with hq | hq
      · exact ⟨q, List.mem_cons_of_mem name hq, hreach⟩
      · have hstep : r.Extends (nameKey name) (nameKey q) := ⟨q, hq, rfl⟩
        exact ⟨name, List.mem_cons_self, .head hstep hreach⟩

/-- A search leaves nothing out: each name in the queue, and each direct supertype of a name that is
found, was seen before or is found. -/
theorem complete_ancestorsFrom (r : Registry) (seen queue : List String) :
    (∀ q ∈ queue, nameKey q ∈ seen ∨ nameKey q ∈ (r.ancestorsFrom seen queue).map nameKey) ∧
      ∀ n ∈ r.ancestorsFrom seen queue, ∀ s ∈ r.directSupertypes n,
        nameKey s ∈ seen ∨ nameKey s ∈ (r.ancestorsFrom seen queue).map nameKey := by
  fun_induction ancestorsFrom r seen queue with
  | case1 => simp
  | case2 seen name queue hs ih =>
    refine ⟨?_, ih.2⟩
    intro q hq
    rcases List.mem_cons.1 hq with rfl | hq
    · exact Or.inl hs
    · exact ih.1 q hq
  | case3 seen name queue hs ih =>
    -- what the rest of the search has seen before is the name itself or was seen here
    have hwiden : ∀ {k : String} {found : List String},
        k ∈ nameKey name :: seen ∨ k ∈ found.map nameKey →
          k ∈ seen ∨ k ∈ (name :: found).map nameKey := by
      intro k found hk
      rw [List.map_cons]
      rcases hk with hk | hk
      · rcases List.mem_cons.1 hk with rfl | hk
        · exact Or.inr List.mem_cons_self
        · exact Or.inl hk
      · exact Or.inr (List.mem_cons_of_mem _ hk)
    constructor
    · intro q hq
      rcases List.mem_cons.1 hq with rfl | hq
      · exact Or.inr (by simp)
      · exact hwiden (ih.1 q (List.mem_append_left _ hq))
    · intro n hn s hsuper
      rcases List.mem_cons.1 hn with rfl | hn
      · exact hwiden (ih.1 s (List.mem_append_right _ hsuper))
      · exact hwiden (ih.2 n hn s hsuper)

theorem nodup_ancestorsFrom (r : Registry) (seen queue : List String) :
    ((r.ancestorsFrom seen queue).map nameKey).Nodup := by
  fun_induction ancestorsFrom r seen queue with
  | case1 => exact List.nodup_nil
  | case2 seen name queue hs ih => exact ih
  | case3 seen name queue hs ih =>
    rw [List.map_cons, List.nodup_cons]
    refine ⟨?_, ih⟩
    intro hmem
    obtain ⟨n, hn, hkey⟩ := List.mem_map.1 hmem
    have hnew := (sound_ancestorsFrom hn).1
    rw [hkey] at hnew
    exact hnew List.mem_cons_self

theorem nodup_ancestors (r : Registry) (name : String) :
    ((r.ancestors name).map nameKey).Nodup :=
  r.nodup_ancestorsFrom _ _

/-- The ancestors of a name, by key, are what is reached from it, apart from the name itself. -/
theorem mem_ancestors_iff (r : Registry) (name k : String) :
    k ∈ (r.ancestors name).map nameKey ↔
      k ≠ nameKey name ∧ Relation.ReflTransGen r.Extends (nameKey name) k := by
  constructor
  · intro hk
    obtain ⟨n, hn, rfl⟩ := List.mem_map.1 hk
    obtain ⟨hnew, q, hq, hreach⟩ := sound_ancestorsFrom hn
    have hstep : r.Extends (nameKey name) (nameKey q) := ⟨q, hq, rfl⟩
    exact ⟨by simpa using hnew, .head hstep hreach⟩
  · rintro ⟨hne, hreach⟩
    obtain ⟨hqueue, hclosed⟩ :=
      r.complete_ancestorsFrom [nameKey name] (r.directSupertypes name)
    -- the name and its ancestors together are closed under direct supertypes
    have hall : k = nameKey name ∨ k ∈ (r.ancestors name).map nameKey := by
      clear hne
      induction hreach with
      | refl => exact Or.inl rfl
      | tail _ hstep ih =>
        obtain ⟨s, hs, rfl⟩ := hstep
        rcases ih with rfl | ih
        · simpa [ancestors] using hqueue s hs
        · obtain ⟨n, hn, rfl⟩ := List.mem_map.1 ih
          simpa [ancestors] using hclosed n hn s hs
    exact hall.resolve_left hne

/-- Each ancestor is a direct supertype of something. -/
theorem supertype_of_mem_ancestorsFrom {r : Registry} {seen queue : List String} {n : String}
    (hn : n ∈ r.ancestorsFrom seen queue) : n ∈ queue ∨ ∃ m, n ∈ r.directSupertypes m := by
  fun_induction ancestorsFrom r seen queue with
  | case1 => simp at hn
  | case2 seen name queue hs ih => exact (ih hn).imp_left (List.mem_cons_of_mem name)
  | case3 seen name queue hs ih =>
    rcases List.mem_cons.1 hn with rfl | hn
    · exact Or.inl List.mem_cons_self
    · rcases ih hn with h | h
      · rcases List.mem_append.1 h with h | h
        · exact Or.inl (List.mem_cons_of_mem name h)
        · exact Or.inr ⟨name, h⟩
      · exact Or.inr h

theorem supertype_of_mem_ancestors {r : Registry} {name n : String} (hn : n ∈ r.ancestors name) :
    ∃ m, n ∈ r.directSupertypes m := by
  rcases supertype_of_mem_ancestorsFrom hn with h | h
  · exact ⟨name, h⟩
  · exact h

end Registry

end ContractCheck
