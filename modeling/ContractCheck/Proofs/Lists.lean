import Mathlib.Data.List.Forall2
import Mathlib.Data.List.Nodup
import Mathlib.Tactic.ByContra

/-!
Lists that are read element by element, where some of the elements are left out.
-/
namespace ContractCheck

variable {α β γ : Type}

theorem nodup_eraseDups [BEq α] [LawfulBEq α] (l : List α) : l.eraseDups.Nodup := by
  cases l with
  | nil => simp
  | cons a l =>
    rw [List.eraseDups_cons, List.nodup_cons]
    exact ⟨by simp, nodup_eraseDups _⟩
termination_by l.length
decreasing_by
  rw [List.length_cons]
  exact Nat.lt_succ_of_le (List.length_filter_le _ _)

theorem pairwise_zipIdx (l : List α) (k : Nat) :
    (l.zipIdx k).Pairwise fun a b => a.2 < b.2 := by
  induction l generalizing k with
  | nil => exact .nil
  | cons a l ih =>
    rw [List.zipIdx_cons, List.pairwise_cons]
    exact ⟨fun b hb => List.le_snd_of_mem_zipIdx hb, ih (k + 1)⟩

theorem getElem?_findIdx_of_find? {p : α → Bool} {l : List α} {a : α}
    (h : l.find? p = some a) : l[l.findIdx p]? = some a := by
  induction l with
  | nil => cases h
  | cons b l ih =>
    rw [List.find?_cons] at h
    rw [List.findIdx_cons]
    cases hb : p b with
    | true =>
      rw [hb] at h
      exact h
    | false =>
      rw [hb] at h
      exact ih h

/-- Looking only at some elements finds the same just if what is found anyway is one of them. -/
theorem map_find?_eq_iff {chosen p : α → Bool} {f : α → β}
    (hf : ∀ x y, chosen x = false → chosen y = true → f x ≠ f y) (xs : List α) :
    (xs.find? p).map f = ((xs.filter chosen).find? p).map f ↔
      ∀ x, xs.find? p = some x → chosen x = true := by
  constructor
  · intro heq x hx
    by_contra hchosen
    rw [hx, Option.map_some, eq_comm, Option.map_eq_some_iff] at heq
    obtain ⟨y, hy, hfy⟩ := heq
    have hmem := List.mem_filter.1 (List.mem_of_find?_eq_some hy)
    exact hf x y (by simpa using hchosen) hmem.2 hfy.symm
  · intro h
    cases hx : xs.find? p with
    | none =>
      have hnone : (xs.filter chosen).find? p = none := by
        rw [List.find?_eq_none] at hx ⊢
        exact fun a ha => hx a (List.mem_filter.1 ha).1
      rw [hnone]
    | some x =>
      obtain ⟨hpx, as, bs, rfl, has⟩ := List.find?_eq_some_iff_append.1 hx
      have hsplit : (as ++ x :: bs).filter chosen = as.filter chosen ++ x :: bs.filter chosen := by
        rw [List.filter_append, List.filter_cons_of_pos (h x hx)]
      have hsome : ((as ++ x :: bs).filter chosen).find? p = some x :=
        List.find?_eq_some_iff_append.2
          ⟨hpx, _, _, hsplit, fun a ha => has a (List.mem_filter.1 ha).1⟩
      rw [hsome]

theorem flatMap_filter_of_nil {p : α → Bool} {g : α → List β} (as : List α)
    (hnil : ∀ a, p a = false → g a = []) : (as.filter p).flatMap g = as.flatMap g := by
  induction as with
  | nil => rfl
  | cons a as ih =>
    cases ha : p a with
    | false =>
      rw [List.filter_cons_of_neg (by simp [ha]), ih, List.flatMap_cons, hnil a ha, List.nil_append]
    | true => rw [List.filter_cons_of_pos ha, List.flatMap_cons, List.flatMap_cons, ih]

/-- Where each item is named after the one it comes from, dropping items repeats no name. -/
theorem names_filterMap_sublist (f : α → Option β) (nameOf : β → γ) (key : α → γ)
    (h : ∀ a b, f a = some b → nameOf b = key a) (l : List α) :
    ((l.filterMap f).map nameOf).Sublist (l.map key) := by
  induction l with
  | nil => exact .slnil
  | cons a l ih =>
    cases hf : f a with
    | none =>
      rw [List.filterMap_cons_none hf]
      exact .cons _ ih
    | some b =>
      rw [List.filterMap_cons_some hf, List.map_cons, List.map_cons, h a b hf]
      exact .cons_cons _ ih

/-- Items that are read, each with what is read of it. -/
theorem forall₂_filterMap {R : α → β → Prop} {f : α → Option β} {q : α → Bool}
    {l : List α} (h : ∀ a ∈ l, (q a = false ∧ f a = none) ∨ (q a = true ∧ ∃ b, f a = some b ∧ R a b)) :
    List.Forall₂ R (l.filter q) (l.filterMap f) := by
  induction l with
  | nil => exact .nil
  | cons a l ih =>
    rw [List.forall_mem_cons] at h
    rcases h.1 with ⟨hq, hf⟩ | ⟨hq, b, hf, hab⟩
    · rw [List.filter_cons, hq, List.filterMap_cons, hf]
      exact ih h.2
    · rw [List.filter_cons, hq, List.filterMap_cons, hf]
      exact .cons hab (ih h.2)

theorem forall₂_flatMap {R : β → γ → Prop} {f : α → List β} {g : α → List γ}
    {l : List α} (h : ∀ a ∈ l, List.Forall₂ R (f a) (g a)) :
    List.Forall₂ R (l.flatMap f) (l.flatMap g) := by
  induction l with
  | nil => exact .nil
  | cons a l ih =>
    rw [List.forall_mem_cons] at h
    exact List.rel_append h.1 (ih h.2)

end ContractCheck
