import ContractCheck.Text.Name
import Mathlib.Data.List.Basic

/-!
Dropping repeated names. The names that stay are spelled and ordered as they first occur, and dropping
repetitions in two parts of a list beforehand makes no difference.
-/
namespace ContractCheck.Text

theorem mem_of_mem_dedupeFrom {seen names : List String} {x : String}
    (h : x ∈ dedupeFrom seen names) : x ∈ names ∧ lower x ∉ seen := by
  induction names generalizing seen with
  | nil => simp [dedupeFrom] at h
  | cons name names ih =>
    rw [dedupeFrom] at h
    by_cases hs : lower name ∈ seen
    · rw [if_pos hs] at h
      exact ⟨List.mem_cons_of_mem name (ih h).1, (ih h).2⟩
    · rw [if_neg hs] at h
      cases List.mem_cons.1 h with
      | inl hx => exact ⟨hx ▸ List.mem_cons_self, hx ▸ hs⟩
      | inr hx =>
        have hfound := ih hx
        exact ⟨List.mem_cons_of_mem name hfound.1, fun hin => hfound.2 (List.mem_cons_of_mem _ hin)⟩

theorem mem_keys_dedupeFrom_iff (seen names : List String) (k : String) :
    k ∈ (dedupeFrom seen names).map lower ↔ k ∈ names.map lower ∧ k ∉ seen := by
  induction names generalizing seen with
  | nil => simp [dedupeFrom]
  | cons name names ih =>
    rw [dedupeFrom]
    split_ifs with hs
    · rw [ih]
      grind
    · rw [List.map_cons, List.mem_cons, ih]
      grind

theorem dedupeFrom_congr {seen seen' : List String} (h : ∀ k, k ∈ seen ↔ k ∈ seen')
    (names : List String) : dedupeFrom seen names = dedupeFrom seen' names := by
  induction names generalizing seen seen' with
  | nil => rfl
  | cons name names ih =>
    have hmore : ∀ k, k ∈ lower name :: seen ↔ k ∈ lower name :: seen' := by simp [h]
    rw [dedupeFrom, dedupeFrom, ih h, ih hmore]
    simp only [h]

theorem dedupeFrom_append (seen xs ys : List String) :
    dedupeFrom seen (xs ++ ys) = dedupeFrom seen xs ++ dedupeFrom (xs.map lower ++ seen) ys := by
  induction xs generalizing seen with
  | nil => rfl
  | cons x xs ih =>
    rw [List.cons_append, dedupeFrom, dedupeFrom]
    split_ifs with hs
    · rw [ih, List.map_cons]
      refine congrArg _ (dedupeFrom_congr ?_ ys)
      grind
    · rw [ih, List.cons_append]
      refine congrArg _ (congrArg _ (dedupeFrom_congr ?_ ys))
      grind

/-- Repetitions that were dropped before do not matter. -/
theorem dedupeFrom_dedupeFrom {seen seen' : List String} (h : ∀ k ∈ seen, k ∈ seen')
    (names : List String) : dedupeFrom seen' (dedupeFrom seen names) = dedupeFrom seen' names := by
  induction names generalizing seen seen' with
  | nil => rfl
  | cons name names ih =>
    rw [dedupeFrom]
    split_ifs with hs
    · rw [ih h, dedupeFrom, if_pos (h _ hs)]
    · rw [dedupeFrom, dedupeFrom]
      split_ifs with hs'
      · exact ih (by grind)
      · rw [ih (by grind)]

theorem dedupe_append_dedupe (xs ys : List String) :
    dedupe (dedupe xs ++ dedupe ys) = dedupe (xs ++ ys) := by
  have hkeys : ∀ k, k ∈ (dedupeFrom [] xs).map lower ++ [] ↔ k ∈ xs.map lower ++ [] := by
    intro k
    simpa using mem_keys_dedupeFrom_iff [] xs k
  simp only [dedupe, dedupeFrom_append]
  rw [dedupeFrom_congr hkeys, dedupeFrom_dedupeFrom (by simp), dedupeFrom_dedupeFrom (by simp)]

def firstPlace (names : List String) (name : String) : Nat :=
  names.findIdx (sameName name)

theorem firstPlace_cons_self (name : String) (names : List String) :
    firstPlace (name :: names) name = 0 := by
  simp [firstPlace, List.findIdx_cons, sameName]

theorem firstPlace_cons_of_ne {x name : String} (h : lower x ≠ lower name) (names : List String) :
    firstPlace (name :: names) x = firstPlace names x + 1 := by
  have hother : sameName x name = false := beq_eq_false_iff_ne.2 h
  rw [firstPlace, List.findIdx_cons, hother]
  rfl

/-- The names that stay are in the order in which they first occur. -/
theorem pairwise_firstPlace_dedupeFrom (seen names : List String) :
    (dedupeFrom seen names).Pairwise fun x y => firstPlace names x < firstPlace names y := by
  induction names generalizing seen with
  | nil => exact List.Pairwise.nil
  | cons name names ih =>
    have hlater : ∀ {seen' : List String}, (∀ x ∈ dedupeFrom seen' names, lower x ≠ lower name) →
        (dedupeFrom seen' names).Pairwise
          fun x y => firstPlace (name :: names) x < firstPlace (name :: names) y := by
      intro seen' hne
      refine (ih seen').imp_of_mem ?_
      intro x y hx hy hxy
      rw [firstPlace_cons_of_ne (hne x hx), firstPlace_cons_of_ne (hne y hy)]
      omega
    rw [dedupeFrom]
    split_ifs with hs
    · exact hlater fun x hx heq => (mem_of_mem_dedupeFrom hx).2 (heq ▸ hs)
    · have hne : ∀ x ∈ dedupeFrom (lower name :: seen) names, lower x ≠ lower name :=
        fun x hx heq => (mem_of_mem_dedupeFrom hx).2 (heq ▸ List.mem_cons_self)
      refine List.Pairwise.cons ?_ (hlater hne)
      intro x hx
      rw [firstPlace_cons_self, firstPlace_cons_of_ne (hne x hx)]
      omega

theorem pairwise_lower_dedupeFrom (seen names : List String) :
    (dedupeFrom seen names).Pairwise fun x y => lower x ≠ lower y := by
  refine (pairwise_firstPlace_dedupeFrom seen names).imp ?_
  intro x y hlt heq
  have hsame : sameName x = sameName y := by
    funext z
    rw [sameName, sameName, heq]
  rw [firstPlace, firstPlace, hsame] at hlt
  omega

theorem nodup_dedupeFrom (seen names : List String) : (dedupeFrom seen names).Nodup :=
  (pairwise_lower_dedupeFrom seen names).imp fun h heq => h (congrArg lower heq)

/-- A name that stays is spelled as it first occurs. -/
theorem find?_of_mem_dedupeFrom {seen names : List String} {x : String}
    (h : x ∈ dedupeFrom seen names) : names.find? (sameName x) = some x := by
  induction names generalizing seen with
  | nil => cases h
  | cons name names ih =>
    rw [dedupeFrom] at h
    split_ifs at h with hs
    · have hne : lower x ≠ lower name := fun heq => (mem_of_mem_dedupeFrom h).2 (heq ▸ hs)
      rw [List.find?_cons_of_neg (by simpa [sameName] using hne), ih h]
    · cases List.mem_cons.1 h with
      | inl hx => rw [hx, List.find?_cons_of_pos (by simp [sameName])]
      | inr hx =>
        have hne : lower x ≠ lower name :=
          fun heq => (mem_of_mem_dedupeFrom hx).2 (heq ▸ List.mem_cons_self)
        rw [List.find?_cons_of_neg (by simpa [sameName] using hne), ih hx]

/-- Names are kept of a list without repetitions: each in its first spelling and in the place of its
first mention. -/
structure FirstMentions (mentioned kept : List String) : Prop where
  covered : ∀ name ∈ mentioned, ∃ other ∈ kept, lower other = lower name
  spelled : ∀ name ∈ kept, mentioned.find? (sameName name) = some name
  distinct : kept.Pairwise fun x y => lower x ≠ lower y
  ordered : kept.Pairwise fun x y => firstPlace mentioned x < firstPlace mentioned y

theorem firstMentions_dedupe (names : List String) : FirstMentions names (dedupe names) where
  covered := by
    intro name hname
    have hkey := (mem_keys_dedupeFrom_iff [] names (lower name)).2
      ⟨List.mem_map_of_mem hname, by simp⟩
    exact List.mem_map.1 hkey
  spelled _ hname := find?_of_mem_dedupeFrom hname
  distinct := pairwise_lower_dedupeFrom [] names
  ordered := pairwise_firstPlace_dedupeFrom [] names

end ContractCheck.Text
