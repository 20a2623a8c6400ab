import ContractCheck.Text.Keyword
import Mathlib.Data.List.Basic
import Mathlib.Tactic.SplitIfs

/-!
Keywords in any letter case. The letters of a text are folded to small ones, of which a long s and the
two Turkish forms of i become s and i; a keyword stands where the folded text spells it.
-/
namespace ContractCheck.Text

def foldLetter (c : Char) : Char :=
  if c.toNat = 0x17F then 's'
  else if c.toNat = 0x130 ∨ c.toNat = 0x131 then 'i'
  else c.toLower

def IsKeyword (word : String) : Prop :=
  ∀ letter ∈ word.toList, letter.isLower = true

instance (word : String) : Decidable (IsKeyword word) :=
  decidable_of_iff (word.toList.all Char.isLower = true) List.all_eq_true

theorem toLower_of_le {c : Char} (h : 128 ≤ c.toNat) : c.toLower = c := by
  refine dif_neg ?_
  rintro ⟨-, hle⟩
  have hle' : c.toNat ≤ 90 := UInt32.le_iff_toNat_le.1 hle
  omega

theorem toNat_lt_of_isLower {c : Char} (h : c.isLower = true) : c.toNat < 128 := by
  have hbounds : (decide (c.val ≥ 97) && decide (c.val ≤ 122)) = true := h
  rw [Bool.and_eq_true, decide_eq_true_eq, decide_eq_true_eq] at hbounds
  have hle : c.toNat ≤ 122 := UInt32.le_iff_toNat_le.1 hbounds.2
  omega

/-- A character that becomes a small letter is an ASCII one. -/
theorem toNat_lt_of_isLower_toLower {c : Char} (h : c.toLower.isLower = true) : c.toNat < 128 := by
  by_contra hlarge
  rw [toLower_of_le (by omega)] at h
  exact hlarge (toNat_lt_of_isLower h)

theorem foldLetter_of_isLower_toLower {c : Char} (h : c.toLower.isLower = true) :
    foldLetter c = c.toLower := by
  have hsmall := toNat_lt_of_isLower_toLower h
  rw [foldLetter, if_neg (by omega), if_neg (by omega)]

theorem isLetterCase_iff {letter c : Char} (hletter : letter.isLower = true) :
    isLetterCase letter c = true ↔ foldLetter c = letter := by
  simp only [isLetterCase, Bool.or_eq_true, Bool.and_eq_true, beq_iff_eq]
  by_cases hsmall : c.toLower = letter
  · subst hsmall
    simp [foldLetter_of_isLower_toLower hletter]
  · rw [foldLetter]
    split_ifs with hs hi
    · simp [hsmall, hs, eq_comm]
    · simp [hsmall, hs, hi, eq_comm]
    · simp [hsmall, hs, not_or.1 hi]

/-- What stands behind a keyword, the text before it being folded. -/
theorem dropKeyword_eq_some_iff {word : String} (hword : IsKeyword word) {cs rest : List Char} :
    dropKeyword word cs = some rest ↔
      ∃ taken, taken.map foldLetter = word.toList ∧ cs = taken ++ rest := by
  rw [IsKeyword] at hword
  rw [dropKeyword]
  generalize word.toList = ws at hword ⊢
  induction ws generalizing cs with
  | nil => simp [dropWord]
  | cons w ws ih =>
    have hw := hword w List.mem_cons_self
    have hws : ∀ l ∈ ws, l.isLower = true := fun l hl => hword l (List.mem_cons_of_mem w hl)
    cases cs with
    | nil =>
      rw [dropWord]
      refine iff_of_false (by simp) ?_
      rintro ⟨taken, htaken, heq⟩
      rw [eq_comm, List.append_eq_nil_iff] at heq
      rw [heq.1] at htaken
      cases htaken
    | cons c cs =>
      rw [dropWord]
      by_cases hc : isLetterCase w c = true
      · rw [if_pos hc, ih hws]
        rw [isLetterCase_iff hw] at hc
        constructor
        · rintro ⟨taken, htaken, rfl⟩
          exact ⟨c :: taken, by rw [List.map_cons, hc, htaken], rfl⟩
        · rintro ⟨taken, htaken, heq⟩
          cases taken with
          | nil => cases htaken
          | cons d taken =>
            rw [List.map_cons, List.cons.injEq] at htaken
            rw [List.cons_append, List.cons.injEq] at heq
            exact ⟨taken, htaken.2, heq.2⟩
      · rw [if_neg hc]
        refine iff_of_false (by simp) ?_
        rintro ⟨taken, htaken, heq⟩
        cases taken with
        | nil => cases htaken
        | cons d taken =>
          rw [List.map_cons, List.cons.injEq] at htaken
          rw [List.cons_append, List.cons.injEq] at heq
          exact hc ((isLetterCase_iff hw).2 (heq.1 ▸ htaken.1))

/-- A keyword is found in any letter case. -/
theorem map_foldLetter_of_map_toLower {word : String} (hword : IsKeyword word) {cs : List Char}
    (h : cs.map Char.toLower = word.toList) : cs.map foldLetter = word.toList := by
  rw [← h]
  refine List.map_congr_left fun c hc => foldLetter_of_isLower_toLower ?_
  exact hword c.toLower (h ▸ List.mem_map_of_mem hc)

end ContractCheck.Text
