import ContractCheck.Text.Name
import ContractCheck.TypeExpr.Basic
import Mathlib.Data.List.Basic

/-!
Lower-casing and the backslashes in front of a name. Lower-casing turns no other character into a
backslash, and backslashes in front do not change how the rest is lower-cased; so the lower-cased
name decides the key under which the name is looked up.
-/
namespace ContractCheck.Text

theorem isCaseIgnorable_backslash : isCaseIgnorable '\\' = false := by decide +kernel

theorem isCased_backslash : isCased '\\' = false := by decide +kernel

theorem lowerAt_backslash (before after : List Char) : lowerAt before '\\' after = ['\\'] := by
  have h : lowerSimple '\\' = '\\' := by decide +kernel
  simp [lowerAt, h]

theorem smallLetter_gt {b n : Nat} (hn : b < n) {runs : List CaseRun}
    (hr : ∀ r ∈ runs, (b : Int) < r.first + r.shift) : b < smallLetter n runs := by
  induction runs with
  | nil => exact hn
  | cons r rest ih =>
    have hfirst := hr r List.mem_cons_self
    have hrest := ih fun q hq => hr q (List.mem_cons_of_mem r hq)
    rw [smallLetter]
    split
    · exact hn
    · split
      · omega
      · exact hrest

theorem caseRuns_above_ascii_signs : ∀ r ∈ caseRuns, (92 : Int) < r.first + r.shift := by
  decide +kernel

theorem toNat_ofNat_ne {b n : Nat} (hb : 0 < b) (hn : b < n) : (Char.ofNat n).toNat ≠ b := by
  by_cases hvalid : n.isValidChar
  · have hchar : Char.ofNat n = Char.ofNatAux n hvalid := dif_pos hvalid
    rw [hchar]
    exact Nat.ne_of_gt hn
  · have hchar : Char.ofNat n = '\x00' := dif_neg hvalid
    rw [hchar]
    exact Nat.ne_of_lt hb

theorem toLower_ne_backslash {c : Char} (hn : c.toNat < 128) (hc : c ≠ '\\') :
    c.toLower ≠ '\\' := by
  have h : ∀ n < 128, Char.ofNat n ≠ '\\' → (Char.ofNat n).toLower ≠ '\\' := by decide +kernel
  simpa using h c.toNat hn (by simpa using hc)

theorem lowerSimple_ne_backslash {c : Char} (hc : c ≠ '\\') : lowerSimple c ≠ '\\' := by
  rw [lowerSimple]
  split
  · exact toLower_ne_backslash ‹_› hc
  · have hgt := smallLetter_gt (b := 92) (n := c.toNat) (by omega) caseRuns_above_ascii_signs
    intro h
    exact toNat_ofNat_ne (by omega) hgt (congrArg Char.toNat h)

/-- What another character becomes does not start with a backslash. -/
theorem lowerAt_eq_cons {c : Char} (hc : c ≠ '\\') (before after : List Char) :
    ∃ d ds, lowerAt before c after = d :: ds ∧ d ≠ '\\' := by
  rw [lowerAt]
  split
  · refine ⟨_, [], rfl, ?_⟩
    split <;> decide
  · split
    · exact ⟨'i', _, rfl, by decide⟩
    · exact ⟨_, [], rfl, lowerSimple_ne_backslash hc⟩

theorem endsWord_append_backslashes (before after : List Char) {front : List Char}
    (hf : ∀ c ∈ front, c = '\\') : endsWord (before ++ front) after = endsWord before after := by
  induction before with
  | nil =>
    cases front with
    | nil => rfl
    | cons c cs =>
      have hc : c = '\\' := hf c List.mem_cons_self
      subst hc
      simp [endsWord, isCaseIgnorable_backslash, isCased_backslash]
  | cons c before ih =>
    by_cases hc : isCaseIgnorable c
    · simpa [endsWord, hc] using ih
    · simp [endsWord, hc]

theorem lowerFrom_append_backslashes (cs before : List Char) {front : List Char}
    (hf : ∀ c ∈ front, c = '\\') : lowerFrom (before ++ front) cs = lowerFrom before cs := by
  induction cs generalizing before with
  | nil => rfl
  | cons c cs ih =>
    simp only [lowerFrom, lowerAt, endsWord_append_backslashes before cs hf]
    rw [← List.cons_append, ih (c :: before)]

theorem dropWhile_lowerFrom (cs : List Char) {front : List Char} (hf : ∀ c ∈ front, c = '\\') :
    (lowerFrom front cs).dropWhile (· = '\\') = lowerFrom [] (cs.dropWhile (· = '\\')) := by
  induction cs generalizing front with
  | nil => rfl
  | cons c cs ih =>
    by_cases hc : c = '\\'
    · subst hc
      have hf' : ∀ d ∈ '\\' :: front, d = '\\' := by
        intro d hd
        rcases List.mem_cons.1 hd with h | h
        · exact h
        · exact hf d h
      simpa [lowerFrom, lowerAt_backslash] using ih hf'
    · obtain ⟨d, ds, hd, hne⟩ := lowerAt_eq_cons hc front cs
      have hdrop : (lowerFrom front (c :: cs)).dropWhile (· = '\\') = lowerFrom front (c :: cs) := by
        simp [lowerFrom, hd, hne]
      rw [hdrop, ← List.nil_append front, lowerFrom_append_backslashes (c :: cs) [] hf]
      simp [hc]

/-- Dropping backslashes and lower-casing may change places. -/
theorem nameKey_eq (name : String) : nameKey name = dropBackslashes (lower name) := by
  have hnone : ∀ c ∈ ([] : List Char), c = '\\' := by simp
  simp only [nameKey, lower, dropBackslashes, String.toList_ofList]
  rw [dropWhile_lowerFrom name.toList hnone]

theorem nameKey_congr {a b : String} (h : lower a = lower b) : nameKey a = nameKey b := by
  rw [nameKey_eq, nameKey_eq, h]

def Unslashed (name : String) : Prop :=
  name.toList.head? ≠ some '\\'

instance (name : String) : Decidable (Unslashed name) :=
  inferInstanceAs (Decidable (_ ≠ _))

theorem dropBackslashes_of_unslashed {name : String} (h : Unslashed name) :
    dropBackslashes name = name := by
  have hd : name.toList.dropWhile (· = '\\') = name.toList := by
    rw [Unslashed] at h
    cases hl : name.toList with
    | nil => rfl
    | cons c cs =>
      have hc : c ≠ '\\' := by simpa [hl] using h
      simp [hc]
  rw [dropBackslashes, hd, String.ofList_toList]

theorem unslashed_dropBackslashes (name : String) : Unslashed (dropBackslashes name) := by
  have h := List.head?_dropWhile_not (· = '\\') name.toList
  intro hh
  simp only [dropBackslashes, String.toList_ofList] at hh
  simp [hh] at h

theorem unslashed_lower_iff (name : String) : Unslashed (lower name) ↔ Unslashed name := by
  simp only [Unslashed, lower, String.toList_ofList]
  cases name.toList with
  | nil => simp [lowerFrom]
  | cons c cs =>
    by_cases hc : c = '\\'
    · simp [hc, lowerFrom, lowerAt_backslash]
    · obtain ⟨d, ds, hd, hne⟩ := lowerAt_eq_cons hc [] cs
      simp [lowerFrom, hd, hc, hne]

theorem unslashed_congr {a b : String} (h : lower a = lower b) (ha : Unslashed a) : Unslashed b := by
  rw [← unslashed_lower_iff, ← h]
  exact (unslashed_lower_iff a).2 ha

theorem nameKey_of_unslashed {name : String} (h : Unslashed name) : nameKey name = lower name := by
  rw [nameKey, dropBackslashes_of_unslashed h]

/-- A lower-cased name that is a key belongs to a name without a backslash in front. -/
theorem unslashed_of_lower_eq_nameKey {a b : String} (h : lower a = nameKey b) : Unslashed a :=
  unslashed_congr h.symm (unslashed_dropBackslashes b)

theorem unslashed_append {a : String} (h : Unslashed a) (hne : a ≠ "") (b : String) :
    Unslashed (a ++ b) := by
  obtain ⟨c, cs, hc⟩ : ∃ c cs, a.toList = c :: cs :=
    List.exists_cons_of_ne_nil (by simpa using hne)
  simpa [Unslashed, String.toList_append, hc] using h

end ContractCheck.Text
