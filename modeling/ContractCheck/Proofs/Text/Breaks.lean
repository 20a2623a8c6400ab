import ContractCheck.Proofs.Text.Cutting
import ContractCheck.Proofs.Text.LetterCase

/-!
Lower-casing goes piece by piece. Only a sigma looks at what stands around it, and it does not look
past a backslash or white space; neither of the two is made by lower-casing. So a text may be cut at
backslashes, or trimmed, before or after it is lower-cased.
-/
namespace ContractCheck.Text

structure Breaks (c : Char) : Prop where
  uncased : isCased c = false
  noticed : isCaseIgnorable c = false
  kept : ∀ before after, lowerAt before c after = [c]

theorem breaks_backslash : Breaks '\\' :=
  ⟨isCased_backslash, isCaseIgnorable_backslash, lowerAt_backslash⟩

def spaceCodes : List Nat :=
  [9, 10, 11, 12, 13, 28, 29, 30, 31, 32, 0x85, 0xA0, 0x1680, 0x2000, 0x2001, 0x2002, 0x2003, 0x2004,
    0x2005, 0x2006, 0x2007, 0x2008, 0x2009, 0x200A, 0x2028, 0x2029, 0x202F, 0x205F, 0x3000]

theorem isSpace_iff (c : Char) : isSpace c = true ↔ c.toNat ∈ spaceCodes := by
  simp only [isSpace, spaceCodes, Bool.or_eq_true, Bool.and_eq_true, decide_eq_true_eq, beq_iff_eq,
    List.mem_cons, List.not_mem_nil, or_false]
  omega

theorem breaks_of_isSpace {c : Char} (hc : isSpace c = true) : Breaks c := by
  have hcodes : ∀ k ∈ spaceCodes, isCased (Char.ofNat k) = false ∧
      isCaseIgnorable (Char.ofNat k) = false ∧ lowerSimple (Char.ofNat k) = Char.ofNat k ∧
      k ≠ 0x3A3 ∧ k ≠ 0x130 := by
    decide +kernel
  have hc' := hcodes c.toNat ((isSpace_iff c).1 hc)
  rw [Char.ofNat_toNat] at hc'
  obtain ⟨huncased, hnoticed, hsimple, hsigma, hdotted⟩ := hc'
  refine ⟨huncased, hnoticed, ?_⟩
  intro before after
  rw [lowerAt, if_neg hsigma, if_neg hdotted, hsimple]

section Pieces

variable {c : Char} (hc : Breaks c)

include hc

theorem endsWord_break_after (before xs ys : List Char) :
    endsWord before (xs ++ c :: ys) = endsWord before xs := by
  induction xs with
  | nil => simp [endsWord, hc.noticed, hc.uncased]
  | cons d xs ih =>
    by_cases hd : isCaseIgnorable d
    · simpa [endsWord, hd] using ih
    · simp [endsWord, hd]

theorem endsWord_break_before (before front after : List Char) :
    endsWord (before ++ c :: front) after = endsWord before after := by
  induction before with
  | nil => simp [endsWord, hc.noticed, hc.uncased]
  | cons d before ih =>
    by_cases hd : isCaseIgnorable d
    · simpa [endsWord, hd] using ih
    · simp [endsWord, hd]

theorem lowerFrom_break_before (before front cs : List Char) :
    lowerFrom (before ++ c :: front) cs = lowerFrom before cs := by
  induction cs generalizing before with
  | nil => rfl
  | cons d cs ih =>
    have hat : lowerAt (before ++ c :: front) d cs = lowerAt before d cs := by
      rw [lowerAt, lowerAt, endsWord_break_before hc]
    rw [lowerFrom, lowerFrom, hat, ← List.cons_append, ih]

/-- The text up to a break and the text after it are lower-cased apart. -/
theorem lowerFrom_append_break (before xs ys : List Char) :
    lowerFrom before (xs ++ c :: ys) = lowerFrom before xs ++ c :: lowerFrom [] ys := by
  induction xs generalizing before with
  | nil =>
    have hys := lowerFrom_break_before hc [] before ys
    rw [List.nil_append] at hys
    rw [List.nil_append, lowerFrom.eq_2, hc.kept, hys]
    rfl
  | cons d xs ih =>
    have hat : lowerAt before d (xs ++ c :: ys) = lowerAt before d xs := by
      rw [lowerAt, lowerAt, endsWord_break_after hc]
    rw [List.cons_append, lowerFrom, lowerFrom, hat, ih, List.append_assoc]

end Pieces

theorem lower_qualified (a b : String) : lower (a ++ "\\" ++ b) = lower a ++ "\\" ++ lower b := by
  have h := lowerFrom_append_break breaks_backslash [] a.toList b.toList
  apply String.toList_injective
  simpa [lower] using h

/-- What holds of every character that can come of one: of the two small sigmas, of the two parts of a
dotted small letter, and of its own small letter. -/
theorem forall_mem_lowerAt {P : Char → Prop} {c : Char} (hsigma : P 'σ' ∧ P 'ς')
    (hdotted : P 'i' ∧ P '̇') (hsimple : P (lowerSimple c)) (before after : List Char) :
    ∀ d ∈ lowerAt before c after, P d := by
  rw [lowerAt]
  split
  · split
    · simpa using hsigma.2
    · simpa using hsigma.1
  · split
    · simpa using hdotted
    · simpa using hsimple

theorem ne_backslash_of_mem_lowerAt {c d : Char} (hc : c ≠ '\\') {before after : List Char}
    (hd : d ∈ lowerAt before c after) : d ≠ '\\' :=
  forall_mem_lowerAt (P := (· ≠ '\\')) (by decide) (by decide) (lowerSimple_ne_backslash hc) before
    after d hd

theorem backslash_not_mem_lowerFrom {cs : List Char} (h : '\\' ∉ cs) (before : List Char) :
    '\\' ∉ lowerFrom before cs := by
  induction cs generalizing before with
  | nil => exact List.not_mem_nil
  | cons c cs ih =>
    rw [List.mem_cons, not_or] at h
    rw [lowerFrom, List.mem_append, not_or]
    exact ⟨fun hmem => ne_backslash_of_mem_lowerAt (Ne.symm h.1) hmem rfl, ih h.2 _⟩

/-- Lower-casing and cutting at the first backslash may change places. -/
theorem cutFirst_lowerFrom (cs : List Char) :
    cutFirst '\\' (lowerFrom [] cs) =
      (cutFirst '\\' cs).map fun p => (lowerFrom [] p.1, lowerFrom [] p.2) := by
  by_cases hmem : '\\' ∈ cs
  · obtain ⟨front, rest, rfl, hfront⟩ := List.eq_append_cons_of_mem hmem
    rw [lowerFrom_append_break breaks_backslash, cutFirst_append_cons hfront,
      cutFirst_append_cons (backslash_not_mem_lowerFrom hfront [])]
    rfl
  · rw [cutFirst_of_not_mem hmem, cutFirst_of_not_mem (backslash_not_mem_lowerFrom hmem [])]
    rfl

theorem smallLetter_ne {k n : Nat} (hk : 0 < k) (hn : n ≠ k) {runs : List CaseRun}
    (hr : ∀ r ∈ runs, (k : Int) < r.first + r.shift ∨ (r.last : Int) + r.shift < k) :
    smallLetter n runs ≠ k := by
  induction runs with
  | nil => exact hn
  | cons r rest ih =>
    have hrun := hr r List.mem_cons_self
    have hrest := ih fun q hq => hr q (List.mem_cons_of_mem r hq)
    rw [smallLetter]
    split
    · exact hn
    · split
      · rename_i hfirst hlast
        rw [Bool.and_eq_true, decide_eq_true_eq] at hlast
        omega
      · exact hrest

/-- No capital letter has white space for its small letter. -/
theorem caseRuns_beside_spaces : ∀ r ∈ caseRuns, ∀ k ∈ spaceCodes,
    (k : Int) < r.first + r.shift ∨ (r.last : Int) + r.shift < k := by
  decide +kernel

theorem isSpace_lowerSimple {c : Char} (hc : isSpace c = false) : isSpace (lowerSimple c) = false := by
  rw [lowerSimple]
  split
  · rename_i hascii
    have h : ∀ n < 128, isSpace (Char.ofNat n) = false → isSpace (Char.ofNat n).toLower = false := by
      decide +kernel
    simpa using h c.toNat hascii (by simpa using hc)
  · rw [← Bool.not_eq_true, isSpace_iff] at hc ⊢
    intro hmem
    have hpos : ∀ k ∈ spaceCodes, 0 < k := by decide
    have hsmall : smallLetter c.toNat caseRuns ≠ (Char.ofNat (smallLetter c.toNat caseRuns)).toNat :=
      smallLetter_ne (hpos _ hmem) (ne_of_mem_of_not_mem hmem hc).symm
        fun r hr => caseRuns_beside_spaces r hr _ hmem
    -- the number of no character becomes the null character, which is no white space
    by_cases hvalid : (smallLetter c.toNat caseRuns).isValidChar
    · have hchar : Char.ofNat (smallLetter c.toNat caseRuns) = Char.ofNatAux _ hvalid := dif_pos hvalid
      exact hsmall (congrArg Char.toNat hchar).symm
    · have hnull : Char.ofNat (smallLetter c.toNat caseRuns) = '\x00' := dif_neg hvalid
      rw [hnull] at hmem
      exact absurd hmem (by decide)

theorem isSpace_of_mem_lowerAt {c d : Char} (hc : isSpace c = false) {before after : List Char}
    (hd : d ∈ lowerAt before c after) : isSpace d = false :=
  forall_mem_lowerAt (P := (isSpace · = false)) (by decide) (by decide) (isSpace_lowerSimple hc)
    before after d hd

theorem lowerAt_ne_nil (before : List Char) (c : Char) (after : List Char) :
    lowerAt before c after ≠ [] := by
  rw [lowerAt]
  split
  · simp
  · split <;> simp

theorem lowerFrom_blank_append {front : List Char} (hf : Blank front) (cs : List Char) :
    lowerFrom [] (front ++ cs) = front ++ lowerFrom [] cs := by
  induction front with
  | nil => rfl
  | cons c front ih =>
    rw [blank_cons_iff] at hf
    have h := lowerFrom_append_break (breaks_of_isSpace hf.1) [] [] (front ++ cs)
    rw [ih hf.2] at h
    exact h

theorem lowerFrom_append_blank {back : List Char} (hb : Blank back) (cs : List Char) :
    lowerFrom [] (cs ++ back) = lowerFrom [] cs ++ back := by
  cases back with
  | nil =>
    rw [List.append_nil, List.append_nil]
  | cons c back =>
    rw [blank_cons_iff] at hb
    have hback := lowerFrom_blank_append hb.2 []
    rw [lowerFrom, List.append_nil] at hback
    rw [lowerFrom_append_break (breaks_of_isSpace hb.1), hback]

theorem exists_lowerFrom_concat (before cs : List Char) (c : Char) :
    ∃ front before', lowerFrom before (cs ++ [c]) = front ++ lowerAt before' c [] := by
  induction cs generalizing before with
  | nil => exact ⟨[], before, by simp [lowerFrom]⟩
  | cons d cs ih =>
    obtain ⟨front, before', h⟩ := ih (d :: before)
    exact ⟨lowerAt before d (cs ++ [c]) ++ front, before', by
      rw [List.cons_append, lowerFrom, h, List.append_assoc]⟩

theorem Tight.lowerFrom {cs : List Char} (h : Tight cs) : Tight (lowerFrom [] cs) := by
  obtain ⟨⟨c, hfirst, hc⟩, ⟨e, hlast, he⟩⟩ := h
  constructor
  · obtain ⟨rest, rfl⟩ := List.head?_eq_some_iff.1 hfirst
    exact exists_head?_append (exists_head?_of_forall (lowerAt_ne_nil [] c rest)
      fun d hd => isSpace_of_mem_lowerAt hc hd) _
  · obtain ⟨init, rfl⟩ := List.getLast?_eq_some_iff.1 hlast
    obtain ⟨front, before', hlower⟩ := exists_lowerFrom_concat [] init e
    rw [hlower]
    exact exists_getLast?_append (exists_getLast?_of_forall (lowerAt_ne_nil before' e [])
      fun d hd => isSpace_of_mem_lowerAt he hd) _

/-- Lower-casing and trimming may change places. -/
theorem trim_lowerFrom (cs : List Char) : trim (lowerFrom [] cs) = lowerFrom [] (trim cs) := by
  obtain ⟨front, back, hf, hb, hcs⟩ := exists_trim cs
  have hlower : lowerFrom [] cs = front ++ lowerFrom [] (trim cs) ++ back := by
    rw [congrArg (lowerFrom []) hcs, lowerFrom_append_blank hb, lowerFrom_blank_append hf]
  rw [hlower, trim_spaced hf hb]
  by_cases hblank : Blank cs
  · rw [trim_of_blank hblank]
    rfl
  · exact (tight_trim hblank).lowerFrom.trim_eq

theorem lower_trimText (s : String) : lower (trimText s) = trimText (lower s) := by
  simp only [lower, trimText, String.toList_ofList, trim_lowerFrom]

end ContractCheck.Text
