import ContractCheck.Text.Keyword
import ContractCheck.Text.Split
import ContractCheck.Proofs.Text.Spacing
import Mathlib.Data.List.Basic

/-!
Cutting text at a separator, behind a word and at its end.
-/
namespace ContractCheck.Text

theorem pieces_ne_nil (sep : Char) (cs : List Char) : pieces sep cs ≠ [] := by
  cases cs with
  | nil => simp [pieces]
  | cons c cs =>
    rw [pieces]
    split
    · simp
    · split <;> simp

theorem not_mem_of_mem_pieces {sep : Char} {cs piece : List Char} (h : piece ∈ pieces sep cs) :
    sep ∉ piece := by
  induction cs generalizing piece with
  | nil =>
    rw [pieces, List.mem_singleton] at h
    simp [h]
  | cons c cs ih =>
    rw [pieces] at h
    by_cases hc : c = sep
    · rw [if_pos hc, List.mem_cons] at h
      cases h with
      | inl h => simp [h]
      | inr h => exact ih h
    · rw [if_neg hc] at h
      cases hp : pieces sep cs with
      | nil =>
        rw [hp, List.mem_singleton] at h
        simp [h, Ne.symm hc]
      | cons p ps =>
        rw [hp] at h ih
        cases List.mem_cons.1 h with
        | inl h =>
          rw [h, List.mem_cons, not_or]
          exact ⟨Ne.symm hc, ih List.mem_cons_self⟩
        | inr h => exact ih (List.mem_cons_of_mem p h)

theorem mem_of_mem_pieces {sep c : Char} {cs piece : List Char} (h : piece ∈ pieces sep cs)
    (hc : c ∈ piece) : c ∈ cs := by
  induction cs generalizing piece with
  | nil =>
    rw [pieces, List.mem_singleton] at h
    rw [h] at hc
    cases hc
  | cons d cs ih =>
    rw [pieces] at h
    by_cases hd : d = sep
    · rw [if_pos hd, List.mem_cons] at h
      cases h with
      | inl h =>
        rw [h] at hc
        cases hc
      | inr h => exact List.mem_cons_of_mem d (ih h hc)
    · rw [if_neg hd] at h
      obtain ⟨p, ps, hp⟩ := List.exists_cons_of_ne_nil (pieces_ne_nil sep cs)
      rw [hp] at h ih
      cases List.mem_cons.1 h with
      | inl h =>
        rw [h, List.mem_cons] at hc
        cases hc with
        | inl hc => exact hc ▸ List.mem_cons_self
        | inr hc => exact List.mem_cons_of_mem d (ih List.mem_cons_self hc)
      | inr h => exact List.mem_cons_of_mem d (ih (List.mem_cons_of_mem p h) hc)

theorem pieces_of_not_mem {sep : Char} {cs : List Char} (h : sep ∉ cs) : pieces sep cs = [cs] := by
  induction cs with
  | nil => rfl
  | cons c cs ih =>
    rw [List.mem_cons, not_or] at h
    rw [pieces, if_neg (Ne.symm h.1), ih h.2]

theorem pieces_append_cons {sep : Char} {cs : List Char} (h : sep ∉ cs) (rest : List Char) :
    pieces sep (cs ++ sep :: rest) = cs :: pieces sep rest := by
  induction cs with
  | nil => rw [List.nil_append, pieces, if_pos rfl]
  | cons c cs ih =>
    rw [List.mem_cons, not_or] at h
    rw [List.cons_append, pieces, if_neg (Ne.symm h.1), ih h.2]

/-- Lines that are put together with line breaks are found again. -/
theorem pieces_intercalate {sep : Char} {line : List Char} {lines : List (List Char)}
    (h : ∀ l ∈ line :: lines, sep ∉ l) :
    pieces sep ([sep].intercalate (line :: lines)) = line :: lines := by
  induction lines generalizing line with
  | nil =>
    rw [List.intercalate_singleton]
    exact pieces_of_not_mem (h line List.mem_cons_self)
  | cons next lines ih =>
    rw [List.intercalate_cons_cons, List.append_assoc, List.singleton_append,
      pieces_append_cons (h line List.mem_cons_self)]
    rw [ih fun l hl => h l (List.mem_cons_of_mem line hl)]

theorem mem_intercalate {sep c : Char} {texts : List (List Char)}
    (h : c ∈ [sep].intercalate texts) : c = sep ∨ ∃ t ∈ texts, c ∈ t := by
  induction texts with
  | nil => cases h
  | cons t texts ih =>
    cases texts with
    | nil =>
      rw [List.intercalate_singleton] at h
      exact .inr ⟨t, List.mem_cons_self, h⟩
    | cons u texts =>
      rw [List.intercalate_cons_cons, List.mem_append, List.mem_append] at h
      cases h with
      | inl h =>
        cases h with
        | inl h => exact .inr ⟨t, List.mem_cons_self, h⟩
        | inr h => exact .inl (List.mem_singleton.1 h)
      | inr h =>
        cases ih h with
        | inl h => exact .inl h
        | inr h =>
          obtain ⟨v, hv, hc⟩ := h
          exact .inr ⟨v, List.mem_cons_of_mem t hv, hc⟩

theorem not_mem_intercalate {sep c : Char} (hsep : c ≠ sep) {texts : List (List Char)}
    (h : ∀ t ∈ texts, c ∉ t) : c ∉ [sep].intercalate texts := by
  intro hmem
  cases mem_intercalate hmem with
  | inl heq => exact hsep heq
  | inr hin =>
    obtain ⟨t, ht, hc⟩ := hin
    exact h t ht hc

/-- A separator anywhere divides the pieces before it from those after it. -/
theorem pieces_append (sep : Char) (as bs : List Char) :
    pieces sep (as ++ sep :: bs) = pieces sep as ++ pieces sep bs := by
  induction as with
  | nil => simp [pieces]
  | cons a as ih =>
    rw [List.cons_append, pieces, pieces, ih]
    by_cases ha : a = sep
    · rw [if_pos ha, if_pos ha, List.cons_append]
    · rw [if_neg ha, if_neg ha]
      obtain ⟨p, ps, hps⟩ := List.exists_cons_of_ne_nil (pieces_ne_nil sep as)
      rw [hps]
      rfl

/-- The first piece is what stands before the first separator. -/
theorem pieces_eq_takeWhile_cons (sep : Char) (cs : List Char) :
    pieces sep cs = cs.takeWhile (· ≠ sep) :: (pieces sep cs).tail := by
  induction cs with
  | nil => rfl
  | cons c cs ih =>
    rw [pieces]
    by_cases hc : c = sep
    · rw [if_pos hc, List.takeWhile_cons_of_neg (by simpa using hc)]
      rfl
    · rw [if_neg hc, ih, List.takeWhile_cons_of_pos (by simpa using hc)]
      rfl

theorem tail_pieces_append {sep : Char} {as : List Char} (h : sep ∉ as) (cs : List Char) :
    (pieces sep (as ++ cs)).tail = (pieces sep cs).tail := by
  induction as with
  | nil => rfl
  | cons a as ih =>
    rw [List.mem_cons, not_or] at h
    rw [List.cons_append, pieces, if_neg (Ne.symm h.1), pieces_eq_takeWhile_cons, ← ih h.2]
    rfl

/-- What is put behind a text belongs to its last piece. -/
theorem exists_pieces_concat {sep : Char} {back : List Char} (h : sep ∉ back) (cs : List Char) :
    ∃ init last, pieces sep cs = init ++ [last] ∧ pieces sep (cs ++ back) = init ++ [last ++ back] := by
  induction cs with
  | nil => exact ⟨[], [], rfl, pieces_of_not_mem h⟩
  | cons c cs ih =>
    obtain ⟨init, last, hcs, hback⟩ := ih
    rw [List.cons_append, pieces, pieces, hcs, hback]
    by_cases hc : c = sep
    · exact ⟨[] :: init, last, by rw [if_pos hc]; rfl, by rw [if_pos hc]; rfl⟩
    · rw [if_neg hc, if_neg hc]
      cases init with
      | nil => exact ⟨[], c :: last, rfl, rfl⟩
      | cons p init => exact ⟨(c :: p) :: init, last, rfl, rfl⟩

theorem not_mem_of_blank {gap : List Char} (hgap : Blank gap) {sep : Char} (hsep : isSpace sep = false) :
    sep ∉ gap := by
  intro hmem
  rw [hgap sep hmem] at hsep
  cases hsep

theorem map_trim_pieces_blank_append {front : List Char} (hf : Blank front) {sep : Char}
    (hsep : isSpace sep = false) (cs : List Char) :
    (pieces sep (front ++ cs)).map trim = (pieces sep cs).map trim := by
  have hnot := not_mem_of_blank hf hsep
  have hkept : ∀ c ∈ front, decide (c ≠ sep) = true := fun c hc =>
    decide_eq_true (ne_of_mem_of_not_mem hc hnot)
  have hfirst : trim (front ++ cs.takeWhile (· ≠ sep)) = trim (cs.takeWhile (· ≠ sep)) := by
    simpa using trim_spaced hf blank_nil (cs.takeWhile (· ≠ sep))
  rw [pieces_eq_takeWhile_cons, tail_pieces_append hnot, List.takeWhile_append_of_pos hkept,
    List.map_cons, hfirst, ← List.map_cons, ← pieces_eq_takeWhile_cons]

theorem map_trim_pieces_append_blank {back : List Char} (hb : Blank back) {sep : Char}
    (hsep : isSpace sep = false) (cs : List Char) :
    (pieces sep (cs ++ back)).map trim = (pieces sep cs).map trim := by
  obtain ⟨init, last, hcs, hback⟩ := exists_pieces_concat (not_mem_of_blank hb hsep) cs
  have hlast : trim (last ++ back) = trim last := trim_spaced blank_nil hb last
  rw [hcs, hback, List.map_append, List.map_append, List.map_singleton, List.map_singleton, hlast]

/-- White space around a text is dropped with that around its pieces. -/
theorem trimmedPieces_trim {sep : Char} (hsep : isSpace sep = false) (cs : List Char) :
    trimmedPieces sep (trim cs) = trimmedPieces sep cs := by
  obtain ⟨front, back, hf, hb, hcs⟩ := exists_trim cs
  have hends : (pieces sep cs).map trim = (pieces sep (trim cs)).map trim := by
    conv_lhs => rw [hcs]
    rw [map_trim_pieces_append_blank hb hsep, map_trim_pieces_blank_append hf hsep]
  rw [trimmedPieces, trimmedPieces, hends]

theorem trimmedPieces_intercalate {sep : Char} {texts : List (List Char)} (h : ∀ t ∈ texts, sep ∉ t) :
    trimmedPieces sep ([sep].intercalate texts) = (texts.map trim).filter (· ≠ []) := by
  cases texts with
  | nil => rfl
  | cons text texts => rw [trimmedPieces, pieces_intercalate h]

/-- Texts with more than white space lose only the white space around them. -/
theorem filter_map_trim {α : Type} {text core : α → List Char} {items : List α}
    (h : ∀ i ∈ items, trim (text i) = core i ∧ core i ≠ []) :
    ((items.map text).map trim).filter (· ≠ []) = items.map core := by
  have htrim : (items.map text).map trim = items.map core := by
    rw [List.map_map]
    exact List.map_congr_left fun i hi => (h i hi).1
  rw [htrim, List.filter_eq_self, List.forall_mem_map]
  exact fun i hi => decide_eq_true (h i hi).2

theorem dropExact_append (word : String) (cs : List Char) :
    dropExact word (word.toList ++ cs) = some cs := by
  rw [dropExact]
  induction word.toList with
  | nil => simp [dropWord]
  | cons w ws ih => rw [List.cons_append, dropWord, beq_self_eq_true, if_pos rfl, ih]

theorem eq_append_of_dropExact {word : String} {cs rest : List Char}
    (h : dropExact word cs = some rest) : cs = word.toList ++ rest := by
  rw [dropExact] at h
  generalize word.toList = ws at h ⊢
  induction ws generalizing cs with
  | nil => simpa [dropWord] using h
  | cons w ws ih =>
    cases cs with
    | nil => cases h
    | cons c cs =>
      rw [dropWord] at h
      by_cases hc : (w == c) = true
      · rw [if_pos hc] at h
        rw [beq_iff_eq.1 hc, ih h, List.cons_append]
      · rw [if_neg hc] at h
        cases h

theorem dropEndWhile_append {p : Char → Bool} {back : List Char} (hne : back ≠ [])
    (hback : ∀ c ∈ back, p c = false) (front : List Char) :
    dropEndWhile p (front ++ back) = front ++ back := by
  obtain ⟨init, last, rfl⟩ := List.eq_nil_or_concat' back |>.resolve_left hne
  have hlast : ∃ c ∈ (front ++ (init ++ [last])).getLast?, p c = false :=
    ⟨last, by simp, hback last (by simp)⟩
  have h := dropEndWhile_append_of_getLast? hlast []
  rwa [show dropEndWhile p [] = [] from rfl, List.append_nil] at h

theorem dropEndWhile_concat {p : Char → Bool} {cs : List Char} (hcs : ∀ d ∈ cs, p d = false)
    {c : Char} (hc : p c = true) : dropEndWhile p (cs ++ [c]) = cs := by
  have hkept : cs.reverse.dropWhile p = cs.reverse := by
    cases hr : cs.reverse with
    | nil => rfl
    | cons d ds =>
      have hd : d ∈ cs := List.mem_reverse.1 (hr ▸ List.mem_cons_self)
      rw [List.dropWhile_cons_of_neg (by simp [hcs d hd])]
  rw [dropEndWhile, List.reverse_concat, List.dropWhile_cons_of_pos hc, hkept, List.reverse_reverse]

theorem afterLast_append {sep : Char} {front cs : List Char} (hfront : ∀ c ∈ front.getLast?, c = sep)
    (hcs : sep ∉ cs) : afterLast sep (front ++ cs) = cs := by
  have hkept : ∀ c ∈ cs.reverse, decide (c ≠ sep) = true := by
    intro c hc
    exact decide_eq_true (ne_of_mem_of_not_mem (List.mem_reverse.1 hc) hcs)
  have hstop : front.reverse.takeWhile (· ≠ sep) = [] := by
    rw [← List.head?_reverse] at hfront
    cases hr : front.reverse with
    | nil => rfl
    | cons c ds => simp [hfront c (by rw [hr]; rfl)]
  rw [afterLast, List.reverse_append, List.takeWhile_append_of_pos hkept, hstop, List.append_nil,
    List.reverse_reverse]

theorem cutFirst_of_not_mem {sep : Char} {cs : List Char} (h : sep ∉ cs) : cutFirst sep cs = none := by
  induction cs with
  | nil => rfl
  | cons c cs ih =>
    rw [List.mem_cons, not_or] at h
    rw [cutFirst, if_neg (Ne.symm h.1), ih h.2]
    rfl

theorem cutFirst_append_cons {sep : Char} {cs : List Char} (h : sep ∉ cs) (rest : List Char) :
    cutFirst sep (cs ++ sep :: rest) = some (cs, rest) := by
  induction cs with
  | nil => rw [List.nil_append, cutFirst, if_pos rfl]
  | cons c cs ih =>
    rw [List.mem_cons, not_or] at h
    rw [List.cons_append, cutFirst, if_neg (Ne.symm h.1), ih h.2]
    rfl

end ContractCheck.Text
