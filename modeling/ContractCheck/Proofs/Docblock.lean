import ContractCheck.Docblock
import ContractCheck.Proofs.Text.Cutting
import Mathlib.Data.List.TakeWhile

/-!
What is read from a docblock that announces a single exception. Main statement: of the name in the
tag, what stands before any white space, without the backslashes in front.
-/
namespace ContractCheck

open Text

def isIdentifierChar (c : Char) : Bool :=
  c.isAlphanum || c == '_' || decide (128 ≤ c.toNat)

/-- A class name as it is written in code: identifiers, with backslashes between them and perhaps in
front. -/
structure IsClassName (name : String) : Prop where
  chars : ∀ c ∈ name.toList, isIdentifierChar c = true ∨ c = '\\'
  named : ∃ c ∈ name.toList, c ≠ '\\'

theorem IsClassName.not_mem {name : String} (h : IsClassName name) {c : Char} (hc : c ≠ '\\')
    (hid : isIdentifierChar c = false) : c ∉ name.toList := by
  intro hin
  cases h.chars c hin with
  | inl h => rw [hid] at h; cases h
  | inr h => exact hc h

namespace Docblock

/-- A line of a docblock with a tag: perhaps the opening of the docblock or a star, then the tag, and
after blanks the name. White space or a star ends it; what follows is not read. -/
structure TagLine (name line : List Char) : Prop where
  exists_parts : ∃ indent mark gap space rest,
    line = indent ++ mark ++ gap ++ "@throws".toList ++ space ++ name ++ rest ∧
    (∀ c ∈ indent, isBlank c = true) ∧ mark ∈ ["".toList, "*".toList, "/**".toList] ∧
    (∀ c ∈ gap, isBlank c = true) ∧ (∀ c ∈ space, isBlank c = true) ∧ space ≠ [] ∧
    ∀ c ∈ rest.head?, isSpace c = true ∨ c = '*'

/-- A docblock with a single tag. The other lines may hold any text without one. -/
inductive SingleTag (name : List Char) : String → Prop
  | lines {before after : List (List Char)} {line : List Char} (htag : TagLine name line)
      (hline : '\n' ∉ line) (hothers : ∀ l ∈ before ++ after, '@' ∉ l ∧ '\n' ∉ l) :
      SingleTag name (String.ofList (['\n'].intercalate (before ++ line :: after)))

def afterMark (line : List Char) : List Char :=
  let line := line.dropWhile isBlank
  (((dropExact "/**" line).orElse fun _ => dropExact "*" line).getD line).dropWhile isBlank

def readName (name : List Char) : Option String :=
  let text := (name.takeWhile (!isSpace ·)).dropWhile (· = '\\')
  if text = [] then none else some (String.ofList text)

theorem tagText_eq (line : List Char) :
    tagText line = (dropExact "@throws" (afterMark line)).bind fun rest =>
      let text := (rest.dropWhile isBlank).takeWhile fun c => !isSpace c && c != '*'
      if rest.head?.any isBlank && text != [] then some text else none :=
  rfl

/-- What stands before the rest of a line. -/
theorem exists_afterMark (cs : List Char) :
    ∃ indent mark gap, cs = indent ++ mark ++ gap ++ afterMark cs ∧
      (∀ c ∈ indent, isBlank c = true) ∧ mark ∈ ["".toList, "*".toList, "/**".toList] ∧
      ∀ c ∈ gap, isBlank c = true := by
  obtain ⟨mark, hmark, hrest⟩ : ∃ mark ∈ ["".toList, "*".toList, "/**".toList],
      cs.dropWhile isBlank = mark ++ ((dropExact "/**" (cs.dropWhile isBlank)).orElse
        fun _ => dropExact "*" (cs.dropWhile isBlank)).getD (cs.dropWhile isBlank) := by
    generalize cs.dropWhile isBlank = line
    cases hopen : dropExact "/**" line with
    | some rest => exact ⟨"/**".toList, by simp, eq_append_of_dropExact hopen⟩
    | none =>
      cases hstar : dropExact "*" line with
      | some rest => exact ⟨"*".toList, by simp, eq_append_of_dropExact hstar⟩
      | none => exact ⟨[], by simp, rfl⟩
  generalize hline : ((dropExact "/**" (cs.dropWhile isBlank)).orElse
    fun _ => dropExact "*" (cs.dropWhile isBlank)).getD (cs.dropWhile isBlank) = line at hrest
  refine ⟨cs.takeWhile isBlank, mark, line.takeWhile isBlank, ?_, ?_, hmark, ?_⟩
  · rw [afterMark, hline, List.append_assoc, List.takeWhile_append_dropWhile, List.append_assoc,
      ← hrest, List.takeWhile_append_dropWhile]
  · exact fun c hc => List.mem_takeWhile_imp hc
  · exact fun c hc => List.mem_takeWhile_imp hc

theorem afterMark_suffix (line : List Char) : afterMark line <:+ line := by
  obtain ⟨indent, mark, gap, hline, -⟩ := exists_afterMark line
  exact ⟨indent ++ mark ++ gap, hline.symm⟩

theorem lineNames_of_not_mem {line : List Char} (h : '@' ∉ line) : lineNames line = [] := by
  have hnone : dropExact "@throws" (afterMark line) = none := by
    cases hd : dropExact "@throws" (afterMark line) with
    | none => rfl
    | some rest =>
      have hmem : '@' ∈ afterMark line := by
        rw [eq_append_of_dropExact hd]
        exact List.mem_append_left rest (by decide)
      exact absurd ((afterMark_suffix line).subset hmem) h
  rw [lineNames, tagText_eq, hnone]
  rfl

/-- The mark in front of the tag and the blanks around it are skipped. -/
theorem afterMark_mark {indent mark gap rest : List Char} (hindent : ∀ c ∈ indent, isBlank c = true)
    (hmark : mark ∈ ["".toList, "*".toList, "/**".toList]) (hgap : ∀ c ∈ gap, isBlank c = true) :
    afterMark (indent ++ mark ++ gap ++ '@' :: rest) = '@' :: rest := by
  have hat : isBlank '@' = false := by decide
  have hstop : (gap ++ '@' :: rest).dropWhile isBlank = '@' :: rest := by
    rw [List.dropWhile_append_of_pos hgap, List.dropWhile_cons_of_neg (by simp [hat])]
  rw [afterMark, List.append_assoc, List.append_assoc, List.dropWhile_append_of_pos hindent]
  simp only [List.mem_cons, List.not_mem_nil, or_false] at hmark
  obtain rfl | rfl | rfl := hmark
  · simp only [String.toList_empty, List.nil_append]
    rw [hstop]
    rfl
  · have hopen : dropExact "/**" ("*".toList ++ (gap ++ '@' :: rest)) = none := rfl
    have hdrop : ("*".toList ++ (gap ++ '@' :: rest)).dropWhile isBlank =
        "*".toList ++ (gap ++ '@' :: rest) := rfl
    simp only [hdrop, hopen, dropExact_append, Option.orElse_none, Option.getD_some, hstop]
  · have hdrop : ("/**".toList ++ (gap ++ '@' :: rest)).dropWhile isBlank =
        "/**".toList ++ (gap ++ '@' :: rest) := rfl
    simp only [hdrop, dropExact_append, Option.orElse_some, Option.getD_some, hstop]

/-- The name is read up to the first white space, which may stand inside it. -/
theorem takeWhile_name {name rest : List Char} (hname : '*' ∉ name)
    (hrest : ∀ c ∈ rest.head?, isSpace c = true ∨ c = '*') :
    (name ++ rest).takeWhile (fun c => !isSpace c && c != '*') = name.takeWhile (!isSpace ·) := by
  induction name with
  | nil =>
    cases rest with
    | nil => rfl
    | cons c rest =>
      have hc : (!isSpace c && c != '*') = false := by
        cases hrest c rfl with
        | inl h => simp [h]
        | inr h => simp [h]
      rw [List.nil_append, List.takeWhile_nil, List.takeWhile_cons_of_neg (by simp [hc])]
  | cons c name ih =>
    rw [List.mem_cons, not_or] at hname
    have hc : (c != '*') = true := by simpa using Ne.symm hname.1
    rw [List.cons_append, List.takeWhile_cons, List.takeWhile_cons, ih hname.2, hc, Bool.and_true]

theorem tagText_of_tagLine {name : String} (hname : IsClassName name) {line : List Char}
    (h : TagLine name.toList line) :
    tagText line = if name.toList.takeWhile (!isSpace ·) = [] then none
      else some (name.toList.takeWhile (!isSpace ·)) := by
  obtain ⟨indent, mark, gap, space, rest, rfl, hindent, hmark, hgap, hspace, hne, hrest⟩ :=
    h.exists_parts
  have hafter : afterMark (indent ++ mark ++ gap ++ "@throws".toList ++ space ++ name.toList ++ rest) =
      "@throws".toList ++ (space ++ (name.toList ++ rest)) := by
    have hshape : indent ++ mark ++ gap ++ "@throws".toList ++ space ++ name.toList ++ rest =
        indent ++ mark ++ gap ++ '@' :: ("throws".toList ++ (space ++ (name.toList ++ rest))) := by
      simp
    rw [hshape, afterMark_mark hindent hmark hgap]
    rfl
  have hstop : (name.toList ++ rest).dropWhile isBlank = name.toList ++ rest := by
    obtain ⟨c, hc, _⟩ := hname.named
    obtain ⟨first, more, hshape⟩ := List.exists_cons_of_ne_nil (List.ne_nil_of_mem hc)
    have hfirst : isBlank first = false := by
      rw [Bool.eq_false_iff, isBlank, ne_eq, Bool.or_eq_true, beq_iff_eq, beq_iff_eq]
      intro hblank
      have hin : first ∈ name.toList := hshape ▸ List.mem_cons_self
      cases hblank with
      | inl h => exact hname.not_mem (by decide) (by decide) (h ▸ hin)
      | inr h => exact hname.not_mem (by decide) (by decide) (h ▸ hin)
    rw [hshape, List.cons_append, List.dropWhile_cons_of_neg (by simp [hfirst])]
  have htext : ((space ++ (name.toList ++ rest)).dropWhile isBlank).takeWhile
      (fun c => !isSpace c && c != '*') = name.toList.takeWhile (!isSpace ·) := by
    rw [List.dropWhile_append_of_pos hspace, hstop,
      takeWhile_name (hname.not_mem (by decide) (by decide)) hrest]
  have hhead : (space ++ (name.toList ++ rest)).head?.any isBlank = true := by
    obtain ⟨c, more, rfl⟩ := List.exists_cons_of_ne_nil hne
    exact hspace c List.mem_cons_self
  rw [tagText_eq, hafter, dropExact_append, Option.bind_some]
  simp only [htext, hhead, Bool.true_and, bne_iff_ne, ne_eq, ite_not]

theorem lineNames_of_tagLine {name : String} (hname : IsClassName name) {line : List Char}
    (h : TagLine name.toList line) : lineNames line = (readName name.toList).toList := by
  have hbar : '|' ∉ name.toList.takeWhile (!isSpace ·) := fun hin =>
    hname.not_mem (by decide) (by decide) ((List.takeWhile_prefix _).subset hin)
  rw [lineNames, tagText_of_tagLine hname h, readName]
  by_cases hnone : name.toList.takeWhile (!isSpace ·) = []
  · simp [hnone]
  · simp only [hnone, if_false, alternatives, pieces_of_not_mem hbar]
    by_cases hread : (name.toList.takeWhile (!isSpace ·)).dropWhile (· = '\\') = []
    · simp [hread]
    · simp [hread]

theorem thrownNames_of_singleTag {name doc : String} (hname : IsClassName name)
    (h : SingleTag name.toList doc) : thrownNames doc = (readName name.toList).toList := by
  cases h with
  | @lines before after line htag hline hothers =>
    have hlines : pieces '\n' (['\n'].intercalate (before ++ line :: after)) =
        before ++ line :: after := by
      have hall : ∀ l ∈ before ++ line :: after, '\n' ∉ l := by
        intro l hl
        rw [List.mem_append, List.mem_cons] at hl
        grind
      cases before with
      | nil => exact pieces_intercalate hall
      | cons first before => exact pieces_intercalate hall
    have hnone : ∀ ls : List (List Char), (∀ l ∈ ls, '@' ∉ l) → ls.flatMap lineNames = [] := by
      intro ls hls
      rw [List.flatMap_eq_nil_iff]
      exact fun l hl => lineNames_of_not_mem (hls l hl)
    rw [thrownNames, String.toList_ofList, hlines, List.flatMap_append, List.flatMap_cons,
      hnone before fun l hl => (hothers l (List.mem_append_left after hl)).1,
      hnone after fun l hl => (hothers l (List.mem_append_right before hl)).1,
      lineNames_of_tagLine hname htag, List.nil_append, List.append_nil]
    cases readName name.toList <;> rfl

end Docblock

end ContractCheck
