import ContractCheck.Proofs.Docblock

/-!
Tags as a search through the whole docblock finds them. Main statement: the search, which goes on behind
each tag, finds the tags of the single lines.
-/
namespace ContractCheck.Docblock

open Text

def inTag (c : Char) : Bool :=
  !isSpace c && c != '*'

/-- A tag at the start of a text, and what follows it. Before it may stand the opening of a docblock or
a star; the text of the tag is as long as it can be. -/
structure TagAt (cs text rest : List Char) : Prop where
  exists_parts : ∃ indent mark gap space,
    cs = indent ++ mark ++ gap ++ "@throws".toList ++ space ++ text ++ rest ∧
    (∀ c ∈ indent, isBlank c = true) ∧ mark ∈ ["".toList, "*".toList, "/**".toList] ∧
    (∀ c ∈ gap, isBlank c = true) ∧ (∀ c ∈ space, isBlank c = true) ∧ space ≠ [] ∧
    (∀ c ∈ text, inTag c = true) ∧ text ≠ [] ∧ ∀ c ∈ rest.head?, inTag c = false

/-- What a search finds from a place on, which may be the start of a line. A tag is only found at the
start of a line, and the search goes on behind it; where there is none, it goes on one character
later. -/
inductive Finds : Bool → List Char → List (List Char) → Prop
  | done (atStart : Bool) : Finds atStart [] []
  | tag {cs text rest : List Char} {found : List (List Char)} (htag : TagAt cs text rest)
      (hrest : Finds false rest found) : Finds true cs (text :: found)
  | skip {atStart : Bool} {c : Char} {cs : List Char} {found : List (List Char)}
      (hnone : atStart = true → ∀ text rest, ¬ TagAt (c :: cs) text rest)
      (hrest : Finds (c == '\n') cs found) : Finds atStart (c :: cs) found

theorem not_inTag_of_isBlank {c : Char} (h : isBlank c = true) : inTag c = false := by
  rw [isBlank, Bool.or_eq_true, beq_iff_eq, beq_iff_eq] at h
  obtain rfl | rfl := h <;> decide

def textBehind (rest : List Char) : Option (List Char) :=
  let text := (rest.dropWhile isBlank).takeWhile inTag
  if rest.head?.any isBlank && text != [] then some text else none

theorem tagText_eq_bind (cs : List Char) :
    tagText cs = (dropExact "@throws" (afterMark cs)).bind textBehind :=
  rfl

theorem textBehind_eq_some_iff (behind text : List Char) :
    textBehind behind = some text ↔ ∃ space rest, behind = space ++ text ++ rest ∧
      (∀ c ∈ space, isBlank c = true) ∧ space ≠ [] ∧ (∀ c ∈ text, inTag c = true) ∧ text ≠ [] ∧
      ∀ c ∈ rest.head?, inTag c = false := by
  constructor
  · intro h
    unfold textBehind at h
    dsimp only at h
    split_ifs at h with hcond
    cases h
    obtain ⟨hblank, hne⟩ := Bool.and_eq_true_iff.1 hcond
    refine ⟨behind.takeWhile isBlank, (behind.dropWhile isBlank).dropWhile inTag, ?_,
      fun c hc => List.mem_takeWhile_imp hc, ?_, fun c hc => List.mem_takeWhile_imp hc,
      bne_iff_ne.1 hne, ?_⟩
    · rw [List.append_assoc, List.takeWhile_append_dropWhile, List.takeWhile_append_dropWhile]
    · cases behind with
      | nil => cases hblank
      | cons c behind =>
        rw [List.takeWhile_cons_of_pos (by simpa using hblank)]
        simp
    · intro c hc
      have hstop := List.head?_dropWhile_not inTag (behind.dropWhile isBlank)
      rw [Option.mem_def.1 hc] at hstop
      simpa using hstop
  · rintro ⟨space, rest, rfl, hspace, hne, htext, htextne, hrest⟩
    have hread : ((space ++ text ++ rest).dropWhile isBlank).takeWhile inTag = text := by
      obtain ⟨first, more, rfl⟩ := List.exists_cons_of_ne_nil htextne
      have hfirst : ¬ isBlank first = true := by
        intro hblank
        have hin := htext first List.mem_cons_self
        rw [not_inTag_of_isBlank hblank] at hin
        cases hin
      rw [List.append_assoc, List.dropWhile_append_of_pos hspace, List.cons_append,
        List.dropWhile_cons_of_neg hfirst, ← List.cons_append, List.takeWhile_append_of_pos htext]
      cases rest with
      | nil => rw [List.takeWhile_nil, List.append_nil]
      | cons c rest => rw [List.takeWhile_cons_of_neg (by simp [hrest c rfl]), List.append_nil]
    have hhead : (space ++ text ++ rest).head?.any isBlank = true := by
      obtain ⟨c, more, rfl⟩ := List.exists_cons_of_ne_nil hne
      exact hspace c List.mem_cons_self
    rw [textBehind, hread, hhead, Bool.true_and, if_pos (bne_iff_ne.2 htextne)]

theorem tagText_eq_some_iff (cs text : List Char) :
    tagText cs = some text ↔ ∃ rest, TagAt cs text rest := by
  rw [tagText_eq_bind, Option.bind_eq_some_iff]
  constructor
  · rintro ⟨behind, hdrop, hread⟩
    obtain ⟨space, rest, rfl, hspace, hne, htext, htextne, hrest⟩ :=
      (textBehind_eq_some_iff behind text).1 hread
    obtain ⟨indent, mark, gap, hcs, hindent, hmark, hgap⟩ := exists_afterMark cs
    rw [eq_append_of_dropExact hdrop] at hcs
    exact ⟨rest, indent, mark, gap, space, by simpa using hcs, hindent, hmark, hgap, hspace, hne, htext,
      htextne, hrest⟩
  · rintro ⟨rest, htag⟩
    obtain ⟨indent, mark, gap, space, rfl, hindent, hmark, hgap, hspace, hne, htext, htextne, hrest⟩ :=
      htag.exists_parts
    refine ⟨space ++ text ++ rest, ?_,
      (textBehind_eq_some_iff _ text).2 ⟨space, rest, rfl, hspace, hne, htext, htextne, hrest⟩⟩
    have hshape : indent ++ mark ++ gap ++ "@throws".toList ++ space ++ text ++ rest =
        indent ++ mark ++ gap ++ '@' :: ("throws".toList ++ (space ++ text ++ rest)) := by
      simp
    rw [hshape, afterMark_mark hindent hmark hgap]
    exact dropExact_append "@throws" (space ++ text ++ rest)

theorem not_newline_of_isBlank {c : Char} (h : isBlank c = true) : c ≠ '\n' := by
  rintro rfl
  exact absurd h (by decide)

theorem not_newline_of_inTag {c : Char} (h : inTag c = true) : c ≠ '\n' := by
  rintro rfl
  exact absurd h (by decide)

/-- A tag stands on one line, and is found as well where something else follows it. -/
theorem TagAt.exists_matched {cs text rest : List Char} (h : TagAt cs text rest) :
    ∃ matched, matched ≠ [] ∧ '\n' ∉ matched ∧ cs = matched ++ rest ∧
      (∀ c ∈ rest.head?, inTag c = false) ∧
      ∀ other : List Char, (∀ c ∈ other.head?, inTag c = false) →
        TagAt (matched ++ other) text other := by
  obtain ⟨indent, mark, gap, space, rfl, hindent, hmark, hgap, hspace, hne, htext, htextne, hrest⟩ :=
    h.exists_parts
  refine ⟨indent ++ mark ++ gap ++ "@throws".toList ++ space ++ text, by simp, ?_, rfl, hrest, ?_⟩
  · have hmarked : '\n' ∉ mark := by
      simp only [List.mem_cons, List.not_mem_nil, or_false] at hmark
      obtain rfl | rfl | rfl := hmark <;> decide
    simp only [List.mem_append, not_or]
    exact ⟨⟨⟨⟨⟨fun hin => not_newline_of_isBlank (hindent _ hin) rfl, hmarked⟩,
      fun hin => not_newline_of_isBlank (hgap _ hin) rfl⟩, by decide⟩,
      fun hin => not_newline_of_isBlank (hspace _ hin) rfl⟩,
      fun hin => not_newline_of_inTag (htext _ hin) rfl⟩
  · intro other hother
    exact ⟨indent, mark, gap, space, rfl, hindent, hmark, hgap, hspace, hne, htext, htextne, hother⟩

/-- What stands on later lines does not matter for a tag at the start of a text. -/
theorem tagText_append {other : List Char} (hother : ∀ c ∈ other.head?, c = '\n') (line : List Char) :
    tagText (line ++ other) = tagText line := by
  have hstop : ∀ c ∈ other.head?, inTag c = false := by
    intro c hc
    rw [hother c hc]
    decide
  ext text
  rw [tagText_eq_some_iff, tagText_eq_some_iff]
  constructor
  · rintro ⟨rest, htag⟩
    obtain ⟨matched, -, hnewline, hcs, hrest, hfound⟩ := htag.exists_matched
    obtain ⟨behind, rfl, rfl⟩ | ⟨behind, rfl, rfl⟩ := List.append_eq_append_iff.1 hcs
    · cases behind with
      | nil =>
        rw [List.append_nil] at hfound
        exact ⟨[], by simpa using hfound [] (by simp)⟩
      | cons c behind =>
        rw [hother c rfl] at hnewline
        simp at hnewline
    · refine ⟨behind, hfound behind ?_⟩
      cases behind with
      | nil => simp
      | cons c behind => exact hrest
  · rintro ⟨rest, htag⟩
    obtain ⟨matched, -, -, rfl, hrest, hfound⟩ := htag.exists_matched
    refine ⟨rest ++ other, ?_⟩
    rw [List.append_assoc]
    refine hfound _ ?_
    cases rest with
    | nil => exact hstop
    | cons c rest => exact hrest

theorem tagText_takeWhile (cs : List Char) : tagText (cs.takeWhile (· ≠ '\n')) = tagText cs := by
  have hother : ∀ c ∈ (cs.dropWhile (· ≠ '\n')).head?, c = '\n' := by
    intro c hc
    have hstop := List.head?_dropWhile_not (· ≠ '\n') cs
    rw [Option.mem_def.1 hc] at hstop
    simpa using hstop
  rw [← tagText_append hother, List.takeWhile_append_dropWhile]

def laterTags (cs : List Char) : List (List Char) :=
  (pieces '\n' cs).tail.filterMap tagText

theorem filterMap_pieces (cs : List Char) :
    (pieces '\n' cs).filterMap tagText = (tagText cs).toList ++ laterTags cs := by
  rw [pieces_eq_takeWhile_cons, List.filterMap_cons, tagText_takeWhile, laterTags]
  cases tagText cs <;> rfl

theorem laterTags_newline (cs : List Char) :
    laterTags ('\n' :: cs) = (tagText cs).toList ++ laterTags cs := by
  rw [← filterMap_pieces, laterTags, pieces, if_pos rfl, List.tail_cons]

theorem laterTags_append {as : List Char} (h : '\n' ∉ as) (cs : List Char) :
    laterTags (as ++ cs) = laterTags cs := by
  rw [laterTags, tail_pieces_append h, laterTags]

theorem Finds.eq_tags {atStart : Bool} {cs : List Char} {found : List (List Char)}
    (h : Finds atStart cs found) :
    found = (if atStart then (tagText cs).toList else []) ++ laterTags cs := by
  induction h with
  | done atStart => cases atStart <;> rfl
  | @tag cs text rest found htag hrest ih =>
    obtain ⟨matched, -, hnewline, hcs, -, -⟩ := htag.exists_matched
    rw [if_pos rfl, (tagText_eq_some_iff cs text).2 ⟨rest, htag⟩, hcs, laterTags_append hnewline, ih]
    rfl
  | @skip atStart c cs found hnone hrest ih =>
    have hhere : (if atStart then (tagText (c :: cs)).toList else []) = [] := by
      cases htag : tagText (c :: cs) with
      | none => simp
      | some text =>
        obtain ⟨rest, htag⟩ := (tagText_eq_some_iff _ text).1 htag
        exact if_neg fun hstart => hnone hstart text rest htag
    rw [hhere, List.nil_append, ih]
    by_cases hc : c = '\n'
    · rw [hc, laterTags_newline, if_pos (by decide)]
    · rw [if_neg (by simpa using hc), List.nil_append, ← List.singleton_append,
        laterTags_append (by simpa using Ne.symm hc)]

/-- A search comes to its end. -/
theorem exists_finds (atStart : Bool) (cs : List Char) : ∃ found, Finds atStart cs found := by
  induction hn : cs.length using Nat.strongRecOn generalizing atStart cs with
  | ind n ih =>
    cases cs with
    | nil => exact ⟨[], .done atStart⟩
    | cons c cs =>
      by_cases htag : atStart = true ∧ ∃ text rest, TagAt (c :: cs) text rest
      · obtain ⟨rfl, text, rest, htag⟩ := htag
        obtain ⟨matched, hne, -, hcs, -, -⟩ := htag.exists_matched
        have hshorter : rest.length < n := by
          have hpos := List.length_pos_iff.2 hne
          rw [← hn, hcs, List.length_append]
          omega
        obtain ⟨found, hfound⟩ := ih _ hshorter false rest rfl
        exact ⟨text :: found, .tag htag hfound⟩
      · obtain ⟨found, hfound⟩ := ih _ (by rw [← hn]; simp) (c == '\n') cs rfl
        exact ⟨found, .skip (fun hstart text rest h => htag ⟨hstart, text, rest, h⟩) hfound⟩

/-- The search finds the tags of the lines, of which each has at most one. -/
theorem finds_iff (cs : List Char) (found : List (List Char)) :
    Finds true cs found ↔ found = (pieces '\n' cs).filterMap tagText := by
  rw [filterMap_pieces]
  constructor
  · exact fun h => h.eq_tags
  · rintro rfl
    obtain ⟨found, hfound⟩ := exists_finds true cs
    have heq := hfound.eq_tags
    rw [if_pos rfl] at heq
    exact heq ▸ hfound

end ContractCheck.Docblock
