import ContractCheck.Proofs.Docblock.Search
import ContractCheck.Proofs.Text.Dedupe

/-!
Docblocks line by line. Main statement: the names that two docblocks announce together are those of the
one and then those of the other, and what is announced is a list of proper names without repetitions.
-/
namespace ContractCheck.Docblock

open Text

structure IsAnnounced (name : String) : Prop where
  ne_empty : name ≠ ""
  chars : ∀ c ∈ name.toList, c ≠ '|' ∧ c ≠ '*' ∧ isSpace c = false
  unslashed : name.toList.head? ≠ some '\\'

def mentioned (doc : String) : List String :=
  (pieces '\n' doc.toList).flatMap lineNames

theorem lineNames_eq (line : List Char) :
    lineNames line = (tagText line).toList.flatMap alternatives := by
  rw [lineNames]
  cases tagText line with
  | none => rfl
  | some text => simp

theorem mentioned_eq_flatMap (doc : String) :
    mentioned doc = ((pieces '\n' doc.toList).filterMap tagText).flatMap alternatives := by
  rw [mentioned]
  induction pieces '\n' doc.toList with
  | nil => rfl
  | cons line lines ih =>
    rw [List.flatMap_cons, ih, lineNames_eq, List.filterMap_cons]
    cases tagText line <;> simp

theorem mentioned_append (d₁ d₂ : String) :
    mentioned (d₁ ++ "\n" ++ d₂) = mentioned d₁ ++ mentioned d₂ := by
  have hlines : (d₁ ++ "\n" ++ d₂).toList = d₁.toList ++ '\n' :: d₂.toList := by simp
  rw [mentioned, hlines, pieces_append, List.flatMap_append, mentioned, mentioned]

theorem isAnnounced_of_mem_alternatives {text : List Char} (htext : ∀ c ∈ text, inTag c = true)
    {name : String} (h : name ∈ alternatives text) : IsAnnounced name := by
  simp only [alternatives, List.mem_map, List.mem_filter] at h
  obtain ⟨_, ⟨⟨piece, hpiece, rfl⟩, hne⟩, rfl⟩ := h
  have hkept : ∀ c ∈ piece.dropWhile (· = '\\'), c ∈ piece := fun c hc =>
    (List.dropWhile_sublist _).subset hc
  refine ⟨?_, ?_, ?_⟩
  · simpa using hne
  · intro c hc
    rw [String.toList_ofList] at hc
    have hin := htext c (mem_of_mem_pieces hpiece (hkept c hc))
    rw [inTag, Bool.and_eq_true, Bool.not_eq_true', bne_iff_ne] at hin
    refine ⟨?_, hin.2, hin.1⟩
    rintro rfl
    exact not_mem_of_mem_pieces hpiece (hkept _ hc)
  · rw [String.toList_ofList]
    intro hslash
    have hstop := List.head?_dropWhile_not (· = '\\') piece
    rw [hslash] at hstop
    simp at hstop

theorem isAnnounced_of_mem_mentioned {doc name : String} (h : name ∈ mentioned doc) :
    IsAnnounced name := by
  rw [mentioned_eq_flatMap] at h
  obtain ⟨text, htext, hname⟩ := List.mem_flatMap.1 h
  obtain ⟨line, -, htag⟩ := List.mem_filterMap.1 htext
  obtain ⟨rest, htag⟩ := (tagText_eq_some_iff line text).1 htag
  obtain ⟨_, _, _, _, -, -, -, -, -, -, hchars, -, -⟩ := htag.exists_parts
  exact isAnnounced_of_mem_alternatives hchars hname

/-- Announced names are read line by line. The tags are those that a search through the whole docblock
finds, of which each line has at most one; the names are their alternatives, each once, in the order
of first mention. -/
theorem thrownNames_line_by_line :
    (∀ d₁ d₂ : String,
      thrownNames (d₁ ++ "\n" ++ d₂) = dedupe (thrownNames d₁ ++ thrownNames d₂)) ∧
    ∀ doc : String,
      (∃ tags, Finds true doc.toList tags ∧ tags = (pieces '\n' doc.toList).filterMap tagText ∧
        thrownNames doc = dedupe (tags.flatMap alternatives) ∧
        FirstMentions (tags.flatMap alternatives) (thrownNames doc)) ∧
      ∀ name ∈ thrownNames doc, IsAnnounced name := by
  refine ⟨fun d₁ d₂ => ?_, fun doc => ⟨⟨_, (finds_iff _ _).2 rfl, rfl, ?_⟩, fun name hname => ?_⟩⟩
  · rw [thrownNames, thrownNames, thrownNames, dedupe_append_dedupe]
    exact congrArg dedupe (mentioned_append d₁ d₂)
  · rw [← mentioned_eq_flatMap]
    exact ⟨rfl, firstMentions_dedupe (mentioned doc)⟩
  · exact isAnnounced_of_mem_mentioned (mem_of_mem_dedupeFrom hname).1

def twoTags : String :=
  "/** @throws \\A|b @throws D\n * @throws B|C|| text */"

theorem thrownNames_line_by_line_twoTags :
    thrownNames twoTags = ["A", "b", "C"] ∧ "b" ∈ thrownNames twoTags ∧ IsAnnounced "b" ∧
      thrownNames (twoTags ++ "\n" ++ twoTags) = dedupe (thrownNames twoTags ++ thrownNames twoTags) := by
  have hnames : thrownNames twoTags = ["A", "b", "C"] := by decide +kernel
  have hmem : "b" ∈ thrownNames twoTags := by
    rw [hnames]
    simp
  exact ⟨hnames, hmem, (thrownNames_line_by_line.2 twoTags).2 "b" hmem,
    thrownNames_line_by_line.1 twoTags twoTags⟩

end ContractCheck.Docblock
