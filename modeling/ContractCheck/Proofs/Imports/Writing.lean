import ContractCheck.Declaration.Import
import ContractCheck.Proofs.Text.Cutting
import ContractCheck.Proofs.Text.Keyword

/-!
Import declarations as they are written, with all white space and letter case. A declaration is plain,
with entries between commas, or a group, whose entries share the first part of their names. The marks
of a declaration are found again in its text, since no word holds white space or a mark.
-/
namespace ContractCheck.Imports

open Text

def inWord (c : Char) : Bool :=
  !isSpace c && !(['\\', ',', ';', '\x7b', '\x7d'].contains c)

structure Word where
  chars : List Char
  ne_nil : chars ≠ []
  plain : ∀ c ∈ chars, inWord c = true

structure Gap where
  chars : List Char
  blank : Blank chars

structure Break extends Gap where
  ne_nil : chars ≠ []

structure Spelling (word : String) where
  chars : List Char
  spells : chars.map Char.toLower = word.toList

structure Name where
  qualifier : List Word
  last : Word

structure Renaming where
  before : Break
  keyword : Spelling "as"
  after : Break
  word : Word

structure Entry where
  name : Name
  renamed : Option Renaming

inductive Kind where
  | function
  | constant

def Kind.word : Kind → String
  | .function => "function"
  | .constant => "const"

structure KindMark where
  kind : Kind
  keyword : Spelling kind.word
  gap : Break

structure PlainItem where
  front : Gap
  rooted : Bool
  entry : Entry
  back : Gap

structure GroupItem where
  front : Gap
  mark : Option KindMark
  entry : Entry
  back : Gap

structure PlainDeclaration where
  keyword : Spelling "use"
  gap : Break
  first : PlainItem
  rest : List PlainItem

/-- A group of entries. What stands behind a last comma, or alone in an empty group, is white space. -/
structure GroupDeclaration where
  keyword : Spelling "use"
  gap : Break
  rooted : Bool
  common : Name
  beforeBrace : Gap
  items : List GroupItem
  closing : Option Gap
  afterBrace : Gap

def leadingChars (ws : List Word) : List Char :=
  ws.flatMap fun w => w.chars ++ ['\\']

def Name.chars (n : Name) : List Char :=
  leadingChars n.qualifier ++ n.last.chars

def Renaming.chars (r : Renaming) : List Char :=
  r.before.chars ++ r.keyword.chars ++ r.after.chars ++ r.word.chars

def renamedChars (r : Option Renaming) : List Char :=
  (r.map Renaming.chars).getD []

def Entry.chars (e : Entry) : List Char :=
  e.name.chars ++ renamedChars e.renamed

def Entry.shortName (e : Entry) : Word :=
  (e.renamed.map (·.word)).getD e.name.last

def rootChars (rooted : Bool) : List Char :=
  if rooted then ['\\'] else []

def KindMark.chars (m : KindMark) : List Char :=
  m.keyword.chars ++ m.gap.chars

def markChars (m : Option KindMark) : List Char :=
  (m.map KindMark.chars).getD []

def PlainItem.core (i : PlainItem) : List Char :=
  rootChars i.rooted ++ i.entry.chars

def GroupItem.core (i : GroupItem) : List Char :=
  markChars i.mark ++ i.entry.chars

def PlainItem.chars (i : PlainItem) : List Char :=
  i.front.chars ++ i.core ++ i.back.chars

def GroupItem.chars (i : GroupItem) : List Char :=
  i.front.chars ++ i.core ++ i.back.chars

def PlainDeclaration.body (d : PlainDeclaration) : List Char :=
  [','].intercalate ((d.first :: d.rest).map PlainItem.chars)

def GroupDeclaration.inner (g : GroupDeclaration) : List Char :=
  [','].intercalate (g.items.map GroupItem.chars ++ g.closing.toList.map Gap.chars)

def GroupDeclaration.opening (g : GroupDeclaration) : List Char :=
  rootChars g.rooted ++ g.common.chars ++ '\\' :: g.beforeBrace.chars

def GroupDeclaration.body (g : GroupDeclaration) : List Char :=
  g.opening ++ '\x7b' :: (g.inner ++ '\x7d' :: g.afterBrace.chars)

def PlainDeclaration.text (d : PlainDeclaration) : String :=
  String.ofList (d.keyword.chars ++ d.gap.chars ++ d.body ++ [';'])

def GroupDeclaration.text (g : GroupDeclaration) : String :=
  String.ofList (g.keyword.chars ++ g.gap.chars ++ g.body ++ [';'])

def Word.isLike (w : Word) (word : String) : Bool :=
  w.chars.map foldLetter == word.toList

def Word.isKind (w : Word) : Bool :=
  w.isLike "function" || w.isLike "const"

theorem isSpace_eq_false_of_inWord {c : Char} (h : inWord c = true) : isSpace c = false := by
  rw [inWord, Bool.and_eq_true] at h
  simpa using h.1

theorem ne_of_inWord {c mark : Char} (h : inWord c = true) (hmark : inWord mark = false) : c ≠ mark := by
  rintro rfl
  rw [h] at hmark
  cases hmark

theorem not_inWord_of_isSpace {c : Char} (h : isSpace c = true) : inWord c = false := by
  rw [inWord, h]
  rfl

/-- Only characters of words count as letters of a keyword. -/
theorem inWord_of_isLower_foldLetter {c : Char} (h : (foldLetter c).isLower = true) :
    inWord c = true := by
  have hlow : ∀ n < 512, (foldLetter (Char.ofNat n)).isLower = true → inWord (Char.ofNat n) = true := by
    decide +kernel
  rw [← Char.ofNat_toNat c] at h ⊢
  refine hlow c.toNat ?_ h
  by_contra hlarge
  rw [Char.ofNat_toNat, foldLetter, if_neg (by omega), if_neg (by omega)] at h
  have hsmall := toNat_lt_of_isLower_toLower h
  omega

theorem inWord_of_map_foldLetter {word : String} (hword : IsKeyword word) {cs : List Char}
    (h : cs.map foldLetter = word.toList) : ∀ c ∈ cs, inWord c = true := by
  intro c hc
  exact inWord_of_isLower_foldLetter (hword (foldLetter c) (h ▸ List.mem_map_of_mem hc))

theorem takeWhile_inWord_append {cs t : List Char} (hcs : ∀ c ∈ cs, inWord c = true)
    (ht : ∀ c ∈ t.head?, inWord c = false) : (cs ++ t).takeWhile inWord = cs := by
  rw [List.takeWhile_append_of_pos hcs]
  cases t with
  | nil => rw [List.takeWhile_nil, List.append_nil]
  | cons c t => rw [List.takeWhile_cons_of_neg (by simp [ht c rfl]), List.append_nil]

/-- Characters of a word are taken for a keyword that white space follows just if they are all of it. -/
theorem dropKeywordSpace_append {word : String} (hword : IsKeyword word) {cs t : List Char}
    (hcs : ∀ c ∈ cs, inWord c = true) (ht : ∀ c ∈ t.head?, inWord c = false) :
    dropKeywordSpace word (cs ++ t) =
      if cs.map foldLetter = word.toList ∧ t.head?.any isSpace = true then some (t.dropWhile isSpace)
      else none := by
  by_cases hlike : cs.map foldLetter = word.toList
  · have hread : dropKeyword word (cs ++ t) = some t :=
      (dropKeyword_eq_some_iff hword).2 ⟨cs, hlike, rfl⟩
    rw [dropKeywordSpace, hread]
    cases t with
    | nil => simp
    | cons c t => by_cases hc : isSpace c = true <;> simp [hc, hlike]
  · rw [if_neg fun h => hlike h.1, dropKeywordSpace]
    cases hread : dropKeyword word (cs ++ t) with
    | none => rfl
    | some rest =>
      cases rest with
      | nil => rfl
      | cons c rest =>
        obtain ⟨taken, htaken, heq⟩ := (dropKeyword_eq_some_iff hword).1 hread
        -- A space would end the word just behind what was taken for the keyword.
        have hc : isSpace c = false := by
          rw [Bool.eq_false_iff]
          intro hspace
          have hsame : cs = taken := by
            rw [← takeWhile_inWord_append hcs ht, heq]
            refine takeWhile_inWord_append (inWord_of_map_foldLetter hword htaken) ?_
            rintro d ⟨⟩
            exact not_inWord_of_isSpace hspace
          exact hlike (hsame ▸ htaken)
        simp [hc]

theorem not_inWord_head?_backslash (cs : List Char) : ∀ c ∈ ('\\' :: cs).head?, inWord c = false := by
  rintro c ⟨⟩
  decide

theorem isKeyword_use : IsKeyword "use" := by decide

theorem isKeyword_as : IsKeyword "as" := by decide

theorem isKeyword_kind (k : Kind) : IsKeyword k.word := by cases k <;> decide

theorem Word.visible (w : Word) : ∀ c ∈ w.chars, isSpace c = false :=
  fun c hc => isSpace_eq_false_of_inWord (w.plain c hc)

theorem Word.tight (w : Word) : Tight w.chars :=
  ⟨exists_head?_of_forall w.ne_nil w.visible, exists_getLast?_of_forall w.ne_nil w.visible⟩

theorem Break.exists_head? (b : Break) : ∃ c ∈ b.chars.head?, isSpace c = true :=
  exists_head?_of_forall b.ne_nil b.blank

theorem Spelling.ne_nil {word : String} (s : Spelling word) (h : word.toList ≠ []) : s.chars ≠ [] := by
  intro hnil
  rw [← s.spells, hnil] at h
  exact h rfl

section Spelling

variable {word : String} (hword : IsKeyword word) (s : Spelling word)

include hword

theorem Spelling.folds : s.chars.map foldLetter = word.toList :=
  map_foldLetter_of_map_toLower hword s.spells

theorem Spelling.plain : ∀ c ∈ s.chars, inWord c = true :=
  inWord_of_map_foldLetter hword (s.folds hword)

theorem Spelling.visible : ∀ c ∈ s.chars, isSpace c = false :=
  fun c hc => isSpace_eq_false_of_inWord (s.plain hword c hc)

theorem dropKeywordSpace_spelling (gap : Break) (t : List Char) :
    dropKeywordSpace word (s.chars ++ (gap.chars ++ t)) = some (t.dropWhile isSpace) := by
  obtain ⟨c, hc, hspace⟩ := exists_head?_append gap.exists_head? t
  have hend : ∀ d ∈ (gap.chars ++ t).head?, inWord d = false :=
    forall_mem_of_exists ⟨c, hc, not_inWord_of_isSpace hspace⟩
  have hgap : (gap.chars ++ t).head?.any isSpace = true := by
    rw [Option.mem_def.1 hc]
    exact hspace
  rw [dropKeywordSpace_append hword (s.plain hword) hend, if_pos ⟨s.folds hword, hgap⟩,
    dropWhile_blank_append gap.blank]

end Spelling

def inEntry (c : Char) : Bool :=
  !([',', ';', '\x7b', '\x7d'].contains c)

theorem inEntry_of_inWord {c : Char} (h : inWord c = true) : inEntry c = true := by
  rw [inWord, Bool.and_eq_true] at h
  simp only [inEntry, List.contains_cons, Bool.not_eq_true', Bool.or_eq_false_iff] at h ⊢
  exact h.2.2

theorem inEntry_of_isSpace {c : Char} (h : isSpace c = true) : inEntry c = true := by
  have hmarks : [',', ';', '\x7b', '\x7d'].all (!isSpace ·) = true := by decide
  rw [inEntry, Bool.not_eq_true', Bool.eq_false_iff]
  intro hmem
  have hvisible := List.all_eq_true.1 hmarks c (by simpa using hmem)
  rw [h] at hvisible
  cases hvisible

theorem inEntry_of_blank {cs : List Char} (h : Blank cs) : ∀ c ∈ cs, inEntry c = true :=
  fun c hc => inEntry_of_isSpace (h c hc)

theorem not_mem_of_inEntry {cs : List Char} (hcs : ∀ c ∈ cs, inEntry c = true) {mark : Char}
    (h : inEntry mark = false) : mark ∉ cs := by
  intro hmem
  rw [hcs mark hmem] at h
  cases h

theorem Word.inEntry (w : Word) : ∀ c ∈ w.chars, inEntry c = true :=
  fun c hc => inEntry_of_inWord (w.plain c hc)

theorem inWord_or_eq_of_mem_leadingChars {ws : List Word} {c : Char} (hc : c ∈ leadingChars ws) :
    inWord c = true ∨ c = '\\' := by
  obtain ⟨w, -, hw⟩ := List.mem_flatMap.1 hc
  cases List.mem_append.1 hw with
  | inl h => exact .inl (w.plain c h)
  | inr h => exact .inr (List.mem_singleton.1 h)

theorem visible_leadingChars (ws : List Word) : ∀ c ∈ leadingChars ws, isSpace c = false := by
  intro c hc
  rcases inWord_or_eq_of_mem_leadingChars hc with hin | rfl
  · exact isSpace_eq_false_of_inWord hin
  · decide

theorem inEntry_leadingChars (ws : List Word) : ∀ c ∈ leadingChars ws, inEntry c = true := by
  intro c hc
  rcases inWord_or_eq_of_mem_leadingChars hc with hin | rfl
  · exact inEntry_of_inWord hin
  · decide

theorem Name.visible (n : Name) : ∀ c ∈ n.chars, isSpace c = false :=
  List.forall_mem_append.2 ⟨visible_leadingChars n.qualifier, n.last.visible⟩

theorem Name.inEntry (n : Name) : ∀ c ∈ n.chars, inEntry c = true :=
  List.forall_mem_append.2 ⟨inEntry_leadingChars n.qualifier, n.last.inEntry⟩

theorem inEntry_renamedChars (r : Option Renaming) : ∀ c ∈ renamedChars r, inEntry c = true := by
  cases r with
  | none => simp [renamedChars]
  | some r =>
    have hkeyword : ∀ c ∈ r.keyword.chars, ContractCheck.Imports.inEntry c = true := fun c hc =>
      inEntry_of_inWord (r.keyword.plain isKeyword_as c hc)
    simp only [renamedChars, Option.map_some, Option.getD_some, Renaming.chars, List.forall_mem_append]
    exact ⟨⟨⟨inEntry_of_blank r.before.blank, hkeyword⟩, inEntry_of_blank r.after.blank⟩,
      r.word.inEntry⟩

theorem Entry.inEntry (e : Entry) : ∀ c ∈ e.chars, inEntry c = true :=
  List.forall_mem_append.2 ⟨e.name.inEntry, inEntry_renamedChars e.renamed⟩

theorem exists_head?_leadingChars {ws : List Word} (hne : ws ≠ []) :
    ∃ c ∈ (leadingChars ws).head?, inWord c = true := by
  obtain ⟨w, ws, rfl⟩ := List.exists_cons_of_ne_nil hne
  rw [leadingChars, List.flatMap_cons, List.append_assoc]
  exact exists_head?_append (exists_head?_of_forall w.ne_nil w.plain) _

theorem Name.exists_head? (n : Name) : ∃ c ∈ n.chars.head?, inWord c = true := by
  by_cases hne : n.qualifier = []
  · rw [Name.chars, hne]
    exact exists_head?_of_forall n.last.ne_nil n.last.plain
  · exact exists_head?_append (exists_head?_leadingChars hne) n.last.chars

theorem exists_head?_visible {cs : List Char} (h : ∃ c ∈ cs.head?, inWord c = true) :
    ∃ c ∈ cs.head?, isSpace c = false := by
  obtain ⟨c, hc, hin⟩ := h
  exact ⟨c, hc, isSpace_eq_false_of_inWord hin⟩

theorem Entry.exists_head? (e : Entry) : ∃ c ∈ e.chars.head?, isSpace c = false :=
  exists_head?_visible (exists_head?_append e.name.exists_head? (renamedChars e.renamed))

theorem Entry.exists_getLast? (e : Entry) : ∃ c ∈ e.chars.getLast?, isSpace c = false := by
  rw [Entry.chars]
  cases e.renamed with
  | none =>
    rw [renamedChars, Option.map_none, Option.getD_none, List.append_nil]
    exact exists_getLast?_append e.name.last.tight.2 _
  | some r => exact exists_getLast?_append (exists_getLast?_append r.word.tight.2 _) _

theorem inEntry_rootChars (rooted : Bool) : ∀ c ∈ rootChars rooted, inEntry c = true :=
  List.all_eq_true.1 (by cases rooted <;> decide)

theorem visible_rootChars (rooted : Bool) : ∀ c ∈ rootChars rooted, isSpace c = false := by
  intro c hc
  have hvisible : (rootChars rooted).all (!isSpace ·) = true := by cases rooted <;> decide
  simpa using List.all_eq_true.1 hvisible c hc

theorem inEntry_markChars (m : Option KindMark) : ∀ c ∈ markChars m, inEntry c = true := by
  cases m with
  | none => simp [markChars]
  | some m =>
    refine List.forall_mem_append.2 ⟨fun c hc => ?_, inEntry_of_blank m.gap.blank⟩
    exact inEntry_of_inWord (m.keyword.plain (isKeyword_kind m.kind) c hc)

theorem exists_head?_rootChars_append {cs : List Char} (h : ∃ c ∈ cs.head?, isSpace c = false)
    (rooted : Bool) : ∃ c ∈ (rootChars rooted ++ cs).head?, isSpace c = false := by
  cases rooted with
  | true => exact ⟨'\\', rfl, by decide⟩
  | false => exact h

theorem exists_head?_markChars_append {cs : List Char} (h : ∃ c ∈ cs.head?, isSpace c = false)
    (mark : Option KindMark) : ∃ c ∈ (markChars mark ++ cs).head?, isSpace c = false := by
  cases mark with
  | none => exact h
  | some m =>
    have hkind : m.kind.word.toList ≠ [] := by cases m.kind <;> decide
    refine exists_head?_append (exists_head?_append ?_ m.gap.chars) cs
    exact exists_head?_of_forall (m.keyword.ne_nil hkind) (m.keyword.visible (isKeyword_kind m.kind))

/-- How an entry stands in a declaration: white space around a core. -/
structure Spaced (chars core : List Char) : Prop where
  gaps : ∃ front back : Gap, chars = front.chars ++ core ++ back.chars
  inEntry_core : ∀ c ∈ core, inEntry c = true
  tight : Tight core

section Spaced

variable {chars core : List Char}

theorem Spaced.inEntry (h : Spaced chars core) : ∀ c ∈ chars, inEntry c = true := by
  obtain ⟨front, back, rfl⟩ := h.gaps
  simp only [List.forall_mem_append]
  exact ⟨⟨inEntry_of_blank front.blank, h.inEntry_core⟩, inEntry_of_blank back.blank⟩

theorem Spaced.trim_eq (h : Spaced chars core) : trim chars = core := by
  obtain ⟨front, back, rfl⟩ := h.gaps
  rw [trim_spaced front.blank back.blank, h.tight.trim_eq]

end Spaced

theorem PlainItem.spaced (i : PlainItem) : Spaced i.chars i.core where
  gaps := ⟨i.front, i.back, rfl⟩
  inEntry_core := List.forall_mem_append.2 ⟨inEntry_rootChars i.rooted, i.entry.inEntry⟩
  tight := ⟨exists_head?_rootChars_append i.entry.exists_head? i.rooted,
    exists_getLast?_append i.entry.exists_getLast? _⟩

theorem GroupItem.spaced (i : GroupItem) : Spaced i.chars i.core where
  gaps := ⟨i.front, i.back, rfl⟩
  inEntry_core := List.forall_mem_append.2 ⟨inEntry_markChars i.mark, i.entry.inEntry⟩
  tight := ⟨exists_head?_markChars_append i.entry.exists_head? i.mark,
    exists_getLast?_append i.entry.exists_getLast? _⟩

end ContractCheck.Imports
