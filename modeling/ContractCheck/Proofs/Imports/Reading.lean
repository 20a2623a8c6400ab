import ContractCheck.Text.LowerCase
import ContractCheck.Proofs.Imports.Entries
import ContractCheck.Proofs.Table

/-!
What is read from a written declaration: what its entries give, entered in order. Nothing is read if a
plain declaration starts with a word that is taken for one that tells a kind.
-/
namespace ContractCheck.Imports

open Text

def ofBindings (bindings : List (String × String)) : Imports :=
  bindings.foldl (fun acc b => acc.set b.1 b.2) {}

/-- A short name stands for the last full name that was entered for it. -/
theorem find?_ofBindings (bindings : List (String × String)) (k : String) :
    (ofBindings bindings).find? k = (bindings.reverse.find? (·.1 = k)).map (·.2) := by
  rw [ofBindings, Table.find?_foldl_set]
  exact Option.or_none

/-- What is left without the word `use`, the semicolon and the white space around the rest. -/
theorem declarationBody_written (keyword : Spelling "use") (gap : Break) {body : List Char}
    (hbody : ¬ Blank body) (hsemi : ';' ∉ body) :
    declarationBody (String.ofList (keyword.chars ++ gap.chars ++ body ++ [';'])) = trim body := by
  have hstart : ∀ t, ∃ c ∈ (keyword.chars ++ t).head?, isSpace c = false := fun t =>
    exists_head?_append (exists_head?_of_forall (keyword.ne_nil (by decide))
      (keyword.visible isKeyword_use)) t
  have htext : trim (keyword.chars ++ gap.chars ++ body ++ [';']) =
      keyword.chars ++ gap.chars ++ body ++ [';'] := by
    refine Tight.trim_eq ⟨?_, exists_getLast?_append ⟨';', rfl, by decide⟩ _⟩
    rw [List.append_assoc, List.append_assoc]
    exact hstart _
  have hcut : dropEndWhile (· = ';') (keyword.chars ++ gap.chars ++ body ++ [';']) =
      keyword.chars ++ gap.chars ++ body := by
    refine dropEndWhile_concat (fun c hc => decide_eq_false ?_) (by decide)
    refine ne_of_mem_of_not_mem hc ?_
    rw [List.mem_append, List.mem_append, not_or, not_or]
    exact ⟨⟨fun h => ne_of_inWord (keyword.plain isKeyword_use _ h) (by decide) rfl,
      not_mem_of_blank gap.blank (by decide)⟩, hsemi⟩
  obtain ⟨front, back, hf, hb, heq⟩ := exists_trim body
  have htrim : trim (keyword.chars ++ gap.chars ++ body) =
      keyword.chars ++ (gap.chars ++ (front ++ trim body)) := by
    have hparts : keyword.chars ++ gap.chars ++ body =
        [] ++ (keyword.chars ++ (gap.chars ++ (front ++ trim body))) ++ back := by
      conv_lhs => rw [heq]
      simp only [List.nil_append, List.append_assoc]
    rw [hparts, trim_spaced blank_nil hb]
    refine Tight.trim_eq ⟨hstart _, ?_⟩
    rw [← List.append_assoc, ← List.append_assoc]
    exact exists_getLast?_append (tight_trim hbody).2 _
  rw [declarationBody, String.toList_ofList, htext, hcut, htrim, dropKeywordSpace_spelling isKeyword_use,
    dropWhile_blank_append hf, dropWhile_eq_self (tight_trim hbody).1]
  rfl

def PlainDeclaration.opensLikeKind (d : PlainDeclaration) : Bool :=
  !d.first.rooted && d.first.entry.name.qualifier.isEmpty && d.first.entry.name.last.isKind &&
    (d.first.entry.renamed.isSome || (!d.rest.isEmpty && !d.first.back.chars.isEmpty))

def PlainDeclaration.items (d : PlainDeclaration) : List PlainItem :=
  d.first :: d.rest

theorem PlainDeclaration.not_mem_body (d : PlainDeclaration) {mark : Char} (hcomma : mark ≠ ',')
    (h : inEntry mark = false) : mark ∉ d.body := by
  refine not_mem_intercalate hcomma ?_
  rw [List.forall_mem_map]
  exact fun i _ => not_mem_of_inEntry i.spaced.inEntry h

def PlainDeclaration.tail (d : PlainDeclaration) : List Char :=
  match d.rest with
  | [] => []
  | next :: more =>
    d.first.back.chars ++
      ',' :: dropEndWhile isSpace ([','].intercalate ((next :: more).map PlainItem.chars))

theorem PlainDeclaration.trim_body (d : PlainDeclaration) : trim d.body = d.first.core ++ d.tail := by
  have hcomma : ∃ c ∈ (d.first.back.chars ++ [',']).getLast?, isSpace c = false :=
    exists_getLast?_append ⟨',', rfl, by decide⟩ _
  rw [PlainDeclaration.body, PlainDeclaration.tail]
  cases d.rest with
  | nil =>
    rw [List.map_singleton, List.intercalate_singleton, d.first.spaced.trim_eq, List.append_nil]
  | cons next more =>
    rw [List.map_cons, List.map_cons, List.intercalate_cons_cons, PlainItem.chars, List.append_assoc,
      List.append_assoc, List.append_assoc, trim, trimWhile, dropWhile_blank_append d.first.front.blank,
      dropWhile_eq_self (exists_head?_append d.first.spaced.tight.1 _),
      dropEndWhile_append_of_getLast? d.first.spaced.tight.2, ← List.append_assoc,
      dropEndWhile_append_of_getLast? hcomma, List.append_assoc]
    rfl

/-- Behind the first entry stands white space, a comma or nothing. -/
theorem PlainDeclaration.head?_tail (d : PlainDeclaration) :
    (∀ c ∈ d.tail.head?, inWord c = false) ∧
      d.tail.head?.any isSpace = (!d.rest.isEmpty && !d.first.back.chars.isEmpty) := by
  rw [PlainDeclaration.tail]
  cases d.rest with
  | nil => simp
  | cons next more =>
    cases hback : d.first.back.chars with
    | nil =>
      refine ⟨?_, by simp [show isSpace ',' = false by decide]⟩
      rintro c ⟨⟩
      decide
    | cons b back =>
      have hb : isSpace b = true := d.first.back.blank b (hback ▸ List.mem_cons_self)
      refine ⟨?_, by simp [hb]⟩
      rintro c ⟨⟩
      exact not_inWord_of_isSpace hb

theorem PlainDeclaration.importsNoClass_trim_body (d : PlainDeclaration) :
    importsNoClass (trim d.body) = d.opensLikeKind := by
  obtain ⟨hend, hspace⟩ := d.head?_tail
  rw [d.trim_body, PlainItem.core, Entry.chars, ← List.append_assoc, List.append_assoc,
    PlainDeclaration.opensLikeKind, ← hspace]
  cases d.first.entry.renamed with
  | none => exact importsNoClass_name d.first.rooted d.first.entry.name hend
  | some r =>
    obtain ⟨c, hc, hc'⟩ := exists_head?_append (exists_head?_renaming r) d.tail
    have hhead : (renamedChars (some r) ++ d.tail).head? = some c := hc
    have hgap : ∀ b ∈ (renamedChars (some r) ++ d.tail).head?, inWord b = false :=
      forall_mem_of_exists ⟨c, hc, not_inWord_of_isSpace hc'⟩
    rw [importsNoClass_name d.first.rooted d.first.entry.name hgap, hhead, Option.any_some, hc']
    rfl

theorem PlainDeclaration.entryTexts_trim_body (d : PlainDeclaration) :
    entryTexts (trim d.body) = d.items.map PlainItem.core := by
  have hbrace : '\x7b' ∉ trim d.body := fun h =>
    d.not_mem_body (by decide) (by decide) (mem_of_mem_trim h)
  have hcomma : ∀ text ∈ d.items.map PlainItem.chars, ',' ∉ text := by
    rw [List.forall_mem_map]
    exact fun i _ => not_mem_of_inEntry i.spaced.inEntry (by decide)
  rw [entryTexts, cutFirst_of_not_mem hbrace]
  simp only
  rw [trimmedPieces_trim (by decide), PlainDeclaration.body, ← PlainDeclaration.items,
    trimmedPieces_intercalate hcomma, filter_map_trim fun i _ => ⟨i.spaced.trim_eq, i.spaced.tight.ne_nil⟩]

theorem PlainDeclaration.parse_text (d : PlainDeclaration) :
    parse d.text =
      if d.opensLikeKind then {} else ofBindings (d.items.filterMap (·.entry.reading)) := by
  have hvisible : ¬ Blank d.body := by
    obtain ⟨c, hc, hvisible⟩ := d.first.spaced.tight.1
    have hmem : c ∈ trim d.body := by
      rw [d.trim_body]
      exact List.mem_append_left d.tail (List.mem_of_mem_head? hc)
    exact not_blank_of_mem (mem_of_mem_trim hmem) hvisible
  have hsemi : ';' ∉ d.body := d.not_mem_body (by decide) (by decide)
  rw [parse, PlainDeclaration.text, declarationBody_written d.keyword d.gap hvisible hsemi,
    d.importsNoClass_trim_body, d.entryTexts_trim_body, List.filterMap_map]
  simp only [Function.comp_def, PlainItem.core, parseEntry_entry]
  rfl

theorem GroupDeclaration.inEntry_opening (g : GroupDeclaration) : ∀ c ∈ g.opening, inEntry c = true := by
  simp only [GroupDeclaration.opening, List.forall_mem_append, List.forall_mem_cons]
  exact ⟨⟨inEntry_rootChars g.rooted, g.common.inEntry⟩, by decide, inEntry_of_blank g.beforeBrace.blank⟩

theorem GroupDeclaration.not_mem_inner (g : GroupDeclaration) {mark : Char} (hcomma : mark ≠ ',')
    (h : inEntry mark = false) : mark ∉ g.inner := by
  refine not_mem_intercalate hcomma ?_
  rw [List.forall_mem_append, List.forall_mem_map, List.forall_mem_map]
  exact ⟨fun i _ => not_mem_of_inEntry i.spaced.inEntry h,
    fun gap _ => not_mem_of_inEntry (inEntry_of_blank gap.blank) h⟩

theorem GroupDeclaration.trim_body (g : GroupDeclaration) :
    trim g.body = g.opening ++ '\x7b' :: (g.inner ++ ['\x7d']) := by
  have hparts : g.body = [] ++ (g.opening ++ '\x7b' :: (g.inner ++ ['\x7d'])) ++ g.afterBrace.chars := by
    simp [GroupDeclaration.body]
  rw [hparts, trim_spaced blank_nil g.afterBrace.blank]
  refine Tight.trim_eq ⟨exists_head?_append ?_ _, ?_⟩
  · rw [GroupDeclaration.opening, List.append_assoc]
    have hstart := exists_head?_append g.common.exists_head? ('\\' :: g.beforeBrace.chars)
    exact exists_head?_rootChars_append (exists_head?_visible hstart) g.rooted
  · rw [← List.cons_append, ← List.append_assoc]
    exact exists_getLast?_append ⟨'\x7d', rfl, by decide⟩ _

/-- A group does not start with a word that is taken for one that tells a kind. -/
theorem GroupDeclaration.importsNoClass_trim_body (g : GroupDeclaration) :
    importsNoClass (trim g.body) = false := by
  have hspace : isSpace '\\' = false := by decide
  rw [g.trim_body, GroupDeclaration.opening, List.append_assoc, List.cons_append,
    importsNoClass_name g.rooted g.common (not_inWord_head?_backslash _)]
  simp [hspace]

theorem GroupDeclaration.trim_opening (g : GroupDeclaration) :
    trimWhile (· = '\\') (trim g.opening) = g.common.chars := by
  have hparts : g.opening =
      [] ++ (rootChars g.rooted ++ (g.common.chars ++ ['\\'])) ++ g.beforeBrace.chars := by
    simp [GroupDeclaration.opening]
  have hstart := exists_head?_append g.common.exists_head? ['\\']
  have htight : Tight (rootChars g.rooted ++ (g.common.chars ++ ['\\'])) := by
    refine ⟨exists_head?_rootChars_append (exists_head?_visible hstart) _, ?_⟩
    exact exists_getLast?_append (exists_getLast?_append ⟨'\\', rfl, by decide⟩ _) _
  have hend : ∃ c ∈ g.common.chars.getLast?, decide (c = '\\') = false := by
    refine exists_getLast?_append (exists_getLast?_of_forall g.common.last.ne_nil fun c hc => ?_) _
    exact decide_eq_false (ne_of_inWord (g.common.last.plain c hc) (by decide))
  rw [hparts, trim_spaced blank_nil g.beforeBrace.blank, htight.trim_eq, trimWhile,
    dropWhile_rootChars_append hstart, dropEndWhile_append_of_getLast? hend]
  exact List.append_nil _

theorem GroupDeclaration.trimmedPieces_inner (g : GroupDeclaration) :
    trimmedPieces ',' g.inner = g.items.map GroupItem.core := by
  have hcomma : ∀ text ∈ g.items.map GroupItem.chars ++ g.closing.toList.map Gap.chars, ',' ∉ text := by
    rw [List.forall_mem_append, List.forall_mem_map, List.forall_mem_map]
    exact ⟨fun i _ => not_mem_of_inEntry i.spaced.inEntry (by decide),
      fun gap _ => not_mem_of_blank gap.blank (by decide)⟩
  have hitems : ((g.items.map GroupItem.chars).map trim).filter (· ≠ []) = g.items.map GroupItem.core :=
    filter_map_trim fun i _ => ⟨i.spaced.trim_eq, i.spaced.tight.ne_nil⟩
  have hclosing : ((g.closing.toList.map Gap.chars).map trim).filter (· ≠ []) = [] := by
    rw [List.map_map, List.filter_eq_nil_iff, List.forall_mem_map]
    intro gap _
    simp [trim_of_blank gap.blank]
  rw [GroupDeclaration.inner, trimmedPieces_intercalate hcomma, List.map_append, List.filter_append,
    hitems, hclosing, List.append_nil]

theorem GroupDeclaration.entryTexts_trim_body (g : GroupDeclaration) :
    entryTexts (trim g.body) = g.items.map fun i => g.common.chars ++ '\\' :: i.core := by
  have hbrace : '\x7b' ∉ g.opening := not_mem_of_inEntry g.inEntry_opening (by decide)
  have hclose : ∀ c ∈ g.inner, decide (c = '\x7d') = false := fun c hc =>
    decide_eq_false (ne_of_mem_of_not_mem hc (g.not_mem_inner (by decide) (by decide)))
  rw [entryTexts, g.trim_body, cutFirst_append_cons hbrace]
  simp only
  rw [dropEndWhile_concat hclose (by decide), g.trim_opening, g.trimmedPieces_inner, List.map_map]
  rfl

theorem GroupDeclaration.parse_text (g : GroupDeclaration) :
    parse g.text = ofBindings (g.items.filterMap (·.reading g.common)) := by
  have hsemi : ';' ∉ g.body := by
    simp only [GroupDeclaration.body, List.mem_append, List.mem_cons, not_or]
    exact ⟨not_mem_of_inEntry g.inEntry_opening (by decide), by decide,
      g.not_mem_inner (by decide) (by decide), by decide, not_mem_of_blank g.afterBrace.blank (by decide)⟩
  have hvisible : ¬ Blank g.body :=
    not_blank_of_mem (c := '\\') (by simp [GroupDeclaration.body, GroupDeclaration.opening]) (by decide)
  rw [parse, GroupDeclaration.text, declarationBody_written g.keyword g.gap hvisible hsemi,
    g.importsNoClass_trim_body, g.entryTexts_trim_body, List.filterMap_map]
  simp only [Function.comp_def, parseEntry_groupItem]
  rfl

inductive Declaration where
  | plain (d : PlainDeclaration)
  | group (g : GroupDeclaration) (classes : ∀ i ∈ g.items, i.mark = none)

def Declaration.text : Declaration → String
  | .plain d => d.text
  | .group g _ => g.text

def Declaration.entries : Declaration → List Entry
  | .plain d => d.items.map (·.entry)
  | .group g _ => g.items.map (·.entry.under g.common)

def Declaration.opensLikeKind : Declaration → Bool
  | .plain d => d.opensLikeKind
  | .group _ _ => false

def Name.segments (n : Name) : List Word :=
  n.qualifier ++ [n.last]

theorem Declaration.parse_text (d : Declaration) :
    parse d.text =
      if d.opensLikeKind then {} else ofBindings (d.entries.filterMap Entry.reading) := by
  cases d with
  | plain d =>
    rw [Declaration.text, d.parse_text, Declaration.entries, List.filterMap_map]
    rfl
  | group g classes =>
    have hread : g.items.filterMap (·.reading g.common) =
        g.items.filterMap fun i => (i.entry.under g.common).reading :=
      List.filterMap_congr fun i hi => i.reading_class g.common (classes i hi)
    rw [Declaration.text, g.parse_text, hread, Declaration.entries, List.filterMap_map]
    rfl

section Unlike

variable {d : Declaration} (h : ∀ e ∈ d.entries, ∀ w ∈ e.name.segments, w.isKind = false)

include h

theorem Declaration.opensLikeKind_eq_false : d.opensLikeKind = false := by
  cases d with
  | group g classes => rfl
  | plain d =>
    have hlast : d.first.entry.name.last.isKind = false :=
      h d.first.entry List.mem_cons_self d.first.entry.name.last (by simp [Name.segments])
    simp [Declaration.opensLikeKind, PlainDeclaration.opensLikeKind, hlast]

theorem Declaration.filterMap_reading :
    d.entries.filterMap Entry.reading = d.entries.map Entry.binding := by
  rw [← List.filterMap_eq_map]
  refine List.filterMap_congr fun e he => ?_
  have hlast : e.name.last.isKind = false := h e he e.name.last (by simp [Name.segments])
  simp [Entry.reading, Entry.isTakenForKind, hlast]

end Unlike

/-- The imports of a declaration are read back: each short name with its full name, a later one in
place of an earlier one. Entries are missing only where a segment is, with its letters folded, a word that
tells a kind: an entry whose last segment is such a word and that has another name, and all of a plain
declaration that starts with such a word and white space. -/
theorem parse_declaration (d : Declaration) :
    parse d.text =
        (if d.opensLikeKind then {} else ofBindings (d.entries.filterMap Entry.reading)) ∧
      ((∀ e ∈ d.entries, ∀ w ∈ e.name.segments, w.isKind = false) →
        parse d.text = ofBindings (d.entries.map Entry.binding) ∧
        ∀ k, (parse d.text).find? k =
          ((d.entries.map Entry.binding).reverse.find? (·.1 = k)).map (·.2)) := by
  refine ⟨d.parse_text, fun h => ?_⟩
  have hread : parse d.text = ofBindings (d.entries.map Entry.binding) := by
    rw [d.parse_text, d.opensLikeKind_eq_false h, d.filterMap_reading h]
    rfl
  refine ⟨hread, fun k => ?_⟩
  rw [hread, find?_ofBindings]

def Word.ofString (s : String) (h : s.toList ≠ [] ∧ s.toList.all inWord = true := by decide) : Word :=
  ⟨s.toList, h.1, List.all_eq_true.1 h.2⟩

def Break.ofString (s : String) (h : s.toList ≠ [] ∧ s.toList.all isSpace = true := by decide) : Break :=
  ⟨⟨s.toList, List.all_eq_true.1 h.2⟩, h.1⟩

def noGap : Gap :=
  ⟨[], blank_nil⟩

def blank : Break :=
  Break.ofString " "

def useWord : Spelling "use" :=
  ⟨"use".toList, by decide⟩

def saleImports : Declaration :=
  let shop := Word.ofString "Shop"
  let item (front : Gap) (rooted : Bool) (last : Word) (r : Option Renaming) (back : Gap) : PlainItem :=
    ⟨front, rooted, ⟨⟨[shop], last⟩, r⟩, back⟩
  .plain {
    keyword := ⟨"uSE".toList, by decide⟩
    gap := Break.ofString "\t"
    first := item noGap true (Word.ofString "Order")
      (some ⟨Break.ofString "\n", ⟨"As".toList, by decide⟩, blank, Word.ofString "Sale"⟩) blank.toGap
    rest :=
      [item noGap false (Word.ofString "Item") none noGap,
        item blank.toGap false (Word.ofString "Sale") none noGap] }

theorem parse_declaration_saleImports :
    saleImports.text = "uSE\t\\Shop\\Order\nAs Sale ,Shop\\Item, Shop\\Sale;" ∧
      (∀ e ∈ saleImports.entries, ∀ w ∈ e.name.segments, w.isKind = false) ∧
      (parse saleImports.text).entries = [("Sale", "Shop\\Sale"), ("Item", "Shop\\Item")] := by
  have hsegments : ∀ e ∈ saleImports.entries, ∀ w ∈ e.name.segments, w.isKind = false := by decide +kernel
  refine ⟨by decide, hsegments, ?_⟩
  rw [((parse_declaration saleImports).2 hsegments).1]
  decide

/-- A class whose name differs from `function` by a capital dotted i. -/
def dottedImport : Declaration :=
  .plain {
    keyword := useWord
    gap := blank
    first := {
      front := noGap
      rooted := false
      entry := {
        name := ⟨[Word.ofString "Lib"], Word.ofString "funct\u0130on"⟩
        renamed := some ⟨blank, ⟨"as".toList, by decide⟩, blank, Word.ofString "F"⟩ }
      back := noGap }
    rest := [] }

/-- An import is missing though none of its segments is, lower-cased, a word that tells a kind. -/
theorem dotted_import_not_read :
    dottedImport.text = "use Lib\\funct\u0130on as F;" ∧
      (∀ e ∈ dottedImport.entries, ∀ w ∈ e.name.segments,
        lower (String.ofList w.chars) ≠ "function" ∧ lower (String.ofList w.chars) ≠ "const") ∧
      dottedImport.entries.map Entry.binding = [("F", "Lib\\funct\u0130on")] ∧
      (parse dottedImport.text).entries = [] := by
  refine ⟨by decide, by decide +kernel, by decide, ?_⟩
  rw [dottedImport.parse_text]
  decide

end ContractCheck.Imports
