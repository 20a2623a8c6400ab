import ContractCheck.Proofs.Imports.Writing

/-!
How a single entry is read. It gives its short name with its full name, unless its last segment could
tell a kind and another name is chosen for it. In a group, a word that tells a kind is seen as such only
in front of a name of one segment.
-/
namespace ContractCheck.Imports

open Text

def Name.under (common n : Name) : Name :=
  ⟨common.qualifier ++ common.last :: n.qualifier, n.last⟩

def Entry.under (common : Name) (e : Entry) : Entry :=
  { e with name := common.under e.name }

def Entry.key (e : Entry) : String :=
  String.ofList e.shortName.chars

def Entry.binding (e : Entry) : String × String :=
  (e.key, String.ofList e.name.chars)

def Entry.isTakenForKind (e : Entry) : Bool :=
  e.renamed.isSome && e.name.last.isKind

def Entry.reading (e : Entry) : Option (String × String) :=
  if e.isTakenForKind then none else some e.binding

theorem Name.chars_under (common n : Name) :
    (common.under n).chars = common.chars ++ '\\' :: n.chars := by
  simp [Name.chars, Name.under, leadingChars]

/-! The words that tell a kind -/

theorem isSome_dropKeywordSpace_word {word : String} (hword : IsKeyword word) (w : Word)
    {t : List Char} (ht : ∀ c ∈ t.head?, inWord c = false) :
    (dropKeywordSpace word (w.chars ++ t)).isSome = (w.isLike word && t.head?.any isSpace) := by
  rw [dropKeywordSpace_append hword w.plain ht, Word.isLike, Bool.eq_iff_iff, Bool.and_eq_true,
    beq_iff_eq]
  split_ifs with h
  · simpa using h
  · simpa using h

theorem importsNoClass_word (w : Word) {t : List Char} (ht : ∀ c ∈ t.head?, inWord c = false) :
    importsNoClass (w.chars ++ t) = (w.isKind && t.head?.any isSpace) := by
  rw [importsNoClass, isSome_dropKeywordSpace_word (by decide) w ht,
    isSome_dropKeywordSpace_word (by decide) w ht, Word.isKind, Bool.and_or_distrib_right]

theorem importsNoClass_of_head? {t : List Char} (ht : ∀ c ∈ t.head?, inWord c = false) :
    importsNoClass t = false := by
  have hnone : ∀ word, IsKeyword word → word.toList ≠ [] → dropKeywordSpace word t = none := by
    intro word hword hne
    rw [← List.nil_append t, dropKeywordSpace_append hword (by simp) ht,
      if_neg fun h => hne h.1.symm]
  rw [importsNoClass, hnone "function" (by decide) (by decide), hnone "const" (by decide) (by decide)]
  rfl

theorem importsNoClass_name (rooted : Bool) (n : Name) {t : List Char}
    (ht : ∀ c ∈ t.head?, inWord c = false) :
    importsNoClass (rootChars rooted ++ n.chars ++ t) =
      (!rooted && n.qualifier.isEmpty && n.last.isKind && t.head?.any isSpace) := by
  cases rooted with
  | true => exact importsNoClass_of_head? (not_inWord_head?_backslash _)
  | false =>
    obtain ⟨qualifier, last⟩ := n
    cases qualifier with
    | nil => exact importsNoClass_word last ht
    | cons w ws =>
      have hchars : rootChars false ++ Name.chars ⟨w :: ws, last⟩ ++ t =
          w.chars ++ '\\' :: (leadingChars ws ++ last.chars ++ t) := by
        simp [rootChars, Name.chars, leadingChars]
      rw [hchars, importsNoClass_word w (not_inWord_head?_backslash _)]
      simp [show isSpace '\\' = false by decide]

/-! The choice of another name -/

theorem exists_head?_renaming (r : Renaming) : ∃ c ∈ r.chars.head?, isSpace c = true := by
  rw [Renaming.chars, List.append_assoc, List.append_assoc]
  exact exists_head?_append r.before.exists_head? _

theorem not_inWord_head?_renamedChars (r : Option Renaming) :
    ∀ c ∈ (renamedChars r).head?, inWord c = false := by
  cases r with
  | none => simp [renamedChars]
  | some r =>
    intro c hc
    exact not_inWord_of_isSpace (forall_mem_of_exists (exists_head?_renaming r) c hc)

theorem any_isSpace_head?_renamedChars (r : Option Renaming) :
    (renamedChars r).head?.any isSpace = r.isSome := by
  cases r with
  | none => rfl
  | some r =>
    obtain ⟨c, hc, hspace⟩ := exists_head?_renaming r
    have hhead : (renamedChars (some r)).head? = some c := hc
    rw [hhead]
    exact hspace

theorem cutAlias_append {v : List Char} (hv : ∀ c ∈ v, isSpace c = false) (t : List Char) :
    cutAlias (v ++ t) = (cutAlias t).map (Prod.map (v ++ ·) id) := by
  induction v with
  | nil => exact (congrFun Option.map_id (cutAlias t)).symm
  | cons c v ih =>
    rw [List.forall_mem_cons] at hv
    rw [List.cons_append, cutAlias, if_neg (by simp [hv.1]), ih hv.2, Option.map_map]
    rfl

theorem cutAlias_blank_append {gap : List Char} (hgap : Blank gap) {t : List Char}
    (ht : ∃ c ∈ t.head?, isSpace c = false) (has : dropKeywordSpace "as" t = none) :
    cutAlias (gap ++ t) = (cutAlias t).map (Prod.map (gap ++ ·) id) := by
  induction gap with
  | nil => exact (congrFun Option.map_id (cutAlias t)).symm
  | cons c gap ih =>
    obtain ⟨hc, hgap⟩ := (blank_cons_iff c gap).1 hgap
    rw [List.cons_append, cutAlias, if_pos hc, dropWhile_blank_append hgap, dropWhile_eq_self ht, has]
    simp only
    rw [ih hgap, Option.map_map]
    rfl

theorem cutAlias_renaming (r : Renaming) : cutAlias r.chars = some ([], r.word.chars) := by
  obtain ⟨c, gap, hgap⟩ := List.exists_cons_of_ne_nil r.before.ne_nil
  obtain ⟨hc, hblank⟩ := (blank_cons_iff c gap).1 (hgap ▸ r.before.blank)
  have hkeyword : (r.keyword.chars ++ (r.after.chars ++ r.word.chars)).dropWhile isSpace =
      r.keyword.chars ++ (r.after.chars ++ r.word.chars) := by
    refine dropWhile_eq_self (exists_head?_append ?_ _)
    exact exists_head?_of_forall (r.keyword.ne_nil (by decide)) (r.keyword.visible isKeyword_as)
  rw [Renaming.chars, List.append_assoc, List.append_assoc, hgap, List.cons_append, cutAlias,
    if_pos hc, dropWhile_blank_append hblank, hkeyword, dropKeywordSpace_spelling isKeyword_as,
    dropWhile_eq_self r.word.tight.1]

theorem cutAlias_renamedChars (r : Option Renaming) :
    cutAlias (renamedChars r) = r.map fun r => ([], r.word.chars) := by
  cases r with
  | none => rfl
  | some r => exact cutAlias_renaming r

/-! Entries -/

structure Leads (front : List Char) : Prop where
  first : ∀ c ∈ front.head?, inWord c = true
  last : ∀ c ∈ front.getLast?, c = '\\'
  cut : ∀ t, cutAlias (front ++ t) = (cutAlias t).map (Prod.map (front ++ ·) id)

theorem getLast?_leadingChars {ws : List Word} (hne : ws ≠ []) :
    (leadingChars ws).getLast? = some '\\' := by
  obtain ⟨init, w, rfl⟩ := List.eq_nil_or_concat' ws |>.resolve_left hne
  rw [leadingChars, List.flatMap_append, List.flatMap_singleton, ← List.append_assoc,
    List.getLast?_concat]

theorem leads_leadingChars (ws : List Word) : Leads (leadingChars ws) := by
  by_cases hws : ws = []
  · subst hws
    exact ⟨by simp [leadingChars], by simp [leadingChars], cutAlias_append (visible_leadingChars [])⟩
  · exact ⟨forall_mem_of_exists (exists_head?_leadingChars hws),
      forall_mem_of_exists ⟨'\\', getLast?_leadingChars hws, rfl⟩,
      cutAlias_append (visible_leadingChars ws)⟩

theorem Word.not_mem_backslash (w : Word) : '\\' ∉ w.chars := by
  intro h
  exact ne_of_inWord (w.plain _ h) (by decide) rfl

theorem not_mem_backslash_of_blank {gap : List Char} (hgap : Blank gap) : '\\' ∉ gap :=
  not_mem_of_blank hgap (by decide)

theorem not_mem_backslash_renamedChars (r : Option Renaming) : '\\' ∉ renamedChars r := by
  cases r with
  | none => simp [renamedChars]
  | some r =>
    have hkeyword : '\\' ∉ r.keyword.chars := fun h =>
      ne_of_inWord (r.keyword.plain isKeyword_as _ h) (by decide) rfl
    simp only [renamedChars, Option.map_some, Option.getD_some, Renaming.chars, List.mem_append, not_or]
    exact ⟨⟨⟨not_mem_backslash_of_blank r.before.blank, hkeyword⟩,
      not_mem_backslash_of_blank r.after.blank⟩, r.word.not_mem_backslash⟩

theorem getLast?_rootChars_append {front : List Char} (h : ∀ c ∈ front.getLast?, c = '\\')
    (rooted : Bool) : ∀ c ∈ (rootChars rooted ++ front).getLast?, c = '\\' := by
  intro c hc
  rw [List.getLast?_append] at hc
  cases hlast : front.getLast? with
  | some d =>
    rw [hlast] at hc
    cases hc
    exact h c hlast
  | none =>
    rw [hlast, Option.none_or] at hc
    cases rooted with
    | true => exact (Option.some_inj.1 hc).symm
    | false => cases hc

theorem dropWhile_rootChars_append {cs : List Char} (h : ∃ c ∈ cs.head?, inWord c = true)
    (rooted : Bool) : (rootChars rooted ++ cs).dropWhile (· = '\\') = cs := by
  obtain ⟨c, hc, hin⟩ := h
  obtain ⟨ds, rfl⟩ := List.head?_eq_some_iff.1 hc
  have hne : c ≠ '\\' := ne_of_inWord hin (by decide)
  cases rooted <;> simp [rootChars, hne]

section Leads

variable {front : List Char} (h : Leads front) (rooted : Bool) (last : Word) (r : Option Renaming)

include h

theorem Leads.exists_head? : ∃ c ∈ (front ++ last.chars).head?, inWord c = true := by
  cases front with
  | nil => exact exists_head?_of_forall last.ne_nil last.plain
  | cons c cs => exact ⟨c, rfl, h.first c rfl⟩

theorem Leads.tight : Tight (rootChars rooted ++ (front ++ last.chars)) := by
  refine ⟨?_, exists_getLast?_append (exists_getLast?_append last.tight.2 _) _⟩
  exact exists_head?_rootChars_append (exists_head?_visible (h.exists_head? last)) rooted

/-- The last segment is taken for a word that tells a kind just if white space follows it. -/
theorem Leads.importsNoClass_afterLast :
    importsNoClass (afterLast '\\' (rootChars rooted ++ (front ++ last.chars) ++ renamedChars r)) =
      (r.isSome && last.isKind) := by
  have hnot : '\\' ∉ last.chars ++ renamedChars r := by
    rw [List.mem_append, not_or]
    exact ⟨last.not_mem_backslash, not_mem_backslash_renamedChars r⟩
  rw [← List.append_assoc, List.append_assoc,
    afterLast_append (getLast?_rootChars_append h.last rooted) hnot,
    importsNoClass_word last (not_inWord_head?_renamedChars r), any_isSpace_head?_renamedChars,
    Bool.and_comm]

theorem Leads.cutAlias_eq :
    cutAlias (rootChars rooted ++ (front ++ last.chars) ++ renamedChars r) =
      r.map fun r => (rootChars rooted ++ (front ++ last.chars), r.word.chars) := by
  rw [List.append_assoc, List.append_assoc, cutAlias_append (visible_rootChars rooted), h.cut,
    cutAlias_append last.visible, cutAlias_renamedChars]
  cases r with
  | none => rfl
  | some r => simp

/-- How an entry is read, whatever stands in front of its last segment. -/
theorem parseEntry_leads :
    parseEntry (rootChars rooted ++ (front ++ last.chars) ++ renamedChars r) =
      if r.isSome && last.isKind then none
      else some (String.ofList ((r.map (·.word)).getD last).chars,
        String.ofList (front ++ last.chars)) := by
  have hne : front ++ last.chars ≠ [] := by simp [last.ne_nil]
  rw [parseEntry, h.importsNoClass_afterLast, h.cutAlias_eq]
  cases r with
  | none =>
    simp only [Option.map_none, renamedChars, Option.getD_none, List.append_nil,
      (h.tight rooted last).trim_eq, dropWhile_rootChars_append (h.exists_head? last),
      afterLast_append h.last last.not_mem_backslash, if_neg hne]
  | some r =>
    simp only [Option.map_some, (h.tight rooted last).trim_eq, r.word.tight.trim_eq,
      dropWhile_rootChars_append (h.exists_head? last), if_neg hne, Option.getD_some]

end Leads

theorem parseEntry_entry (rooted : Bool) (e : Entry) :
    parseEntry (rootChars rooted ++ e.chars) = e.reading := by
  rw [Entry.chars, Name.chars, ← List.append_assoc]
  exact parseEntry_leads (leads_leadingChars e.name.qualifier) rooted e.name.last e.renamed

/-! Groups -/

/-- What is read as the full name. A word that tells a kind is a part of it. -/
def GroupItem.target (common : Name) (i : GroupItem) : String :=
  String.ofList (common.chars ++ '\\' :: (markChars i.mark ++ i.entry.name.chars))

/-- Whether an entry of a group is read as an import of a class. One that tells its kind is not if its
name has one segment. -/
def GroupItem.isRead (i : GroupItem) : Bool :=
  !(i.mark.isSome && i.entry.name.qualifier.isEmpty) && !i.entry.isTakenForKind

def GroupItem.reading (common : Name) (i : GroupItem) : Option (String × String) :=
  if i.isRead then some (i.entry.key, i.target common) else none

theorem importsNoClass_mark (m : KindMark) (t : List Char) : importsNoClass (m.chars ++ t) = true := by
  have hread := dropKeywordSpace_spelling (isKeyword_kind m.kind) m.keyword m.gap t
  rw [KindMark.chars, List.append_assoc, importsNoClass, Bool.or_eq_true]
  obtain ⟨kind, keyword, gap⟩ := m
  cases kind with
  | function => exact .inl (Option.isSome_of_eq_some hread)
  | constant => exact .inr (Option.isSome_of_eq_some hread)

/-- A segment that a backslash follows is not taken for the word `as`. -/
theorem dropKeywordSpace_leadingChars {word : String} (hword : IsKeyword word) {ws : List Word}
    (hne : ws ≠ []) (t : List Char) : dropKeywordSpace word (leadingChars ws ++ t) = none := by
  obtain ⟨w, ws, rfl⟩ := List.exists_cons_of_ne_nil hne
  have hchars : leadingChars (w :: ws) ++ t = w.chars ++ '\\' :: (leadingChars ws ++ t) := by
    simp [leadingChars]
  rw [hchars, dropKeywordSpace_append hword w.plain (not_inWord_head?_backslash _), if_neg]
  rintro ⟨-, hspace⟩
  cases hspace

/-- A word that tells a kind, read as the start of a segment. -/
theorem leads_marked (common : Name) (m : KindMark) {ws : List Word} (hws : ws ≠ []) :
    Leads (common.chars ++ '\\' :: (m.chars ++ leadingChars ws)) where
  first := forall_mem_of_exists (exists_head?_append common.exists_head? _)
  last := by
    intro c hc
    rw [← List.cons_append, ← List.append_assoc, List.getLast?_append, getLast?_leadingChars hws] at hc
    exact (Option.some_inj.1 hc).symm
  cut := by
    intro t
    have hparts : common.chars ++ '\\' :: (m.chars ++ leadingChars ws) ++ t =
        (common.chars ++ '\\' :: m.keyword.chars) ++ (m.gap.chars ++ (leadingChars ws ++ t)) := by
      simp [KindMark.chars]
    have hvisible : ∀ c ∈ common.chars ++ '\\' :: m.keyword.chars, isSpace c = false := by
      rw [List.forall_mem_append, List.forall_mem_cons]
      exact ⟨common.visible, by decide, m.keyword.visible (isKeyword_kind m.kind)⟩
    have hstart := exists_head?_visible (exists_head?_append (exists_head?_leadingChars hws) t)
    have has := dropKeywordSpace_leadingChars isKeyword_as hws t
    rw [hparts, cutAlias_append hvisible, cutAlias_blank_append m.gap.blank hstart has,
      cutAlias_append (visible_leadingChars ws), Option.map_map, Option.map_map]
    congr 1
    funext ⟨before, after⟩
    simp [KindMark.chars]

/-- A class of a group is read like an entry with its full name. -/
theorem GroupItem.reading_class (common : Name) {i : GroupItem} (h : i.mark = none) :
    i.reading common = (i.entry.under common).reading := by
  have hread : i.isRead = !i.entry.isTakenForKind := by simp [GroupItem.isRead, h]
  have htaken : (i.entry.under common).isTakenForKind = i.entry.isTakenForKind := rfl
  have hbinding : (i.entry.key, i.target common) = (i.entry.under common).binding := by
    rw [GroupItem.target, h, Entry.binding, Entry.under, Name.chars_under]
    rfl
  rw [GroupItem.reading, hread, hbinding, Entry.reading, htaken]
  cases i.entry.isTakenForKind <;> rfl

/-- A word that tells a kind is seen in front of a single segment. -/
theorem parseEntry_marked_word (common : Name) (m : KindMark) (w : Word) (r : Option Renaming) :
    parseEntry (common.chars ++ '\\' :: (m.chars ++ (w.chars ++ renamedChars r))) = none := by
  have hnot : '\\' ∉ m.chars ++ (w.chars ++ renamedChars r) := by
    rw [KindMark.chars, List.mem_append, List.mem_append, List.mem_append, not_or, not_or, not_or]
    exact ⟨⟨fun h => ne_of_inWord (m.keyword.plain (isKeyword_kind m.kind) _ h) (by decide) rfl,
      not_mem_backslash_of_blank m.gap.blank⟩, w.not_mem_backslash, not_mem_backslash_renamedChars r⟩
  have hend : ∀ c ∈ (common.chars ++ ['\\']).getLast?, c = '\\' := by simp
  have hkind := importsNoClass_mark m (w.chars ++ renamedChars r)
  rw [← afterLast_append hend hnot, List.append_assoc, List.singleton_append] at hkind
  exact if_pos hkind

theorem parseEntry_groupItem (common : Name) (i : GroupItem) :
    parseEntry (common.chars ++ '\\' :: i.core) = i.reading common := by
  cases hmark : i.mark with
  | none =>
    have hcore : common.chars ++ '\\' :: i.core = rootChars false ++ (i.entry.under common).chars := by
      simp [GroupItem.core, hmark, markChars, rootChars, Entry.under, Entry.chars, Name.chars_under]
    rw [i.reading_class common hmark, hcore, parseEntry_entry]
  | some m =>
    obtain ⟨front, mark, ⟨⟨ws, last⟩, renamed⟩, back⟩ := i
    cases hmark
    by_cases hws : ws = []
    · subst hws
      exact parseEntry_marked_word common m last renamed
    · have hread := parseEntry_leads (leads_marked common m hws) false last renamed
      have hcore : common.chars ++ '\\' :: GroupItem.core ⟨front, some m, ⟨⟨ws, last⟩, renamed⟩, back⟩ =
          rootChars false ++ (common.chars ++ '\\' :: (m.chars ++ leadingChars ws) ++ last.chars) ++
            renamedChars renamed := by
        simp [GroupItem.core, markChars, rootChars, Entry.chars, Name.chars]
      rw [hcore, hread, GroupItem.reading]
      cases hkind : renamed.isSome && last.isKind <;>
        simp [GroupItem.isRead, GroupItem.target, Entry.isTakenForKind, Entry.key, Entry.shortName,
          Name.chars, markChars, hws, hkind]

end ContractCheck.Imports
