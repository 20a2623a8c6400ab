import ContractCheck.Proofs.Imports.Reading
import ContractCheck.Proofs.Lists

/-!
Groups that also import functions and constants. Such an entry should add nothing to the imports of
classes, and adds nothing if its name has one segment. With more segments it is entered, and a class that
follows under the same short name alone replaces it.
-/
namespace ContractCheck.Imports

open Text

def GroupDeclaration.classesOnly (g : GroupDeclaration) : GroupDeclaration :=
  { g with items := g.items.filter (·.mark.isNone) }

def GroupItem.isReadAs (k : String) (i : GroupItem) : Bool :=
  i.isRead && i.entry.key = k

theorem GroupItem.isReadAs_iff (k : String) (i : GroupItem) :
    i.isReadAs k = true ↔ i.isRead = true ∧ i.entry.key = k := by
  rw [GroupItem.isReadAs, Bool.and_eq_true, decide_eq_true_eq]

theorem find?_reading (items : List GroupItem) (common : Name) (k : String) :
    (ofBindings (items.filterMap (·.reading common))).find? k =
      (items.reverse.find? (·.isReadAs k)).map (·.target common) := by
  have hread : (fun i : GroupItem => (i.reading common).any (·.1 = k)) = fun i => i.isReadAs k := by
    funext i
    rw [GroupItem.reading, GroupItem.isReadAs]
    cases i.isRead <;> rfl
  rw [find?_ofBindings, ← List.filterMap_reverse, List.find?_filterMap, hread]
  cases hfind : items.reverse.find? (·.isReadAs k) with
  | none => rfl
  | some i =>
    have hi := (i.isReadAs_iff k).1 (List.find?_some hfind)
    rw [Option.bind_some, GroupItem.reading, if_pos hi.1]
    rfl

/-- A word that tells a kind is followed by white space, which stands in no full name of a class. -/
theorem target_ne_target (common : Name) {i j : GroupItem} (hi : i.mark.isNone = false)
    (hj : j.mark.isNone = true) : i.target common ≠ j.target common := by
  intro heq
  have hchars := String.ofList_injective heq
  cases hm : i.mark with
  | none => simp [hm] at hi
  | some m =>
    obtain ⟨c, hc, hspace⟩ := m.gap.exists_head?
    have hmem : c ∈ common.chars ++ '\\' :: (markChars i.mark ++ i.entry.name.chars) := by
      simp [hm, markChars, KindMark.chars, List.mem_of_mem_head? hc]
    have hvisible : ∀ d ∈ common.chars ++ '\\' :: (markChars j.mark ++ j.entry.name.chars),
        isSpace d = false := by
      rw [Option.isNone_iff_eq_none.1 hj, List.forall_mem_append, List.forall_mem_cons]
      exact ⟨common.visible, by decide, j.entry.name.visible⟩
    rw [hvisible c (hchars ▸ hmem)] at hspace
    cases hspace

def GroupItem.IsReplacedIn (i : GroupItem) (items : List GroupItem) : Prop :=
  ∃ j ∈ items, j.mark = none ∧ j.isRead = true ∧ j.entry.key = i.entry.key

/-- For each short name, the last entry that is read is a class just if each other one is replaced. -/
theorem last_isNone_iff (items : List GroupItem) :
    (∀ k i, items.reverse.find? (·.isReadAs k) = some i → i.mark.isNone = true) ↔
      ∀ before i after, items = before ++ i :: after → i.mark.isSome = true → i.isRead = true →
        i.IsReplacedIn after := by
  constructor
  · rintro h before i after rfl hmark hread
    have hself := (i.isReadAs_iff i.entry.key).2 ⟨hread, rfl⟩
    have hsplit : (before ++ i :: after).reverse = after.reverse ++ i :: before.reverse := by simp
    cases hfind : after.reverse.find? (·.isReadAs i.entry.key) with
    | none =>
      have hi := h i.entry.key i (by rw [hsplit, List.find?_append, hfind, List.find?_cons_of_pos hself]; rfl)
      rw [← Option.not_isSome, hmark] at hi
      cases hi
    | some j =>
      have hj := h i.entry.key j (by rw [hsplit, List.find?_append, hfind]; rfl)
      have hread := (j.isReadAs_iff i.entry.key).1 (List.find?_some hfind)
      exact ⟨j, List.mem_reverse.1 (List.mem_of_find?_eq_some hfind), Option.isNone_iff_eq_none.1 hj,
        hread⟩
  · intro h k i hfind
    obtain ⟨hi, as, bs, hsplit, has⟩ := List.find?_eq_some_iff_append.1 hfind
    obtain ⟨hread, rfl⟩ := (i.isReadAs_iff k).1 hi
    by_contra hmark
    have hitems : items = bs.reverse ++ i :: as.reverse := by
      rw [← List.reverse_reverse items, hsplit]
      simp
    have hsome : i.mark.isSome = true := by
      cases hm : i.mark with
      | none => simp [hm] at hmark
      | some m => rfl
    obtain ⟨j, hj, -, hlater⟩ := h _ i _ hitems hsome hread
    have hnot := has j (List.mem_reverse.1 hj)
    rw [(j.isReadAs_iff i.entry.key).2 hlater] at hnot
    cases hnot

theorem GroupDeclaration.filterMap_reading_classesOnly {g : GroupDeclaration}
    (h : ∀ i ∈ g.items, i.mark.isSome = true → i.isRead = false) :
    g.classesOnly.items.filterMap (·.reading g.common) = g.items.filterMap (·.reading g.common) := by
  rw [GroupDeclaration.classesOnly, List.filterMap_filter]
  refine List.filterMap_congr fun i hi => ?_
  cases hmark : i.mark with
  | none => rfl
  | some m =>
    rw [GroupItem.reading, h i hi (by simp [hmark])]
    rfl

/-- Functions and constants of a group and the imports of classes. The imports are those of the group
without them just if each one that is read is replaced by a class that follows. That is so in
particular, also for the order of the imports, if each has a name of one segment. -/
theorem parse_group_kinds (g : GroupDeclaration) :
    parse g.text = ofBindings (g.items.filterMap (·.reading g.common)) ∧
      ((∀ k, (parse g.text).find? k = (parse g.classesOnly.text).find? k) ↔
        ∀ before i after, g.items = before ++ i :: after → i.mark.isSome = true → i.isRead = true →
          i.IsReplacedIn after) ∧
      ((∀ i ∈ g.items, i.mark.isSome = true →
          i.entry.name.qualifier = [] ∨ i.entry.isTakenForKind = true) →
        parse g.text = parse g.classesOnly.text) := by
  have hclasses : parse g.classesOnly.text =
      ofBindings (g.classesOnly.items.filterMap (·.reading g.common)) := g.classesOnly.parse_text
  refine ⟨g.parse_text, ?_, fun h => ?_⟩
  · rw [← last_isNone_iff]
    refine forall_congr' fun k => ?_
    rw [g.parse_text, hclasses, find?_reading, find?_reading, GroupDeclaration.classesOnly,
      ← List.filter_reverse]
    exact map_find?_eq_iff (fun i j => target_ne_target g.common) g.items.reverse
  · rw [g.parse_text, hclasses, g.filterMap_reading_classesOnly]
    intro i hi hmark
    rcases h i hi hmark with hone | htaken
    · simp [GroupItem.isRead, hmark, hone]
    · simp [GroupItem.isRead, htaken]

def groupOf (items : List GroupItem) (closing : Option Gap) : GroupDeclaration where
  keyword := useWord
  gap := blank
  rooted := false
  common := ⟨[], Word.ofString "P"⟩
  beforeBrace := noGap
  items := items
  closing := closing
  afterBrace := noGap

def functionMark : KindMark :=
  ⟨.function, ⟨"function".toList, by decide⟩, blank⟩

def toolGroup : GroupDeclaration :=
  groupOf [⟨noGap, some functionMark, ⟨⟨[], Word.ofString "run"⟩, none⟩, noGap⟩,
    ⟨blank.toGap, none, ⟨⟨[], Word.ofString "Tool"⟩, none⟩, noGap⟩] (some noGap)

theorem parse_group_kinds_toolGroup :
    toolGroup.text = "use P\\\x7bfunction run, Tool,\x7d;" ∧
      (∀ i ∈ toolGroup.items, i.mark.isSome = true →
        i.entry.name.qualifier = [] ∨ i.entry.isTakenForKind = true) ∧
      parse toolGroup.text = parse toolGroup.classesOnly.text ∧
      (parse toolGroup.text).entries = [("Tool", "P\\Tool")] := by
  have hone : ∀ i ∈ toolGroup.items, i.mark.isSome = true →
      i.entry.name.qualifier = [] ∨ i.entry.isTakenForKind = true := by
    rw [toolGroup, groupOf, List.forall_mem_cons, List.forall_mem_singleton]
    exact ⟨fun _ => .inl rfl, fun _ => .inl rfl⟩
  obtain ⟨hparse, -, hsame⟩ := parse_group_kinds toolGroup
  refine ⟨by decide, hone, hsame hone, ?_⟩
  rw [hparse]
  decide

def nestedFunctionGroup : GroupDeclaration :=
  groupOf [⟨noGap, some functionMark, ⟨⟨[Word.ofString "Sub"], Word.ofString "f"⟩, none⟩, noGap⟩] none

/-- A function is entered among the imports of classes. -/
theorem nested_function_read :
    nestedFunctionGroup.text = "use P\\\x7bfunction Sub\\f\x7d;" ∧
      nestedFunctionGroup.classesOnly.text = "use P\\\x7b\x7d;" ∧
      (parse nestedFunctionGroup.text).entries = [("f", "P\\function Sub\\f")] ∧
      (parse nestedFunctionGroup.classesOnly.text).entries = [] := by
  refine ⟨by decide, by decide, ?_, ?_⟩
  · rw [nestedFunctionGroup.parse_text]
    decide
  · rw [nestedFunctionGroup.classesOnly.parse_text]
    decide

end ContractCheck.Imports
