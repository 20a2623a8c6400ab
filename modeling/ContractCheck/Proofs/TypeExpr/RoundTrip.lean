import ContractCheck.TypeExpr.Printer
import ContractCheck.Proofs.Text.Cutting
import ContractCheck.Proofs.TypeExpr.Nesting

/-!
Types and the texts that stand for them. A text may have white space around every name and operator,
and parentheses around each part that is a type by itself. Main statement: what is read from any
text of a type is the type, in particular from its printed form.
-/
namespace ContractCheck.TypeExpr

open Text

def keywords : List String :=
  ["self", "static", "parent", "void", "mixed"]

def isNameChar (c : Char) : Bool :=
  !isSpace c && !(['(', ')', '|', '&', '?'].contains c)

structure PlainName (name : String) : Prop where
  nonempty : name ≠ ""
  chars : name.toList.all isNameChar = true
  notKeyword : lower name ∉ keywords
  scalar : isScalarName (lower name) = true → lower name = name

inductive Atom : TypeExpr → Prop
  | self : Atom .self
  | static : Atom .static
  | parent : Atom .parent
  | void : Atom .void
  | mixed : Atom .mixed
  | named {name : String} (h : PlainName name) : Atom (.named name)

inductive Member : TypeExpr → Prop
  | atom {t : TypeExpr} (h : Atom t) : Member t
  | intersection {ts : List TypeExpr} (hn : 2 ≤ ts.length) (h : ∀ t ∈ ts, Atom t) :
      Member (.intersection ts)

inductive Writable : TypeExpr → Prop
  | member {t : TypeExpr} (h : Member t) : Writable t
  | union {ts : List TypeExpr} (hn : 2 ≤ ts.length) (h : ∀ t ∈ ts, Member t) : Writable (.union ts)
  | nullable {t : TypeExpr} (h : Writable t) : Writable (.nullable t)

/-- The texts of a type: its words and operators with any white space around them, where each part
may stand in parentheses, as often as one likes. -/
inductive Writes : TypeExpr → List Char → Prop
  | atom {t : TypeExpr} (h : Atom t) : Writes t (render t).toList
  | spaced {t : TypeExpr} {front cs back : List Char} (hf : Blank front) (hb : Blank back)
      (h : Writes t cs) : Writes t (front ++ cs ++ back)
  | wrapped {t : TypeExpr} {cs : List Char} (h : Writes t cs) : Writes t ('(' :: (cs ++ [')']))
  | nullable {t : TypeExpr} {cs : List Char} (h : Writes t cs) : Writes (.nullable t) ('?' :: cs)
  | intersection {parts : List (TypeExpr × List Char)} (hn : 2 ≤ parts.length)
      (ha : ∀ p ∈ parts, Atom p.1) (h : ∀ p ∈ parts, Writes p.1 p.2) :
      Writes (.intersection (parts.map (·.1))) (['&'].intercalate (parts.map (·.2)))
  | union {parts : List (TypeExpr × List Char)} (hn : 2 ≤ parts.length)
      (hm : ∀ p ∈ parts, Member p.1) (h : ∀ p ∈ parts, Writes p.1 p.2) :
      Writes (.union (parts.map (·.1))) (['|'].intercalate (parts.map (·.2)))

/-! The characters of a text. -/

theorem not_mem_of_isNameChar {cs : List Char} (h : cs.all isNameChar = true) {c : Char}
    (hc : isNameChar c = false) : c ∉ cs := by
  intro hin
  rw [List.all_eq_true.1 h c hin] at hc
  cases hc

theorem visible_of_isNameChar {c : Char} (h : isNameChar c = true) : isSpace c = false := by
  simp only [isNameChar, Bool.and_eq_true, Bool.not_eq_true'] at h
  exact h.1

theorem Atom.chars {t : TypeExpr} (h : Atom t) : (render t).toList.all isNameChar = true := by
  cases h with
  | named h => simpa [render] using h.chars
  | self => decide +kernel
  | static => decide +kernel
  | parent => decide +kernel
  | void => decide +kernel
  | mixed => decide +kernel

theorem Atom.nonempty {t : TypeExpr} (h : Atom t) : (render t).toList ≠ [] := by
  cases h with
  | named h => simpa [render] using h.nonempty
  | self => simp [render]
  | static => simp [render]
  | parent => simp [render]
  | void => simp [render]
  | mixed => simp [render]

/-- Where a character that is neither white space nor a parenthesis comes from. -/
theorem Writes.not_mem_of_atom {t : TypeExpr} {cs : List Char} (h : Writes t cs) (ht : Atom t)
    {c : Char} (hc : isNameChar c = false) (hv : isSpace c = false) (hopen : c ≠ '(')
    (hclose : c ≠ ')') : c ∉ cs := by
  induction h with
  | atom ha => exact not_mem_of_isNameChar ha.chars hc
  | spaced hf hb h ih =>
    rw [List.mem_append, List.mem_append, not_or, not_or]
    refine ⟨⟨fun hin => ?_, ih ht⟩, fun hin => ?_⟩
    · rw [hf c hin] at hv
      cases hv
    · rw [hb c hin] at hv
      cases hv
  | wrapped h ih =>
    rw [List.mem_cons, List.mem_append, List.mem_singleton, not_or, not_or]
    exact ⟨hopen, ih ht, hclose⟩
  | nullable => cases ht
  | intersection => cases ht
  | union => cases ht

theorem Writes.bar_not_mem {t : TypeExpr} {cs : List Char} (h : Writes t cs) (ht : Member t) :
    '|' ∉ cs := by
  induction h with
  | atom ha => exact not_mem_of_isNameChar ha.chars (by decide)
  | spaced hf hb h ih =>
    rw [List.mem_append, List.mem_append, not_or, not_or]
    exact ⟨⟨fun hin => absurd (hf _ hin) (by decide), ih ht⟩, fun hin => absurd (hb _ hin) (by decide)⟩
  | wrapped h ih =>
    rw [List.mem_cons, List.mem_append, List.mem_singleton, not_or, not_or]
    exact ⟨by decide, ih ht, by decide⟩
  | nullable =>
    cases ht with
    | atom ha => cases ha
  | intersection hn ha h ih =>
    intro hin
    cases mem_intercalate hin with
    | inl heq => exact absurd heq (by decide)
    | inr hin =>
      obtain ⟨text, htext, hin⟩ := hin
      obtain ⟨p, hp, rfl⟩ := List.mem_map.1 htext
      exact ih p hp (.atom (ha p hp)) hin
  | union =>
    cases ht with
    | atom ha => cases ha

theorem Writes.balanced {t : TypeExpr} {cs : List Char} (h : Writes t cs) : Balanced cs := by
  have hparts : ∀ {sep : Char} {parts : List (TypeExpr × List Char)}, Balanced [sep] →
      (∀ p ∈ parts, Balanced p.2) → Balanced ([sep].intercalate (parts.map (·.2))) := by
    intro sep parts hsep hp
    apply Balanced.intercalate hsep
    intro text htext
    obtain ⟨p, hin, rfl⟩ := List.mem_map.1 htext
    exact hp p hin
  induction h with
  | atom ha =>
    apply balanced_of_plain
    intro c hc
    have hname := List.all_eq_true.1 ha.chars c hc
    constructor
    · intro heq
      rw [heq] at hname
      exact absurd hname (by decide)
    · intro heq
      rw [heq] at hname
      exact absurd hname (by decide)
  | spaced hf hb h ih => exact ((balanced_of_blank hf).append ih).append (balanced_of_blank hb)
  | wrapped h ih => exact ih.wrapped
  | nullable h ih =>
    have hmark : Balanced ['?'] := rfl
    exact hmark.append ih
  | intersection hn ha h ih => exact hparts rfl ih
  | union hn hm h ih => exact hparts rfl ih

theorem not_blank_append {as bs : List Char} (h : ¬ Blank as) : ¬ Blank (as ++ bs) :=
  fun hb => h fun c hc => hb c (List.mem_append_left bs hc)

theorem not_blank_intercalate {sep : Char} {texts : List (List Char)} (hne : texts ≠ [])
    (h : ∀ t ∈ texts, ¬ Blank t) : ¬ Blank ([sep].intercalate texts) := by
  cases texts with
  | nil => exact absurd rfl hne
  | cons t texts =>
    have ht := h t List.mem_cons_self
    cases texts with
    | nil => rwa [List.intercalate_singleton]
    | cons u texts =>
      rw [List.intercalate_cons_cons, List.append_assoc]
      exact not_blank_append ht

theorem ne_nil_of_two_le {α β : Type} {l : List α} (h : 2 ≤ l.length) (f : α → β) : l.map f ≠ [] := by
  intro hnil
  rw [List.map_eq_nil_iff.1 hnil] at h
  simp at h

theorem Writes.not_blank {t : TypeExpr} {cs : List Char} (h : Writes t cs) : ¬ Blank cs := by
  induction h with
  | atom ha =>
    intro hblank
    obtain ⟨c, ds, hds⟩ := List.exists_cons_of_ne_nil ha.nonempty
    have hc : c ∈ (render _).toList := hds ▸ List.mem_cons_self
    have hvisible := visible_of_isNameChar (List.all_eq_true.1 ha.chars c hc)
    rw [hblank c hc] at hvisible
    cases hvisible
  | spaced hf hb h ih =>
    intro hblank
    exact ih fun c hc => hblank c (List.mem_append_left _ (List.mem_append_right _ hc))
  | wrapped => exact fun hblank => absurd (hblank '(' List.mem_cons_self) (by decide)
  | nullable => exact fun hblank => absurd (hblank '?' List.mem_cons_self) (by decide)
  | intersection hn ha h ih =>
    apply not_blank_intercalate (ne_nil_of_two_le hn _)
    intro text htext
    obtain ⟨p, hp, rfl⟩ := List.mem_map.1 htext
    exact ih p hp
  | union hn hm h ih =>
    apply not_blank_intercalate (ne_nil_of_two_le hn _)
    intro text htext
    obtain ⟨p, hp, rfl⟩ := List.mem_map.1 htext
    exact ih p hp

theorem head?_collapse_append {as : List Char} (h : ¬ Blank as) (bs : List Char) :
    (collapse (as ++ bs)).head? = (collapse as).head? := by
  induction as with
  | nil => exact absurd blank_nil h
  | cons a as ih =>
    rw [List.cons_append]
    cases ha : isSpace a with
    | true =>
      rw [collapse_space ha, collapse_space ha]
      exact ih fun hb => h ((blank_cons_iff a as).2 ⟨ha, hb⟩)
    | false => rw [collapse_visible ha, collapse_visible ha, List.head?_cons, List.head?_cons]

theorem head?_collapse_intercalate {sep : Char} {t : List Char} (h : ¬ Blank t)
    (texts : List (List Char)) :
    (collapse ([sep].intercalate (t :: texts))).head? = (collapse t).head? := by
  cases texts with
  | nil => rw [List.intercalate_singleton]
  | cons u texts => rw [List.intercalate_cons_cons, List.append_assoc, head?_collapse_append h]

/-- Only a nullable type begins with the question mark. -/
theorem Writes.head?_ne {t : TypeExpr} {cs : List Char} (h : Writes t cs) (ht : Member t) :
    (collapse cs).head? ≠ some '?' := by
  induction h with
  | atom ha =>
    rw [collapse_self fun c hc => visible_of_isNameChar (List.all_eq_true.1 ha.chars c hc)]
    intro hhead
    exact not_mem_of_isNameChar ha.chars (by decide) (List.mem_of_mem_head? hhead)
  | spaced hf hb h ih =>
    rw [collapse_spaced hf hb]
    exact ih ht
  | wrapped h ih =>
    rw [collapse_visible (by decide), List.head?_cons]
    decide
  | nullable =>
    cases ht with
    | atom ha => cases ha
  | @intersection parts hn ha h ih =>
    cases parts with
    | nil => simp at hn
    | cons p parts =>
      rw [List.map_cons, head?_collapse_intercalate (h p List.mem_cons_self).not_blank]
      exact ih p List.mem_cons_self (.atom (ha p List.mem_cons_self))
  | union =>
    cases ht with
    | atom ha => cases ha

/-! What is read. -/

def readText (text : List Char) : TypeExpr :=
  if text.head? = some '?' then
    if parseChars text.tail = .absent then .absent else .nullable (parseChars text.tail)
  else if 1 < (topPieces '|' 0 text).length then .union ((memberTexts '|' text).map parseChars)
  else if 1 < (topPieces '&' 0 text).length then
    .intersection ((memberTexts '&' text).map parseChars)
  else ofWord (String.ofList text)

theorem readText_of_head {text : List Char} (h : text.head? ≠ some '?') : readText text =
    if 1 < (topPieces '|' 0 text).length then .union ((memberTexts '|' text).map parseChars)
    else if 1 < (topPieces '&' 0 text).length then
      .intersection ((memberTexts '&' text).map parseChars)
    else ofWord (String.ofList text) := by
  rw [readText, if_neg h]

theorem readText_question (rest : List Char) : readText ('?' :: rest) =
    if parseChars rest = .absent then .absent else .nullable (parseChars rest) := by
  rw [readText, List.head?_cons, if_pos rfl, List.tail_cons]

theorem parseChars_eq (cs : List Char) : parseChars cs =
    if collapse cs = [] then .absent else readText (dropOuterParens (collapse cs)) := by
  rw [parseChars]
  split
  · rfl
  · split
    · rename_i rest htext
      rw [htext, readText_question]
      cases parseChars rest <;> simp
    · rename_i hmark
      rw [readText_of_head]
      · simp
      · intro hhead
        obtain ⟨rest, hrest⟩ := List.head?_eq_some_iff.1 hhead
        exact hmark rest hrest

theorem parseChars_of_not_blank {cs : List Char} (h : ¬ Blank cs) :
    parseChars cs = readText (dropOuterParens (collapse cs)) := by
  rw [parseChars_eq, if_neg (mt (collapse_eq_nil_iff cs).1 h)]

theorem parseChars_congr {as bs : List Char} (h : collapse as = collapse bs) :
    parseChars as = parseChars bs := by
  rw [parseChars_eq, parseChars_eq, h]

theorem parseChars_wrapped {cs : List Char} (hb : Balanced cs) (hv : ¬ Blank cs) :
    parseChars ('(' :: (cs ++ [')'])) = parseChars cs := by
  obtain ⟨gap, hgap, hcut⟩ := collapseFrom_append_visible (c := ')') (by decide) true false cs []
  have hcollapse : collapse ('(' :: (cs ++ [')'])) =
      '(' :: (collapseFrom true false cs ++ gap ++ [')']) := by
    rw [collapse_visible (by decide), hcut]
    rfl
  have hinner : Balanced (collapseFrom true false cs ++ gap) :=
    (hb.collapseFrom true false).append (balanced_of_blank hgap)
  rw [parseChars_of_not_blank hv, parseChars_eq, if_neg (by simp [hcollapse]), hcollapse,
    dropOuterParens_wrapped hinner, trim_collapseFrom_append hgap]

theorem parseChars_marked {cs : List Char} (h : parseChars cs ≠ .absent) :
    parseChars ('?' :: cs) = .nullable (parseChars cs) := by
  have hinner : parseChars (collapseFrom true false cs) = parseChars cs :=
    parseChars_congr (collapse_collapseFrom true false cs)
  rw [parseChars_eq, collapse_visible (by decide), if_neg (by simp), dropOuterParens_of_head (by simp),
    readText_question, hinner, if_neg h]

theorem parseChars_word {cs : List Char} (h : cs.all isNameChar = true) (hne : cs ≠ []) :
    parseChars cs = ofWord (String.ofList cs) := by
  have hcollapse : collapse cs = cs :=
    collapse_self fun c hc => visible_of_isNameChar (List.all_eq_true.1 h c hc)
  have hhead : ∀ {c : Char}, isNameChar c = false → cs.head? ≠ some c :=
    fun hc hhead => not_mem_of_isNameChar h hc (List.mem_of_mem_head? hhead)
  rw [parseChars_eq, hcollapse, if_neg hne, dropOuterParens_of_head (hhead (by decide)),
    readText_of_head (hhead (by decide)), topPieces_of_not_mem (not_mem_of_isNameChar h (by decide)),
    topPieces_of_not_mem (not_mem_of_isNameChar h (by decide))]
  simp

theorem ofWord_of_plainName {name : String} (h : PlainName name) : ofWord name = .named name := by
  have hkeyword : ∀ k ∈ keywords, lower name ≠ k := fun k hk heq => h.notKeyword (heq ▸ hk)
  rw [ofWord]
  split
  · exact absurd ‹_› (hkeyword "self" (by simp [keywords]))
  · exact absurd ‹_› (hkeyword "static" (by simp [keywords]))
  · exact absurd ‹_› (hkeyword "parent" (by simp [keywords]))
  · exact absurd ‹_› (hkeyword "void" (by simp [keywords]))
  · exact absurd ‹_› (hkeyword "mixed" (by simp [keywords]))
  · split
    · rw [h.scalar ‹_›]
    · rfl

theorem ofWord_render {t : TypeExpr} (h : Atom t) : ofWord (render t) = t := by
  cases h with
  | named h => simpa [render] using ofWord_of_plainName h
  | self => decide +kernel
  | static => decide +kernel
  | parent => decide +kernel
  | void => decide +kernel
  | mixed => decide +kernel

section

variable {sep : Char} {texts : List (List Char)}

/-- Joined texts are not enclosed by parentheses, as the first of them closes all of its own. -/
theorem dropOuterParens_collapse_intercalate (hvisible : isSpace sep = false) (hn : 2 ≤ texts.length)
    (h : ∀ t ∈ texts, Balanced t ∧ ¬ Blank t) :
    dropOuterParens (collapse ([sep].intercalate texts)) = collapse ([sep].intercalate texts) := by
  match texts with
  | [] => simp at hn
  | [_] => simp at hn
  | t :: u :: texts =>
    obtain ⟨hbalanced, hblank⟩ := h t List.mem_cons_self
    obtain ⟨gap, hgap, hcut⟩ := collapseFrom_append_visible hvisible false false t
      ([sep].intercalate (u :: texts))
    have hne : collapse t ≠ [] := mt (collapse_eq_nil_iff t).1 hblank
    apply dropOuterParens_of_closesEarly
    rw [List.intercalate_cons_cons, List.append_assoc, List.singleton_append, collapse, hcut,
      List.append_assoc]
    exact closesEarly_of_prefix (by simp) hne (hbalanced.collapseFrom false false)

theorem length_topPieces_collapse (hsep : Balanced [sep]) (hvisible : isSpace sep = false)
    (hne : texts ≠ []) (h : ∀ t ∈ texts, Balanced t ∧ sep ∉ t) :
    (topPieces sep 0 (collapse ([sep].intercalate texts))).length = texts.length := by
  have hpieces := congrArg List.length
    (topPieces_collapse_intercalate hsep hvisible hne h false false)
  simpa [collapse] using hpieces

/-- The members of joined texts are read like the texts themselves. -/
theorem map_parseChars_memberTexts (hsep : Balanced [sep]) (hvisible : isSpace sep = false)
    (hne : texts ≠ []) (h : ∀ t ∈ texts, Balanced t ∧ sep ∉ t) (hb : ∀ t ∈ texts, ¬ Blank t) :
    (memberTexts sep (collapse ([sep].intercalate texts))).map parseChars = texts.map parseChars := by
  have hpieces := topPieces_collapse_intercalate hsep hvisible hne h false false
  have hkept : ((topPieces sep 0 (collapse ([sep].intercalate texts))).map trim).filter (· ≠ []) =
      (topPieces sep 0 (collapse ([sep].intercalate texts))).map trim := by
    rw [List.filter_eq_self]
    intro member hmember
    obtain ⟨piece, hpiece, rfl⟩ := List.mem_map.1 hmember
    have hin : collapse piece ∈ texts.map collapse := hpieces ▸ List.mem_map_of_mem hpiece
    obtain ⟨t, ht, heq⟩ := List.mem_map.1 hin
    have hsome : collapse (trim piece) ≠ [] := by
      rw [collapse_trim, ← heq]
      exact mt (collapse_eq_nil_iff t).1 (hb t ht)
    have htrim : trim piece ≠ [] := by
      intro hnil
      rw [hnil] at hsome
      exact hsome rfl
    simpa using htrim
  -- reading depends on the collapsed text only
  have hread : ∀ l : List (List Char), l.map parseChars =
      (l.map collapse).map fun cs => if cs = [] then .absent else readText (dropOuterParens cs) := by
    intro l
    rw [List.map_map]
    exact List.map_congr_left fun cs _ => parseChars_eq cs
  rw [memberTexts, hkept, List.map_map, hread texts, ← hpieces, ← collapse, ← hread]
  exact List.map_congr_left fun piece _ => parseChars_congr (collapse_trim piece)

end

theorem parseChars_union {texts : List (List Char)} (hn : 2 ≤ texts.length)
    (h : ∀ t ∈ texts, Balanced t ∧ '|' ∉ t) (hb : ∀ t ∈ texts, ¬ Blank t)
    (hhead : (collapse (['|'].intercalate texts)).head? ≠ some '?') :
    parseChars (['|'].intercalate texts) = .union (texts.map parseChars) := by
  have hsep : Balanced ['|'] := rfl
  have hne : texts ≠ [] := List.ne_nil_of_length_pos (by omega)
  have hlength := length_topPieces_collapse hsep (by decide) hne h
  rw [parseChars_of_not_blank (not_blank_intercalate hne hb),
    dropOuterParens_collapse_intercalate (by decide) hn fun t ht => ⟨(h t ht).1, hb t ht⟩,
    readText_of_head hhead, if_pos (by omega), map_parseChars_memberTexts hsep (by decide) hne h hb]

theorem parseChars_intersection {texts : List (List Char)} (hn : 2 ≤ texts.length)
    (h : ∀ t ∈ texts, Balanced t ∧ '&' ∉ t) (hb : ∀ t ∈ texts, ¬ Blank t)
    (hhead : (collapse (['&'].intercalate texts)).head? ≠ some '?')
    (hbar : '|' ∉ ['&'].intercalate texts) :
    parseChars (['&'].intercalate texts) = .intersection (texts.map parseChars) := by
  have hsep : Balanced ['&'] := rfl
  have hne : texts ≠ [] := List.ne_nil_of_length_pos (by omega)
  have hlength := length_topPieces_collapse hsep (by decide) hne h
  have hwhole : '|' ∉ collapse (['&'].intercalate texts) := by
    intro hin
    cases mem_of_mem_collapseFrom hin with
    | inl heq => exact absurd heq (by decide)
    | inr hin => exact hbar hin
  rw [parseChars_of_not_blank (not_blank_intercalate hne hb),
    dropOuterParens_collapse_intercalate (by decide) hn fun t ht => ⟨(h t ht).1, hb t ht⟩,
    readText_of_head hhead, topPieces_of_not_mem hwhole, if_neg (by simp), if_pos (by omega),
    map_parseChars_memberTexts hsep (by decide) hne h hb]

theorem Writes.ne_absent {t : TypeExpr} {cs : List Char} (h : Writes t cs) : t ≠ .absent := by
  induction h with
  | atom ha => cases ha <;> simp
  | spaced _ _ _ ih => exact ih
  | wrapped _ ih => exact ih
  | nullable => simp
  | intersection => simp
  | union => simp

theorem map_parts {parts : List (TypeExpr × List Char)} (h : ∀ p ∈ parts, parseChars p.2 = p.1) :
    (parts.map (·.2)).map parseChars = parts.map (·.1) := by
  rw [List.map_map]
  exact List.map_congr_left h

/-- What is read from a text of a type is the type. -/
theorem Writes.parseChars_eq {t : TypeExpr} {cs : List Char} (h : Writes t cs) :
    parseChars cs = t := by
  induction h with
  | atom ha => rw [parseChars_word ha.chars ha.nonempty, String.ofList_toList, ofWord_render ha]
  | spaced hf hb h ih => rw [parseChars_congr (collapse_spaced hf hb _), ih]
  | wrapped h ih => rw [parseChars_wrapped h.balanced h.not_blank, ih]
  | nullable h ih => rw [parseChars_marked (ih ▸ h.ne_absent), ih]
  | @intersection parts hn ha h ih =>
    have hwhole := Writes.intersection hn ha h
    have hmember : Member (.intersection (parts.map (·.1))) := by
      refine .intersection (by simpa using hn) ?_
      intro t ht
      obtain ⟨p, hp, rfl⟩ := List.mem_map.1 ht
      exact ha p hp
    have htexts : ∀ text ∈ parts.map (·.2), (Balanced text ∧ '&' ∉ text) ∧ ¬ Blank text := by
      intro text htext
      obtain ⟨p, hp, rfl⟩ := List.mem_map.1 htext
      have hamp := (h p hp).not_mem_of_atom (ha p hp) (c := '&') (by decide) (by decide)
        (by decide) (by decide)
      exact ⟨⟨(h p hp).balanced, hamp⟩, (h p hp).not_blank⟩
    rw [parseChars_intersection (by simpa using hn) (fun text ht => (htexts text ht).1)
      (fun text ht => (htexts text ht).2) (hwhole.head?_ne hmember) (hwhole.bar_not_mem hmember),
      map_parts ih]
  | @union parts hn hm h ih =>
    have htexts : ∀ text ∈ parts.map (·.2), (Balanced text ∧ '|' ∉ text) ∧ ¬ Blank text := by
      intro text htext
      obtain ⟨p, hp, rfl⟩ := List.mem_map.1 htext
      exact ⟨⟨(h p hp).balanced, (h p hp).bar_not_mem (hm p hp)⟩, (h p hp).not_blank⟩
    have hhead : (collapse (['|'].intercalate (parts.map (·.2)))).head? ≠ some '?' := by
      cases parts with
      | nil => simp at hn
      | cons p parts =>
        rw [List.map_cons, head?_collapse_intercalate (h p List.mem_cons_self).not_blank]
        exact (h p List.mem_cons_self).head?_ne (hm p List.mem_cons_self)
    rw [parseChars_union (by simpa using hn) (fun text ht => (htexts text ht).1)
      (fun text ht => (htexts text ht).2) hhead, map_parts ih]

/-! What is printed. -/

def grouped : TypeExpr → String
  | .intersection members => "(" ++ render (.intersection members) ++ ")"
  | t => render t

theorem renderEach_eq_map (ts : List TypeExpr) : renderEach ts = ts.map render := by
  induction ts with
  | nil => rw [renderEach, List.map_nil]
  | cons t ts ih => rw [renderEach, ih, List.map_cons]

theorem renderGrouped_eq_map (ts : List TypeExpr) : renderGrouped ts = ts.map grouped := by
  induction ts with
  | nil => rw [renderGrouped, List.map_nil]
  | cons t ts ih =>
    rw [List.map_cons, ← ih]
    cases t <;> simp [renderGrouped, grouped, render]

theorem toList_joinWith (sep : String) (ss : List String) :
    (joinWith sep ss).toList = sep.toList.intercalate (ss.map String.toList) := by
  induction ss with
  | nil => simp [joinWith]
  | cons s ss ih =>
    cases ss with
    | nil => simp [joinWith]
    | cons u ss => simp only [joinWith, String.toList_append, ih, List.map_cons,
        List.intercalate_cons_cons]

theorem Atom.writes_render {ts : List TypeExpr} (hn : 2 ≤ ts.length) (h : ∀ t ∈ ts, Atom t) :
    Writes (.intersection ts) (render (.intersection ts)).toList := by
  have hparts : Writes (.intersection ((ts.map fun t => (t, (render t).toList)).map (·.1)))
      (['&'].intercalate ((ts.map fun t => (t, (render t).toList)).map (·.2))) := by
    refine .intersection (by simpa using hn) ?_ ?_
    · intro p hp
      obtain ⟨t, ht, rfl⟩ := List.mem_map.1 hp
      exact h t ht
    · intro p hp
      obtain ⟨t, ht, rfl⟩ := List.mem_map.1 hp
      exact .atom (h t ht)
  rw [render, toList_joinWith, renderEach_eq_map]
  simpa [Function.comp_def] using hparts

theorem Member.writes_grouped {t : TypeExpr} (h : Member t) : Writes t (grouped t).toList := by
  cases h with
  | atom h =>
    have hprinted : grouped t = render t := by cases h <;> rfl
    rw [hprinted]
    exact .atom h
  | intersection hn h => simpa [grouped] using (Atom.writes_render hn h).wrapped

/-- The printed form of a type is one of its texts. -/
theorem Writable.writes_render {t : TypeExpr} (h : Writable t) : Writes t (render t).toList := by
  induction h with
  | member h =>
    cases h with
    | atom h => exact .atom h
    | intersection hn h => exact Atom.writes_render hn h
  | @union ts hn h =>
    have hparts : Writes (.union ((ts.map fun t => (t, (grouped t).toList)).map (·.1)))
        (['|'].intercalate ((ts.map fun t => (t, (grouped t).toList)).map (·.2))) := by
      refine .union (by simpa using hn) ?_ ?_
      · intro p hp
        obtain ⟨t, ht, rfl⟩ := List.mem_map.1 hp
        exact h t ht
      · intro p hp
        obtain ⟨t, ht, rfl⟩ := List.mem_map.1 hp
        exact (h t ht).writes_grouped
    rw [render, toList_joinWith, renderGrouped_eq_map]
    simpa [Function.comp_def] using hparts
  | nullable h ih => simpa [render] using ih.nullable

/-- A type that can be declared is read back from its printed form, and from every other text that
differs from it by white space around names and operators and by parentheses around parts. -/
theorem parse_eq_of_writes {t : TypeExpr} (h : Writable t) :
    parse (render t) = t ∧ ∀ text : String, Writes t text.toList → parse text = t :=
  ⟨h.writes_render.parseChars_eq, fun _ htext => htext.parseChars_eq⟩

def nullableUnion : TypeExpr :=
  .nullable (.union [.intersection [.named "A", .named "B\\C"], .self, .named "int"])

/-- The type is read with parentheses around the whole, the union, the intersection and a word. -/
theorem parse_eq_of_writes_nullableUnion :
    Writable nullableUnion ∧ parse (render nullableUnion) = nullableUnion ∧
      parse "( ? ((A & B\\C) |(self)|\tint ) )" = nullableUnion := by
  have hA : Atom (.named "A") :=
    .named ⟨by decide, by decide +kernel, by decide +kernel, by decide +kernel⟩
  have hC : Atom (.named "B\\C") :=
    .named ⟨by decide, by decide +kernel, by decide +kernel, by decide +kernel⟩
  have hint : Atom (.named "int") :=
    .named ⟨by decide, by decide +kernel, by decide +kernel, by decide +kernel⟩
  have hmembers : ∀ t ∈ [.intersection [.named "A", .named "B\\C"], .self, .named "int"], Member t := by
    simp only [List.forall_mem_cons, List.not_mem_nil, false_imp_iff, implies_true, and_true]
    exact ⟨.intersection (by simp) (by simp [hA, hC]), .atom .self, .atom hint⟩
  have hwritable : Writable nullableUnion := .nullable (.union (by simp) hmembers)
  have hblank : Blank [' '] ∧ Blank ['\t'] := by simp [Blank, isSpace]
  have hmeet : Writes (.intersection [.named "A", .named "B\\C"]) "A & B\\C".toList := by
    refine @Writes.intersection [(.named "A", "A ".toList), (.named "B\\C", " B\\C".toList)]
      (by simp) (by simp [hA, hC]) ?_
    simp only [List.forall_mem_cons, List.not_mem_nil, false_imp_iff, implies_true, and_true]
    exact ⟨.spaced blank_nil hblank.1 (.atom hA), .spaced hblank.1 blank_nil (.atom hC)⟩
  have hunion : Writes (.union [.intersection [.named "A", .named "B\\C"], .self, .named "int"])
      "(A & B\\C) |(self)|\tint ".toList := by
    refine @Writes.union [(.intersection [.named "A", .named "B\\C"], "(A & B\\C) ".toList),
      (.self, "(self)".toList), (.named "int", "\tint ".toList)] (by simp) ?_ ?_
    · simpa using hmembers
    · simp only [List.forall_mem_cons, List.not_mem_nil, false_imp_iff, implies_true, and_true]
      exact ⟨.spaced blank_nil hblank.1 hmeet.wrapped, (Writes.atom .self).wrapped,
        .spaced hblank.2 hblank.1 (.atom hint)⟩
  have htext : Writes nullableUnion "( ? ((A & B\\C) |(self)|\tint ) )".toList :=
    .wrapped (.spaced hblank.1 hblank.1 (.nullable (.spaced hblank.1 blank_nil hunion.wrapped)))
  obtain ⟨hprinted, hread⟩ := parse_eq_of_writes hwritable
  exact ⟨hwritable, hprinted, hread _ htext⟩

end ContractCheck.TypeExpr
