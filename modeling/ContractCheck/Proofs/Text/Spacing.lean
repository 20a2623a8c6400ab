import ContractCheck.Text.WhiteSpace
import Mathlib.Data.List.TakeWhile

/-!
What collapsing and trimming leave of a text. White space around the text does not matter, collapsing
twice is collapsing once, and at a character that is no white space a text may be cut before or after
it is collapsed. Trimming keeps a text that starts and ends with visible characters.
-/
namespace ContractCheck.Text

def Blank (cs : List Char) : Prop :=
  ∀ c ∈ cs, isSpace c = true

theorem blank_nil : Blank [] := by simp [Blank]

theorem blank_cons_iff (c : Char) (cs : List Char) :
    Blank (c :: cs) ↔ isSpace c = true ∧ Blank cs := by
  simp [Blank]

theorem not_blank_of_mem {cs : List Char} {c : Char} (hc : c ∈ cs) (h : isSpace c = false) :
    ¬ Blank cs := by
  intro hblank
  rw [hblank c hc] at h
  cases h

theorem blank_gap (started owed : Bool) : Blank (if started && owed then [' '] else []) := by
  cases started <;> cases owed <;> simp [Blank, isSpace]

theorem collapseFrom_space {c : Char} (hc : isSpace c = true) (started owed : Bool)
    (cs : List Char) : collapseFrom started owed (c :: cs) = collapseFrom started true cs := by
  simp [collapseFrom, hc]

/-- Before a visible character stands one blank, if white space was passed since the last one. -/
theorem collapseFrom_visible {c : Char} (hc : isSpace c = false) (started owed : Bool)
    (cs : List Char) : collapseFrom started owed (c :: cs) =
      (if started && owed then [' '] else []) ++ c :: collapseFrom true false cs := by
  cases started <;> cases owed <;> simp [collapseFrom, hc]

theorem collapseFrom_unstarted (owed : Bool) (cs : List Char) :
    collapseFrom false owed cs = collapse cs := by
  cases cs with
  | nil => rfl
  | cons c cs => simp [collapse, collapseFrom]

theorem collapse_space {c : Char} (hc : isSpace c = true) (cs : List Char) :
    collapse (c :: cs) = collapse cs := by
  rw [collapse, collapseFrom_space hc, collapseFrom_unstarted]

theorem collapse_visible {c : Char} (hc : isSpace c = false) (cs : List Char) :
    collapse (c :: cs) = c :: collapseFrom true false cs := by
  rw [collapse, collapseFrom_visible hc]
  rfl

theorem collapse_blank_append {front : List Char} (hf : Blank front) (cs : List Char) :
    collapse (front ++ cs) = collapse cs := by
  induction front with
  | nil => rfl
  | cons c front ih =>
    obtain ⟨hc, hf⟩ := (blank_cons_iff c front).1 hf
    rw [List.cons_append, collapse_space hc, ih hf]

theorem collapseFrom_blank {back : List Char} (hb : Blank back) (started owed : Bool) :
    collapseFrom started owed back = [] := by
  induction back generalizing owed with
  | nil => rfl
  | cons c back ih =>
    obtain ⟨hc, hb⟩ := (blank_cons_iff c back).1 hb
    rw [collapseFrom_space hc, ih hb]

theorem collapseFrom_append_blank {back : List Char} (hb : Blank back) (started owed : Bool)
    (cs : List Char) : collapseFrom started owed (cs ++ back) = collapseFrom started owed cs := by
  induction cs generalizing started owed with
  | nil => exact collapseFrom_blank hb started owed
  | cons c cs ih =>
    cases hc : isSpace c with
    | true => rw [List.cons_append, collapseFrom_space hc, collapseFrom_space hc, ih]
    | false => rw [List.cons_append, collapseFrom_visible hc, collapseFrom_visible hc, ih]

theorem collapse_spaced {front back : List Char} (hf : Blank front) (hb : Blank back)
    (cs : List Char) : collapse (front ++ cs ++ back) = collapse cs := by
  rw [collapse, collapseFrom_append_blank hb]
  exact collapse_blank_append hf cs

/-- A text is cut before a visible character. -/
theorem collapseFrom_append_visible {c : Char} (hc : isSpace c = false) (started owed : Bool)
    (as bs : List Char) : ∃ gap, Blank gap ∧ collapseFrom started owed (as ++ c :: bs) =
      collapseFrom started owed as ++ gap ++ c :: collapseFrom true false bs := by
  induction as generalizing started owed with
  | nil => exact ⟨_, blank_gap started owed, collapseFrom_visible hc started owed bs⟩
  | cons a as ih =>
    cases ha : isSpace a with
    | true =>
      obtain ⟨gap, hgap, heq⟩ := ih started true
      exact ⟨gap, hgap, by rw [List.cons_append, collapseFrom_space ha, collapseFrom_space ha, heq]⟩
    | false =>
      obtain ⟨gap, hgap, heq⟩ := ih true false
      refine ⟨gap, hgap, ?_⟩
      rw [List.cons_append, collapseFrom_visible ha, collapseFrom_visible ha, heq]
      simp only [List.append_assoc, List.cons_append]

theorem collapseFrom_collapseFrom (owed : Bool) (cs : List Char) :
    collapseFrom true false (collapseFrom true owed cs) = collapseFrom true owed cs := by
  have hblank : isSpace ' ' = true := by decide
  induction cs generalizing owed with
  | nil => rfl
  | cons c cs ih =>
    cases hc : isSpace c with
    | true => rw [collapseFrom_space hc, ih]
    | false =>
      rw [collapseFrom_visible hc]
      cases owed with
      | false => simpa [collapseFrom_visible hc] using ih false
      | true => simpa [collapseFrom_space hblank, collapseFrom_visible hc] using ih false

/-- Collapsing a collapsed text changes nothing, also where it was the rest of a text. -/
theorem collapse_collapseFrom (started owed : Bool) (cs : List Char) :
    collapse (collapseFrom started owed cs) = collapse cs := by
  induction cs generalizing owed with
  | nil => rfl
  | cons c cs ih =>
    cases hc : isSpace c with
    | true => rw [collapseFrom_space hc, ih, collapse_space hc]
    | false =>
      rw [collapseFrom_visible hc, collapse_blank_append (blank_gap started owed),
        collapse_visible hc, collapse_visible hc, collapseFrom_collapseFrom]

/-- The rest of a text is collapsed like a text of its own, but for a blank in front. -/
theorem collapseFrom_eq_append (started owed : Bool) (cs : List Char) :
    ∃ gap, Blank gap ∧ collapseFrom started owed cs = gap ++ collapse cs := by
  induction cs generalizing owed with
  | nil => exact ⟨[], blank_nil, rfl⟩
  | cons c cs ih =>
    cases hc : isSpace c with
    | true =>
      rw [collapseFrom_space hc, collapse_space hc]
      exact ih true
    | false =>
      rw [collapse_visible hc]
      exact ⟨_, blank_gap started owed, collapseFrom_visible hc started owed cs⟩

theorem collapse_eq_nil_iff (cs : List Char) : collapse cs = [] ↔ Blank cs := by
  induction cs with
  | nil => exact iff_of_true rfl blank_nil
  | cons c cs ih =>
    rw [blank_cons_iff]
    cases hc : isSpace c with
    | true => simpa [collapse_space hc] using ih
    | false => simp [collapse_visible hc]

theorem mem_of_mem_collapseFrom {started owed : Bool} {cs : List Char} {c : Char}
    (h : c ∈ collapseFrom started owed cs) : c = ' ' ∨ c ∈ cs := by
  induction cs generalizing started owed with
  | nil => cases h
  | cons d cs ih =>
    cases hd : isSpace d with
    | true =>
      rw [collapseFrom_space hd] at h
      exact (ih h).imp_right (List.mem_cons_of_mem d)
    | false =>
      rw [collapseFrom_visible hd, List.mem_append, List.mem_cons] at h
      cases h with
      | inl h =>
        cases started <;> cases owed <;> simp_all
      | inr h =>
        cases h with
        | inl h => exact .inr (h ▸ List.mem_cons_self)
        | inr h => exact (ih h).imp_right (List.mem_cons_of_mem d)

theorem collapseFrom_self {cs : List Char} (h : ∀ c ∈ cs, isSpace c = false) :
    collapseFrom true false cs = cs := by
  induction cs with
  | nil => rfl
  | cons c cs ih =>
    rw [collapseFrom_visible (h c List.mem_cons_self), ih fun d hd => h d (List.mem_cons_of_mem c hd)]
    rfl

theorem collapse_self {cs : List Char} (h : ∀ c ∈ cs, isSpace c = false) : collapse cs = cs := by
  cases cs with
  | nil => rfl
  | cons c cs =>
    rw [collapse_visible (h c List.mem_cons_self),
      collapseFrom_self fun d hd => h d (List.mem_cons_of_mem c hd)]

theorem dropWhile_blank_append {front : List Char} (hf : Blank front) (cs : List Char) :
    (front ++ cs).dropWhile isSpace = cs.dropWhile isSpace := by
  rw [List.dropWhile_append_of_pos hf]

theorem trim_of_blank {cs : List Char} (h : Blank cs) : trim cs = [] := by
  rw [trim, trimWhile, List.dropWhile_eq_nil_iff.2 h]
  rfl

/-- Nothing is dropped from what ends with a character of another class. -/
theorem dropEndWhile_append_of_getLast? {p : Char → Bool} {front : List Char}
    (h : ∃ c ∈ front.getLast?, p c = false) (back : List Char) :
    dropEndWhile p (front ++ back) = front ++ dropEndWhile p back := by
  obtain ⟨c, hc, hpc⟩ := h
  obtain ⟨init, rfl⟩ := List.getLast?_eq_some_iff.1 hc
  have hkept : ¬ p c = true := by simp [hpc]
  rw [dropEndWhile, dropEndWhile, List.reverse_append, List.dropWhile_append]
  cases hback : back.reverse.dropWhile p with
  | nil =>
    rw [if_pos List.isEmpty_nil, List.reverse_concat, List.dropWhile_cons_of_neg hkept]
    simp
  | cons d ds => simp

theorem dropEndWhile_cons {p : Char → Bool} {c : Char} (hc : p c = false) (cs : List Char) :
    dropEndWhile p (c :: cs) = c :: dropEndWhile p cs := by
  have hlast : ∃ d ∈ [c].getLast?, p d = false := ⟨c, rfl, hc⟩
  exact dropEndWhile_append_of_getLast? hlast cs

theorem getLast?_dropEndWhile {p : Char → Bool} {cs : List Char} {c : Char}
    (h : (dropEndWhile p cs).getLast? = some c) : p c = false := by
  rw [dropEndWhile, List.getLast?_reverse] at h
  have hhead := List.head?_dropWhile_not p cs.reverse
  rw [h] at hhead
  simpa using hhead

/-- A text is its trimmed form between white space. -/
theorem exists_trim (cs : List Char) :
    ∃ front back, Blank front ∧ Blank back ∧ cs = front ++ trim cs ++ back := by
  have hback : ∀ ds : List Char, ds = dropEndWhile isSpace ds ++ (ds.reverse.takeWhile isSpace).reverse := by
    intro ds
    rw [dropEndWhile, ← List.reverse_append, List.takeWhile_append_dropWhile, List.reverse_reverse]
  refine ⟨cs.takeWhile isSpace, ((cs.dropWhile isSpace).reverse.takeWhile isSpace).reverse, ?_, ?_, ?_⟩
  · intro c hc
    exact List.mem_takeWhile_imp hc
  · intro c hc
    exact List.mem_takeWhile_imp (List.mem_reverse.1 hc)
  · rw [List.append_assoc, trim, trimWhile, ← hback, List.takeWhile_append_dropWhile]

theorem mem_of_mem_trim {cs : List Char} {c : Char} (h : c ∈ trim cs) : c ∈ cs := by
  obtain ⟨front, back, -, -, hcs⟩ := exists_trim cs
  rw [hcs]
  exact List.mem_append_left back (List.mem_append_right front h)

theorem collapse_trim (cs : List Char) : collapse (trim cs) = collapse cs := by
  obtain ⟨front, back, hf, hb, hcs⟩ := exists_trim cs
  have h := collapse_spaced hf hb (trim cs)
  rwa [← hcs, eq_comm] at h

theorem getLast?_collapseFrom {started owed : Bool} {cs : List Char} {c : Char}
    (h : (collapseFrom started owed cs).getLast? = some c) : isSpace c = false := by
  induction cs generalizing started owed with
  | nil => cases h
  | cons d cs ih =>
    cases hd : isSpace d with
    | true =>
      rw [collapseFrom_space hd] at h
      exact ih h
    | false =>
      rw [collapseFrom_visible hd, List.getLast?_append, List.getLast?_cons, Option.some_or] at h
      cases hlast : (collapseFrom true false cs).getLast? with
      | none =>
        rw [hlast] at h
        cases h
        exact hd
      | some e =>
        rw [hlast] at h
        cases h
        exact ih hlast

theorem head?_collapse {cs : List Char} {c : Char} (h : (collapse cs).head? = some c) :
    isSpace c = false := by
  induction cs with
  | nil => cases h
  | cons d cs ih =>
    cases hd : isSpace d with
    | true =>
      rw [collapse_space hd] at h
      exact ih h
    | false =>
      rw [collapse_visible hd] at h
      cases h
      exact hd

def Tight (cs : List Char) : Prop :=
  (∃ c ∈ cs.head?, isSpace c = false) ∧ ∃ c ∈ cs.getLast?, isSpace c = false

theorem exists_head?_of_forall {cs : List Char} (hne : cs ≠ []) {p : Char → Prop}
    (h : ∀ c ∈ cs, p c) : ∃ c ∈ cs.head?, p c := by
  obtain ⟨c, ds, rfl⟩ := List.exists_cons_of_ne_nil hne
  exact ⟨c, rfl, h c List.mem_cons_self⟩

theorem exists_getLast?_of_forall {cs : List Char} (hne : cs ≠ []) {p : Char → Prop}
    (h : ∀ c ∈ cs, p c) : ∃ c ∈ cs.getLast?, p c := by
  rw [← List.head?_reverse]
  exact exists_head?_of_forall (by simpa using hne) fun c hc => h c (List.mem_reverse.1 hc)

theorem forall_mem_of_exists {o : Option Char} {p : Char → Prop} (h : ∃ c ∈ o, p c) : ∀ c ∈ o, p c := by
  obtain ⟨c, hc, hp⟩ := h
  intro d hd
  rwa [Option.mem_unique hd hc]

theorem exists_head?_append {as : List Char} {p : Char → Prop} (h : ∃ c ∈ as.head?, p c)
    (bs : List Char) : ∃ c ∈ (as ++ bs).head?, p c := by
  obtain ⟨c, hc, hp⟩ := h
  exact ⟨c, by rw [List.head?_append, Option.mem_def.1 hc]; rfl, hp⟩

theorem exists_getLast?_append {bs : List Char} {p : Char → Prop} (h : ∃ c ∈ bs.getLast?, p c)
    (as : List Char) : ∃ c ∈ (as ++ bs).getLast?, p c := by
  obtain ⟨c, hc, hp⟩ := h
  exact ⟨c, by rw [List.getLast?_append, Option.mem_def.1 hc]; rfl, hp⟩

theorem trim_eq_self {cs : List Char} (hfront : ∀ c ∈ cs.head?, isSpace c = false)
    (hback : ∀ c ∈ cs.getLast?, isSpace c = false) : trim cs = cs := by
  have hfront' : cs.dropWhile isSpace = cs := by
    cases cs with
    | nil => rfl
    | cons c cs => simp [hfront c rfl]
  have hback' : cs.reverse.dropWhile isSpace = cs.reverse := by
    rw [← List.head?_reverse] at hback
    cases hcs : cs.reverse with
    | nil => rfl
    | cons c ds => simp [hback c (by rw [hcs]; rfl)]
  rw [trim, trimWhile, hfront', dropEndWhile, hback', List.reverse_reverse]

theorem trim_collapse (cs : List Char) : trim (collapse cs) = collapse cs :=
  trim_eq_self (fun _ hc => head?_collapse hc) fun _ hc => getLast?_collapseFrom hc

theorem Tight.trim_eq {cs : List Char} (h : Tight cs) : trim cs = cs :=
  trim_eq_self (forall_mem_of_exists h.1) (forall_mem_of_exists h.2)

theorem trim_spaced {front back : List Char} (hf : Blank front) (hb : Blank back)
    (cs : List Char) : trim (front ++ cs ++ back) = trim cs := by
  have hrev : Blank back.reverse := fun c hc => hb c (List.mem_reverse.1 hc)
  rw [List.append_assoc, trim, trimWhile, dropWhile_blank_append hf, trim, trimWhile]
  cases hcs : cs.dropWhile isSpace with
  | nil =>
    have hcs' : Blank cs := List.dropWhile_eq_nil_iff.1 hcs
    have hall : (cs ++ back).dropWhile isSpace = [] := by
      rw [dropWhile_blank_append hcs']
      exact List.dropWhile_eq_nil_iff.2 hb
    rw [hall]
  | cons c ds =>
    have hne : cs.dropWhile isSpace ≠ [] := by simp [hcs]
    rw [List.dropWhile_append, if_neg (by simpa using hne), hcs, dropEndWhile, dropEndWhile,
      List.reverse_append, dropWhile_blank_append hrev]

theorem dropWhile_eq_self {cs : List Char} (h : ∃ c ∈ cs.head?, isSpace c = false) :
    cs.dropWhile isSpace = cs := by
  obtain ⟨c, hc, hvisible⟩ := h
  obtain ⟨ds, rfl⟩ := List.head?_eq_some_iff.1 hc
  rw [List.dropWhile_cons_of_neg (by simp [hvisible])]

theorem Tight.ne_nil {cs : List Char} (h : Tight cs) : cs ≠ [] := by
  rintro rfl
  obtain ⟨⟨c, hc, -⟩, -⟩ := h
  cases hc

theorem tight_trim {cs : List Char} (h : ¬ Blank cs) : Tight (trim cs) := by
  rw [trim, trimWhile]
  cases hcs : cs.dropWhile isSpace with
  | nil => exact absurd (List.dropWhile_eq_nil_iff.1 hcs) h
  | cons c ds =>
    have hc := List.head?_dropWhile_not isSpace cs
    rw [hcs] at hc
    have hc' : isSpace c = false := by simpa using hc
    refine ⟨⟨c, by rw [dropEndWhile_cons hc']; rfl, hc'⟩, ?_⟩
    cases hlast : (dropEndWhile isSpace (c :: ds)).getLast? with
    | none =>
      rw [dropEndWhile_cons hc', List.getLast?_cons] at hlast
      cases hlast
    | some e => exact ⟨e, rfl, getLast?_dropEndWhile hlast⟩

/-- What stands between parentheses in a collapsed text is, trimmed, a collapsed text of its own. -/
theorem trim_collapseFrom_append {back : List Char} (hb : Blank back) (started owed : Bool)
    (cs : List Char) : trim (collapseFrom started owed cs ++ back) = collapse cs := by
  obtain ⟨gap, hgap, heq⟩ := collapseFrom_eq_append started owed cs
  rw [heq, trim_spaced hgap hb, trim_collapse]

end ContractCheck.Text
