import ContractCheck.TypeExpr.Parser
import ContractCheck.Proofs.Text.Spacing

/-!
Parentheses in the text of a type. In a balanced text no parenthesis closes that was not opened, and
all are closed in the end. Such a text may be put into parentheses and taken out again, and texts
that are joined by a separator they do not hold are the pieces of the whole.
-/
namespace ContractCheck.TypeExpr

open Text

def depthIn? : Nat → List Char → Option Nat
  | depth, [] => some depth
  | depth, c :: cs =>
    if c = '(' then depthIn? (depth + 1) cs
    else if c = ')' then if depth = 0 then none else depthIn? (depth - 1) cs
    else depthIn? depth cs

def Balanced (cs : List Char) : Prop :=
  depthIn? 0 cs = some 0

theorem depthIn?_cons_of_ne {c : Char} (hopen : c ≠ '(') (hclose : c ≠ ')') (depth : Nat)
    (cs : List Char) : depthIn? depth (c :: cs) = depthIn? depth cs := by
  simp [depthIn?, hopen, hclose]

theorem depthIn?_append (depth : Nat) (as bs : List Char) :
    depthIn? depth (as ++ bs) = (depthIn? depth as).bind (depthIn? · bs) := by
  induction as generalizing depth with
  | nil => rfl
  | cons a as ih =>
    simp only [List.cons_append, depthIn?, ih]
    split
    · rfl
    · split
      · split <;> rfl
      · rfl

/-- Inside further parentheses everything is deeper. -/
theorem depthIn?_deeper {depth e : Nat} {cs : List Char} (h : depthIn? depth cs = some e) (k : Nat) :
    depthIn? (depth + k) cs = some (e + k) := by
  induction cs generalizing depth with
  | nil =>
    cases h
    rfl
  | cons c cs ih =>
    simp only [depthIn?] at h ⊢
    split
    · rename_i hopen
      rw [if_pos hopen] at h
      rw [Nat.add_right_comm]
      exact ih h
    · rename_i hopen
      rw [if_neg hopen] at h
      split
      · rename_i hclose
        rw [if_pos hclose] at h
        split at h
        · cases h
        · rw [if_neg (by omega), show depth + k - 1 = depth - 1 + k by omega]
          exact ih h
      · rename_i hclose
        rw [if_neg hclose] at h
        exact ih h

/-- One character of a text that closes only what is open. -/
theorem depthAfter_of_depthIn? {depth e : Nat} {c : Char} {cs : List Char}
    (h : depthIn? depth (c :: cs) = some e) :
    ∃ next : Nat, depthAfter depth c = next ∧ depthIn? next cs = some e := by
  simp only [depthIn?] at h
  rw [depthAfter]
  split at h
  · rename_i hopen
    exact ⟨depth + 1, by rw [if_pos hopen]; omega, h⟩
  · rename_i hopen
    rw [if_neg hopen]
    split at h
    · rename_i hclose
      split at h
      · cases h
      · exact ⟨depth - 1, by rw [if_pos hclose]; omega, h⟩
    · rename_i hclose
      exact ⟨depth, by rw [if_neg hclose], h⟩

theorem balanced_of_plain {cs : List Char} (h : ∀ c ∈ cs, c ≠ '(' ∧ c ≠ ')') : Balanced cs := by
  induction cs with
  | nil => rfl
  | cons c cs ih =>
    obtain ⟨hopen, hclose⟩ := h c List.mem_cons_self
    rw [Balanced, depthIn?_cons_of_ne hopen hclose]
    exact ih fun d hd => h d (List.mem_cons_of_mem c hd)

theorem balanced_of_blank {cs : List Char} (h : Blank cs) : Balanced cs := by
  apply balanced_of_plain
  intro c hc
  have hspace := h c hc
  constructor
  · intro heq
    rw [heq] at hspace
    exact absurd hspace (by decide)
  · intro heq
    rw [heq] at hspace
    exact absurd hspace (by decide)

theorem Balanced.append {as bs : List Char} (ha : Balanced as) (hb : Balanced bs) :
    Balanced (as ++ bs) := by
  rw [Balanced, depthIn?_append, ha]
  exact hb

theorem Balanced.wrapped {cs : List Char} (h : Balanced cs) : Balanced ('(' :: (cs ++ [')'])) := by
  have hdeeper : depthIn? 1 cs = some 1 := by simpa using depthIn?_deeper h 1
  show depthIn? 1 (cs ++ [')']) = some 0
  rw [depthIn?_append, hdeeper]
  rfl

theorem Balanced.intercalate {sep : Char} (hsep : Balanced [sep]) {texts : List (List Char)}
    (h : ∀ t ∈ texts, Balanced t) : Balanced ([sep].intercalate texts) := by
  induction texts with
  | nil => rfl
  | cons t texts ih =>
    have ht := h t List.mem_cons_self
    cases texts with
    | nil => rwa [List.intercalate_singleton]
    | cons u texts =>
      rw [List.intercalate_cons_cons]
      exact (ht.append hsep).append (ih fun v hv => h v (List.mem_cons_of_mem t hv))

/-- White space does not change the depth. -/
theorem depthIn?_collapseFrom (depth : Nat) (started owed : Bool) (cs : List Char) :
    depthIn? depth (collapseFrom started owed cs) = depthIn? depth cs := by
  have hskip : ∀ (d : Nat) {gap : List Char}, Blank gap → depthIn? d gap = some d := by
    intro d gap hgap
    simpa using depthIn?_deeper (balanced_of_blank hgap) d
  induction cs generalizing depth started owed with
  | nil => rfl
  | cons c cs ih =>
    cases hc : isSpace c with
    | true =>
      have hblank : Blank [c] := by simpa [Blank] using hc
      rw [collapseFrom_space hc, ih, ← List.singleton_append, depthIn?_append, hskip depth hblank]
      rfl
    | false =>
      rw [collapseFrom_visible hc, depthIn?_append, hskip depth (blank_gap started owed)]
      simp only [Option.bind_some, depthIn?, ih]

theorem Balanced.collapseFrom {cs : List Char} (h : Balanced cs) (started owed : Bool) :
    Balanced (collapseFrom started owed cs) := by
  rw [Balanced, depthIn?_collapseFrom]
  exact h

theorem closesEarly_of_prefix {depth : Nat} {as bs : List Char} (hb : bs ≠ []) (ha : as ≠ [])
    (h : depthIn? depth as = some 0) : closesEarly depth (as ++ bs) = true := by
  induction as generalizing depth with
  | nil => exact absurd rfl ha
  | cons a as ih =>
    obtain ⟨next, hnext, hrest⟩ := depthAfter_of_depthIn? h
    obtain ⟨c, cs, hcs⟩ : ∃ c cs, as ++ bs = c :: cs :=
      List.exists_cons_of_ne_nil (by simp [hb])
    have hunfold : closesEarly depth (a :: (as ++ bs)) =
        (depthAfter depth a == 0 || closesEarly (depthAfter depth a) (as ++ bs)) := by
      rw [hcs, closesEarly]
    rw [List.cons_append, hunfold, hnext]
    cases as with
    | nil =>
      cases hrest
      rfl
    | cons a' as => rw [ih (by simp) hrest, Bool.or_true]

theorem not_closesEarly_of_open {depth e : Nat} {cs : List Char} (h : depthIn? depth cs = some e) :
    closesEarly (depth + 1 : Nat) (cs ++ [')']) = false := by
  induction cs generalizing depth with
  | nil => rfl
  | cons c cs ih =>
    obtain ⟨next, hnext, hrest⟩ := depthAfter_of_depthIn? h
    have hdeeper : depthAfter (depth + 1 : Nat) c = (next + 1 : Nat) := by
      simp only [depthAfter] at hnext ⊢
      split
      · rename_i hopen
        rw [if_pos hopen] at hnext
        omega
      · rename_i hopen
        rw [if_neg hopen] at hnext
        split
        · rename_i hclose
          rw [if_pos hclose] at hnext
          omega
        · rename_i hclose
          rw [if_neg hclose] at hnext
          omega
    obtain ⟨d, ds, hds⟩ : ∃ d ds, cs ++ [')'] = d :: ds :=
      List.exists_cons_of_ne_nil (by simp)
    have hpos : (((next + 1 : Nat) : Int) == 0) = false := by
      rw [beq_eq_false_iff_ne]
      omega
    have hafter := ih hrest
    rw [hds] at hafter
    rw [List.cons_append, hds, closesEarly, hdeeper, hpos, hafter]
    rfl

theorem dropOuterParens_of_head {cs : List Char} (h : cs.head? ≠ some '(') :
    dropOuterParens cs = cs := by
  rw [dropOuterParens.eq_def]
  split
  · exact absurd rfl h
  · rfl

theorem dropOuterParens_of_closesEarly {cs : List Char} (h : closesEarly 0 cs = true) :
    dropOuterParens cs = cs := by
  rw [dropOuterParens.eq_def]
  split
  · rw [if_neg (by simp [h])]
  · rfl

theorem dropOuterParens_wrapped {cs : List Char} (h : Balanced cs) :
    dropOuterParens ('(' :: (cs ++ [')'])) = dropOuterParens (trim cs) := by
  obtain ⟨d, ds, hds⟩ : ∃ d ds, cs ++ [')'] = d :: ds :=
    List.exists_cons_of_ne_nil (by simp)
  have hearly : closesEarly 0 ('(' :: (cs ++ [')'])) = false := by
    have hinner := not_closesEarly_of_open h
    rw [hds] at hinner
    rw [hds, closesEarly]
    exact hinner
  rw [dropOuterParens, if_pos (by simp [hearly]), List.dropLast_concat]

theorem topPieces_of_not_mem {sep : Char} {cs : List Char} (h : sep ∉ cs) (depth : Int) :
    topPieces sep depth cs = [cs] := by
  induction cs generalizing depth with
  | nil => rfl
  | cons c cs ih =>
    have hc : c ≠ sep := fun heq => h (heq ▸ List.mem_cons_self)
    rw [topPieces, if_neg (fun hsep => hc hsep.1), ih fun hin => h (List.mem_cons_of_mem c hin)]

/-- The first separator that stands outside all parentheses. -/
theorem topPieces_append {sep : Char} (hsep : Balanced [sep]) {depth : Nat} {as : List Char}
    (hmem : sep ∉ as) (h : depthIn? depth as = some 0) (bs : List Char) :
    topPieces sep depth (as ++ sep :: bs) = as :: topPieces sep 0 bs := by
  induction as generalizing depth with
  | nil =>
    cases h
    obtain ⟨next, hnext, hrest⟩ := depthAfter_of_depthIn? hsep
    cases hrest
    rw [List.nil_append, topPieces, if_pos ⟨rfl, hnext⟩]
  | cons a as ih =>
    obtain ⟨next, hnext, hrest⟩ := depthAfter_of_depthIn? h
    have ha : a ≠ sep := fun heq => hmem (heq ▸ List.mem_cons_self)
    rw [List.cons_append, topPieces, if_neg (fun hs => ha hs.1), hnext,
      ih (fun hin => hmem (List.mem_cons_of_mem a hin)) hrest]

/-- Joined texts are the pieces of the whole, but for white space around them. -/
theorem topPieces_collapse_intercalate {sep : Char} (hsep : Balanced [sep])
    (hvisible : isSpace sep = false) {texts : List (List Char)} (hne : texts ≠ [])
    (h : ∀ t ∈ texts, Balanced t ∧ sep ∉ t) (started owed : Bool) :
    (topPieces sep 0 (collapseFrom started owed ([sep].intercalate texts))).map collapse =
      texts.map collapse := by
  have hblank : sep ≠ ' ' := by
    intro heq
    rw [heq] at hvisible
    exact absurd hvisible (by decide)
  have hmissing : ∀ {t : List Char}, sep ∉ t → ∀ (started owed : Bool), sep ∉ collapseFrom started owed t := by
    intro t ht started owed hin
    cases mem_of_mem_collapseFrom hin with
    | inl heq => exact hblank heq
    | inr hin => exact ht hin
  induction texts generalizing started owed with
  | nil => exact absurd rfl hne
  | cons t texts ih =>
    obtain ⟨hbalanced, hmem⟩ := h t List.mem_cons_self
    cases texts with
    | nil =>
      rw [List.intercalate_singleton, topPieces_of_not_mem (hmissing hmem started owed)]
      simp [collapse_collapseFrom]
    | cons u texts =>
      obtain ⟨gap, hgap, hcut⟩ := collapseFrom_append_visible hvisible started owed t
        ([sep].intercalate (u :: texts))
      have hfirst : Balanced (collapseFrom started owed t ++ gap) :=
        (hbalanced.collapseFrom started owed).append (balanced_of_blank hgap)
      have hsepgap : sep ∉ collapseFrom started owed t ++ gap := by
        rw [List.mem_append, not_or]
        refine ⟨hmissing hmem started owed, fun hin => ?_⟩
        rw [hgap sep hin] at hvisible
        cases hvisible
      have hrest := ih (by simp) (fun v hv => h v (List.mem_cons_of_mem t hv)) true false
      have hpieces := topPieces_append hsep hsepgap hfirst
        (collapseFrom true false ([sep].intercalate (u :: texts)))
      have hcollapse : collapse (collapseFrom started owed t ++ gap) = collapse t := by
        rw [collapse, collapseFrom_append_blank hgap]
        exact collapse_collapseFrom started owed t
      rw [List.intercalate_cons_cons, List.append_assoc, List.singleton_append, hcut]
      refine (congrArg (List.map collapse) hpieces).trans ?_
      rw [List.map_cons, hrest, hcollapse]
      rfl

end ContractCheck.TypeExpr
