import ContractCheck.Text.Split
import ContractCheck.TypeExpr.Basic

/-!
Reading a type declaration: `?T`, unions, intersections and parentheses around either.
-/
namespace ContractCheck.TypeExpr

open Text

def depthAfter (depth : Int) (c : Char) : Int :=
  if c = '(' then depth + 1 else if c = ')' then depth - 1 else depth

def closesEarly : Int → List Char → Bool
  | _, [] => false
  | _, [_] => false
  | depth, c :: d :: cs => depthAfter depth c == 0 || closesEarly (depthAfter depth c) (d :: cs)

def dropOuterParens (cs : List Char) : List Char :=
  match cs with
  | '(' :: rest =>
    if rest.getLast? = some ')' && !closesEarly 0 cs then dropOuterParens (trim rest.dropLast)
    else cs
  | _ => cs
termination_by cs.length
decreasing_by
  have h := length_trim_le rest.dropLast
  simp only [List.length_dropLast, List.length_cons] at *
  omega

theorem length_dropOuterParens_le (cs : List Char) : (dropOuterParens cs).length ≤ cs.length := by
  fun_induction dropOuterParens cs with
  | case1 rest hc ih =>
    rw [if_pos hc]
    have h := length_trim_le rest.dropLast
    simp only [List.length_dropLast, List.length_cons] at *
    omega
  | case2 rest hc => exact Nat.le_of_eq (congrArg List.length (if_neg hc))
  | case3 => exact Nat.le_refl _

def topPieces (sep : Char) : Int → List Char → List (List Char)
  | _, [] => [[]]
  | depth, c :: cs =>
    if c = sep ∧ depthAfter depth c = 0 then [] :: topPieces sep 0 cs
    else
      match topPieces sep (depthAfter depth c) cs with
      | [] => [[c]]
      | p :: ps => (c :: p) :: ps

theorem topPieces_ne_nil (sep : Char) (depth : Int) (cs : List Char) :
    topPieces sep depth cs ≠ [] := by
  cases cs with
  | nil => simp [topPieces]
  | cons c cs =>
    simp only [topPieces]
    split
    · simp
    · split <;> simp

/-- Of several pieces each is shorter than the text. -/
theorem length_lt_of_mem_topPieces {sep : Char} {depth : Int} {cs p : List Char}
    (h : p ∈ topPieces sep depth cs) :
    p.length ≤ cs.length ∧ (1 < (topPieces sep depth cs).length → p.length < cs.length) := by
  induction cs generalizing depth p with
  | nil =>
    simp only [topPieces, List.mem_singleton] at h
    simp [topPieces, h]
  | cons c cs ih =>
    simp only [topPieces] at h ⊢
    split at h
    · rename_i hs
      rw [if_pos hs]
      rcases List.mem_cons.1 h with rfl | h
      · simp
      · have := (ih h).1
        simp only [List.length_cons]
        omega
    · rename_i hs
      rw [if_neg hs]
      split at h
      · rename_i hn
        exact absurd hn (topPieces_ne_nil _ _ _)
      · rename_i q qs hq
        rcases List.mem_cons.1 h with rfl | h
        · have := ih (hq ▸ List.mem_cons_self : q ∈ _)
          simp only [hq, List.length_cons] at this ⊢
          omega
        · have := ih (hq ▸ List.mem_cons_of_mem q h : p ∈ _)
          simp only [hq, List.length_cons] at this ⊢
          omega

def memberTexts (sep : Char) (cs : List Char) : List (List Char) :=
  ((topPieces sep 0 cs).map trim).filter (· ≠ [])

theorem length_lt_of_mem_memberTexts {sep : Char} {cs p : List Char}
    (hp : p ∈ memberTexts sep cs) (hn : 1 < (topPieces sep 0 cs).length) :
    p.length < cs.length := by
  simp only [memberTexts, List.mem_filter, List.mem_map] at hp
  obtain ⟨⟨q, hq, rfl⟩, _⟩ := hp
  exact Nat.lt_of_le_of_lt (length_trim_le q) ((length_lt_of_mem_topPieces hq).2 hn)

def ofWord (word : String) : TypeExpr :=
  match Text.lower word with
  | "self" => .self
  | "static" => .static
  | "parent" => .parent
  | "void" => .void
  | "mixed" => .mixed
  | lowered => if isScalarName lowered then .named lowered else .named word

def parseChars (cs : List Char) : TypeExpr :=
  if collapse cs = [] then .absent
  else
    match _h : dropOuterParens (collapse cs) with
    | '?' :: rest =>
      match parseChars rest with
      | .absent => .absent
      | inner => .nullable inner
    | text =>
      if _hu : 1 < (topPieces '|' 0 text).length then
        .union ((memberTexts '|' text).attach.map fun ⟨p, _⟩ => parseChars p)
      else if _hi : 1 < (topPieces '&' 0 text).length then
        .intersection ((memberTexts '&' text).attach.map fun ⟨p, _⟩ => parseChars p)
      else ofWord (String.ofList text)
termination_by cs.length
decreasing_by
  all_goals
    have h₁ := length_collapse_le cs
    have h₂ := length_dropOuterParens_le (collapse cs)
    rw [_h] at h₂
  · simp only [List.length_cons] at h₂
    omega
  · have h₃ := length_lt_of_mem_memberTexts ‹_› _hu
    omega
  · have h₃ := length_lt_of_mem_memberTexts ‹_› _hi
    omega

def parse (text : String) : TypeExpr :=
  parseChars text.toList

end ContractCheck.TypeExpr
