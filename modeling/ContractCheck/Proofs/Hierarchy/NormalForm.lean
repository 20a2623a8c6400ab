import ContractCheck.Proofs.Hierarchy.Transitivity

/-!
Subtyping without an order of members. A type is read as its alternatives, each of which is read as
its parts; in this form one type is below another if each alternative is covered by one of the
other's. So it does not matter how the members of unions are ordered, repeated or grouped, nor how a
nullable type is written.
-/
namespace ContractCheck

open Text

namespace TypeExpr

mutual

def flat : TypeExpr → List TypeExpr
  | .union ms => flatAll ms
  | t => [t]

def flatAll : List TypeExpr → List TypeExpr
  | [] => []
  | t :: ts => t.flat ++ flatAll ts

end

def parts : TypeExpr → List TypeExpr
  | .intersection ms => ms
  | t => [t]

theorem mem_flatAll_iff (a : TypeExpr) (ms : List TypeExpr) :
    a ∈ flatAll ms ↔ ∃ m ∈ ms, a ∈ m.flat := by
  induction ms with
  | nil => simp [flatAll]
  | cons m ms ih => simp [flatAll, ih]

theorem mem_flat_union_iff (a : TypeExpr) (ms : List TypeExpr) :
    a ∈ (union ms).flat ↔ ∃ m ∈ ms, a ∈ m.flat := by
  rw [flat, mem_flatAll_iff]

theorem flat_eq_self {t : TypeExpr} (ht : ∀ ms, t ≠ .union ms) : t.flat = [t] := by
  cases t with
  | union ms => exact absurd rfl (ht ms)
  | _ => rfl

theorem not_union_of_mem_flat {a t : TypeExpr} (ha : a ∈ t.flat) (ms : List TypeExpr) :
    a ≠ .union ms := by
  induction t using members_induction with
  | plain t hunion _ =>
    rw [flat_eq_self hunion, List.mem_singleton] at ha
    exact ha ▸ hunion ms
  | union ns ih =>
    obtain ⟨m, hm, ha⟩ := (mem_flat_union_iff a ns).1 ha
    exact ih m hm ha
  | intersection ns _ =>
    rw [flat_eq_self (by simp), List.mem_singleton] at ha
    simp [ha]

theorem Part.trans {x y z : TypeExpr} (hxy : Part x y) (hyz : Part y z) : Part x z := by
  induction hyz with
  | here => exact hxy
  | union hm _ ih => exact .union hm ih
  | intersection hm _ ih => exact .intersection hm ih

theorem part_of_mem_flat {a t : TypeExpr} (ha : a ∈ t.flat) : Part a t := by
  induction t using members_induction with
  | plain t hunion _ =>
    rw [flat_eq_self hunion, List.mem_singleton] at ha
    exact ha ▸ .here
  | union ns ih =>
    obtain ⟨m, hm, ha⟩ := (mem_flat_union_iff a ns).1 ha
    exact .union hm (ih m hm ha)
  | intersection ns _ =>
    rw [flat_eq_self (by simp), List.mem_singleton] at ha
    exact ha ▸ .here

/-- What is no union stands inside one of the alternatives. -/
theorem exists_mem_flat_of_part {x t : TypeExpr} (hx : ∀ ms, x ≠ .union ms) (h : Part x t) :
    ∃ a ∈ t.flat, Part x a := by
  induction h with
  | here => exact ⟨x, by simp [flat_eq_self hx], .here⟩
  | @union m ms hm _ ih =>
    obtain ⟨a, ha, hpart⟩ := ih
    exact ⟨a, (mem_flat_union_iff a ms).2 ⟨m, hm, ha⟩, hpart⟩
  | @intersection m ms hm h _ => exact ⟨.intersection ms, by simp [flat], .intersection hm h⟩

/-- A type in which `void` and `mixed` only stand alone, and the members of intersections are
neither unions nor intersections. -/
structure WellFormed (t : TypeExpr) : Prop where
  void : Part .void t → t = .void
  mixed : Part .mixed t → t = .mixed
  members : ∀ ms, Part (.intersection ms) t →
    ∀ m ∈ ms, (∀ xs, m ≠ .union xs) ∧ ∀ xs, m ≠ .intersection xs

structure Joinable (t : TypeExpr) : Prop where
  wellFormed : t.WellFormed
  void : t ≠ .void
  mixed : t ≠ .mixed

theorem WellFormed.joinable {c a : TypeExpr} (hc : c.WellFormed) (hv : c ≠ .void)
    (hm : c ≠ .mixed) (ha : a ∈ c.flat) : a.Joinable := by
  have hpart := part_of_mem_flat ha
  have hvoid : ¬ Part .void a := fun h => hv (hc.void (h.trans hpart))
  have hmixed : ¬ Part .mixed a := fun h => hm (hc.mixed (h.trans hpart))
  refine ⟨⟨fun h => absurd h hvoid, fun h => absurd h hmixed, ?_⟩, ?_, ?_⟩
  · intro ms h
    exact hc.members ms (h.trans hpart)
  · intro h
    exact hvoid (h ▸ .here)
  · intro h
    exact hmixed (h ▸ .here)

theorem wellFormed_union_iff (ms : List TypeExpr) :
    (union ms).WellFormed ↔ ∀ a ∈ (union ms).flat, a.Joinable := by
  constructor
  · intro h a ha
    exact h.joinable (by simp) (by simp) ha
  · intro h
    refine ⟨?_, ?_, ?_⟩
    · intro hpart
      obtain ⟨a, ha, hpart⟩ := exists_mem_flat_of_part (by simp) hpart
      exact absurd ((h a ha).wellFormed.void hpart) (h a ha).void
    · intro hpart
      obtain ⟨a, ha, hpart⟩ := exists_mem_flat_of_part (by simp) hpart
      exact absurd ((h a ha).wellFormed.mixed hpart) (h a ha).mixed
    · intro xs hpart
      obtain ⟨a, ha, hpart⟩ := exists_mem_flat_of_part (by simp) hpart
      exact (h a ha).wellFormed.members xs hpart

theorem joinable_named (n : String) : (named n).Joinable := by
  refine ⟨⟨fun hp => ?_, fun hp => ?_, fun ms hp => ?_⟩, by simp, by simp⟩ <;> cases hp

theorem joinable_intersection {ms : List TypeExpr} (hms : ∀ m ∈ ms, ∃ n, m = named n) :
    (intersection ms).Joinable := by
  have hpart : ∀ x : TypeExpr, (∀ n, x ≠ named n) → Part x (intersection ms) →
      x = intersection ms := by
    intro x hx hp
    cases hp with
    | here => rfl
    | intersection hm hp =>
      obtain ⟨n, rfl⟩ := hms _ hm
      cases hp
      exact absurd rfl (hx n)
  refine ⟨⟨?_, ?_, ?_⟩, by simp, by simp⟩
  · intro hp
    exact (hpart .void (by simp) hp).symm
  · intro hp
    exact (hpart .mixed (by simp) hp).symm
  · intro xs hxs m hm
    cases hpart (.intersection xs) (by simp) hxs
    obtain ⟨n, rfl⟩ := hms m hm
    exact ⟨by simp, by simp⟩

/-- The parts of an alternative are what no rule takes apart. -/
theorem Joinable.atomic_of_mem_parts {a x : TypeExpr} (ha : a.Joinable)
    (hunion : ∀ ms, a ≠ .union ms) (hx : x ∈ a.parts) : x.Atomic := by
  cases a with
  | intersection ms =>
    have hxms : x ∈ ms := hx
    have hsimple := ha.wellFormed.members ms .here x hxms
    refine ⟨hsimple.1, hsimple.2, ?_, ?_⟩
    · intro h
      exact absurd (ha.wellFormed.void (.intersection hxms (h ▸ .here))) (by simp)
    · intro h
      exact absurd (ha.wellFormed.mixed (.intersection hxms (h ▸ .here))) (by simp)
  | union ms => exact absurd rfl (hunion ms)
  | void => exact absurd rfl ha.void
  | mixed => exact absurd rfl ha.mixed
  | absent | named | nullable | self | static | parent =>
    simp only [parts, List.mem_singleton] at hx
    subst hx
    exact ⟨by simp, by simp, by simp, by simp⟩

/-- The members of unions, in any place, are ordered, repeated or grouped in another way, or a
nullable type is written as a union with `null`. -/
inductive Rearranged : TypeExpr → TypeExpr → Prop
  | refl (t : TypeExpr) : Rearranged t t
  | symm {t u : TypeExpr} (h : Rearranged t u) : Rearranged u t
  | trans {t u v : TypeExpr} (h : Rearranged t u) (h' : Rearranged u v) : Rearranged t v
  | permute {ms ns : List TypeExpr} (h : ms.Perm ns) : Rearranged (.union ms) (.union ns)
  | duplicate {m : TypeExpr} {ms : List TypeExpr} (hm : m ∈ ms) :
      Rearranged (.union ms) (.union (m :: ms))
  | regroup (front inner back : List TypeExpr) :
      Rearranged (.union (front ++ .union inner :: back)) (.union (front ++ inner ++ back))
  | nullLast (t : TypeExpr) : Rearranged (.nullable t) (.union [t, .named "null"])
  | nullFirst (t : TypeExpr) : Rearranged (.nullable t) (.union [.named "null", t])
  | member {t u : TypeExpr} (front back : List TypeExpr) (h : Rearranged t u) :
      Rearranged (.union (front ++ t :: back)) (.union (front ++ u :: back))
  | inner {t u : TypeExpr} (h : Rearranged t u) : Rearranged (.nullable t) (.nullable u)

def SameAlternatives (t u : TypeExpr) : Prop :=
  t = u ∨ ((∃ ms, t = .union ms) ∧ (∃ ms, u = .union ms) ∧ ∀ a, a ∈ t.flat ↔ a ∈ u.flat)

namespace SameAlternatives

theorem mem_flat_iff {t u : TypeExpr} (h : SameAlternatives t u) (a : TypeExpr) :
    a ∈ t.flat ↔ a ∈ u.flat := by
  cases h with
  | inl h => rw [h]
  | inr h => exact h.2.2 a

theorem symm {t u : TypeExpr} (h : SameAlternatives t u) : SameAlternatives u t := by
  cases h with
  | inl h => exact Or.inl h.symm
  | inr h => exact Or.inr ⟨h.2.1, h.1, fun a => (h.2.2 a).symm⟩

theorem trans {t u v : TypeExpr} (h : SameAlternatives t u) (h' : SameAlternatives u v) :
    SameAlternatives t v := by
  cases h with
  | inl h => exact h ▸ h'
  | inr h =>
    cases h' with
    | inl h' => exact h' ▸ Or.inr h
    | inr h' => exact Or.inr ⟨h.1, h'.2.1, fun a => (h.2.2 a).trans (h'.2.2 a)⟩

theorem of_unions {ms ns : List TypeExpr}
    (h : ∀ a, (∃ m ∈ ms, a ∈ m.flat) ↔ ∃ m ∈ ns, a ∈ m.flat) :
    SameAlternatives (.union ms) (.union ns) := by
  refine Or.inr ⟨⟨ms, rfl⟩, ⟨ns, rfl⟩, ?_⟩
  intro a
  rw [mem_flat_union_iff, mem_flat_union_iff, h a]

/-- A type that is no union has only itself as such a type. -/
theorem eq_iff {t u x : TypeExpr} (h : SameAlternatives t u) (hx : ∀ ms, x ≠ .union ms) :
    t = x ↔ u = x := by
  cases h with
  | inl h => rw [h]
  | inr h =>
    obtain ⟨⟨ms, rfl⟩, ⟨ns, rfl⟩, _⟩ := h
    simp [Ne.symm (hx ms), Ne.symm (hx ns)]

theorem wellFormed {t u : TypeExpr} (h : SameAlternatives t u) (ht : t.WellFormed) :
    u.WellFormed := by
  cases h with
  | inl h => exact h ▸ ht
  | inr h =>
    obtain ⟨⟨ms, rfl⟩, ⟨ns, rfl⟩, hflat⟩ := h
    rw [wellFormed_union_iff] at ht ⊢
    intro a ha
    exact ht a ((hflat a).2 ha)

end SameAlternatives

end TypeExpr

open TypeExpr

namespace Registry

theorem resolve_null (r : Registry) (scope : Scope) : r.resolve scope "null" = "null" := by
  have hlower : lower (dropBackslashes (trimText "null")) = "null" := by decide +kernel
  have hscalar : isScalarName "null" = true := by decide
  simp only [resolve, hlower, hscalar, if_true]

theorem canonicalizeAll_eq_map (r : Registry) (scope : Scope) (ms : List TypeExpr) :
    r.canonicalizeAll scope ms = ms.map (r.canonicalize scope) := by
  induction ms with
  | nil => rfl
  | cons m ms ih => rw [canonicalizeAll, ih, List.map_cons]

theorem canonicalize_union (r : Registry) (scope : Scope) (ms : List TypeExpr) :
    r.canonicalize scope (.union ms) = .union (ms.map (r.canonicalize scope)) := by
  rw [canonicalize, canonicalizeAll_eq_map]

theorem canonicalize_nullable (r : Registry) (scope : Scope) (t : TypeExpr) :
    r.canonicalize scope (.nullable t) = .union [r.canonicalize scope t, .named "null"] := by
  rw [canonicalize]

theorem canonicalize_named_null (r : Registry) (scope : Scope) :
    r.canonicalize scope (.named "null") = .named "null" := by
  rw [canonicalize, resolve_null]

/-- Rearranging a declared type keeps the alternatives of the canonical one. -/
theorem sameAlternatives_canonicalize (r : Registry) (scope : Scope) {t u : TypeExpr}
    (h : Rearranged t u) : SameAlternatives (r.canonicalize scope t) (r.canonicalize scope u) := by
  induction h with
  | refl => exact Or.inl rfl
  | symm _ ih => exact ih.symm
  | trans _ _ ih ih' => exact ih.trans ih'
  | permute h =>
    rw [canonicalize_union, canonicalize_union]
    apply SameAlternatives.of_unions
    intro a
    simp [h.mem_iff]
  | @duplicate m ms hm =>
    rw [canonicalize_union, canonicalize_union]
    apply SameAlternatives.of_unions
    intro a
    simp only [List.map_cons, List.exists_mem_cons_iff, List.mem_map, exists_exists_and_eq_and]
    constructor
    · exact Or.inr
    · intro ha
      cases ha with
      | inl ha => exact ⟨m, hm, ha⟩
      | inr ha => exact ha
  | regroup front inner back =>
    rw [canonicalize_union, canonicalize_union]
    apply SameAlternatives.of_unions
    intro a
    simp only [List.map_append, List.map_cons, List.mem_append, List.mem_cons, or_and_right,
      exists_or, exists_eq_left, canonicalize_union, mem_flat_union_iff, or_assoc]
  | nullLast t =>
    rw [canonicalize_union, canonicalize_nullable, List.map_cons, List.map_cons, List.map_nil,
      canonicalize_named_null]
    exact Or.inl rfl
  | nullFirst t =>
    rw [canonicalize_union, canonicalize_nullable, List.map_cons, List.map_cons, List.map_nil,
      canonicalize_named_null]
    apply SameAlternatives.of_unions
    intro a
    simp [or_comm]
  | member front back h ih =>
    rw [canonicalize_union, canonicalize_union]
    apply SameAlternatives.of_unions
    intro a
    simp only [List.map_append, List.map_cons, List.mem_append, List.mem_cons, or_and_right,
      exists_or, exists_eq_left, ih.mem_flat_iff a]
  | inner h ih =>
    rw [canonicalize_nullable, canonicalize_nullable]
    apply SameAlternatives.of_unions
    intro a
    simp [ih.mem_flat_iff a]

end Registry

namespace Hierarchy

def NamedBelow (h : Hierarchy) (a b : TypeExpr) : Prop :=
  ∃ m n, a = .named m ∧ b = .named n ∧ (h.namedSubtype m n).value = true

def Meets (h : Hierarchy) (a b : TypeExpr) : Prop :=
  ∀ b' ∈ b.parts, ∃ a' ∈ a.parts, a' = b' ∨ a' = .named "never" ∨ h.NamedBelow a' b'

def NormalForm (h : Hierarchy) (c t : TypeExpr) : Prop :=
  if t = .mixed then c ≠ .void
  else if c = .void ∨ c = .mixed ∨ t = .void then
    c = t ∨ (c ≠ .void ∧ c ≠ .mixed ∧ ∀ a ∈ c.flat, a = .named "never")
  else ∀ a ∈ c.flat, a = .named "never" ∨ ∃ b ∈ t.flat, h.Meets a b

theorem atomic_sub_iff (h : Hierarchy) {a b : TypeExpr} (ha : a.Atomic) (hb : b.Atomic) :
    h.Sub a b ↔ a = b ∨ a = .named "never" ∨ h.NamedBelow a b := by
  by_cases hnever : a = .named "never"
  · simp [hnever, never_sub]
  have hsingle : a.Single := ⟨ha.union, hnever, ha.void, ha.mixed⟩
  by_cases hnamed : ∃ m n, a = .named m ∧ b = .named n
  · obtain ⟨m, n, rfl, rfl⟩ := hnamed
    by_cases hmn : m = n
    · simp [hmn, sub_refl]
    · have hm : m ≠ "never" := by simpa using hnever
      rw [Sub, subtype.eq_def]
      simp [NamedBelow, hmn, hm]
  · have hother : ¬ h.NamedBelow a b := by
      intro hbelow
      obtain ⟨m, n, ha, hb, _⟩ := hbelow
      exact hnamed ⟨m, n, ha, hb⟩
    simp only [hnever, hother, or_false]
    by_cases hname : ∃ m, a = .named m
    · obtain ⟨m, rfl⟩ := hname
      have hne : ∀ n, b ≠ .named n := fun n hn => hnamed ⟨m, n, rfl, hn⟩
      have hm : m ≠ "never" := by simpa using hnever
      cases b with
      | named n => exact absurd rfl (hne n)
      | union ms => exact absurd rfl (hb.union ms)
      | intersection ms => exact absurd rfl (hb.intersection ms)
      | void => exact absurd rfl hb.void
      | mixed => exact absurd rfl hb.mixed
      | absent | nullable | self | static | parent =>
        rw [Sub, subtype.eq_def]
        simp [hm]
    · exact h.sub_iff_eq hsingle (fun m hm => hname ⟨m, hm⟩) ha.intersection hb

/-- Below what no rule takes apart is what has a part below it. -/
theorem sub_atomic_iff (h : Hierarchy) {a b : TypeExpr} (ha : a.Joinable)
    (hunion : ∀ ms, a ≠ .union ms) (hb : b.Atomic) :
    h.Sub a b ↔ ∃ a' ∈ a.parts, a' = b ∨ a' = .named "never" ∨ h.NamedBelow a' b := by
  have hparts : h.Sub a b ↔ ∃ a' ∈ a.parts, h.Sub a' b := by
    cases a with
    | intersection ms => exact h.intersection_sub_iff ms hb
    | union ms => exact absurd rfl (hunion ms)
    | _ => simp [parts]
  rw [hparts]
  apply exists_congr
  intro x
  apply and_congr_right
  intro hx
  exact h.atomic_sub_iff (ha.atomic_of_mem_parts hunion hx) hb

theorem meets_self (h : Hierarchy) (a : TypeExpr) : h.Meets a a :=
  fun b' hb' => ⟨b', hb', Or.inl rfl⟩

theorem joinable_sub_iff (h : Hierarchy) {a b : TypeExpr} (ha : a.Joinable) (hsingle : a.Single)
    (hb : b.Joinable) (hbunion : ∀ ms, b ≠ .union ms) : h.Sub a b ↔ h.Meets a b := by
  have hatoms : ∀ b' ∈ b.parts, (h.Sub a b' ↔
      ∃ a' ∈ a.parts, a' = b' ∨ a' = .named "never" ∨ h.NamedBelow a' b') := by
    intro b' hb'
    exact h.sub_atomic_iff ha hsingle.union (hb.atomic_of_mem_parts hbunion hb')
  have hmeets : h.Meets a b ↔ ∀ b' ∈ b.parts, h.Sub a b' := by
    apply forall₂_congr
    intro b' hb'
    rw [hatoms b' hb']
  cases b with
  | intersection ms =>
    rw [h.sub_intersection_iff hsingle, hmeets]
    constructor
    · intro hsub
      cases hsub with
      | inl heq =>
        -- a type that is the intersection itself meets it, part by part
        subst heq
        exact hmeets.1 (h.meets_self _)
      | inr hall => exact hall
    · exact Or.inr
  | union ms => exact absurd rfl (hbunion ms)
  | _ => simp [hmeets, parts]

theorem single_of_joinable {a : TypeExpr} (ha : a.Joinable) (hunion : ∀ ms, a ≠ .union ms)
    (hnever : a ≠ .named "never") : a.Single :=
  ⟨hunion, hnever, ha.void, ha.mixed⟩

/-- A target is reached through one of its alternatives. -/
theorem sub_iff_exists_flat (h : Hierarchy) {a : TypeExpr} (ha : a.Single) (t : TypeExpr) :
    h.Sub a t ↔ ∃ b ∈ t.flat, h.Sub a b := by
  induction t using members_induction with
  | plain t hunion _ => simp [flat_eq_self hunion]
  | union ms ih =>
    rw [h.sub_union_iff ha]
    simp only [mem_flat_union_iff]
    constructor
    · rintro ⟨m, hm, hsub⟩
      obtain ⟨b, hb, hsub⟩ := (ih m hm).1 hsub
      exact ⟨b, ⟨m, hm, hb⟩, hsub⟩
    · rintro ⟨b, ⟨m, hm, hb⟩, hsub⟩
      exact ⟨m, hm, (ih m hm).2 ⟨b, hb, hsub⟩⟩
  | intersection ms _ => simp [flat]

/-- Every alternative of a type is below it. -/
theorem sub_of_mem_flat (h : Hierarchy) {a t : TypeExpr} (ha : a.Joinable) (hat : a ∈ t.flat) :
    h.Sub a t := by
  by_cases hnever : a = .named "never"
  · exact hnever ▸ h.never_sub t
  · have hsingle := single_of_joinable ha (not_union_of_mem_flat hat) hnever
    exact (h.sub_iff_exists_flat hsingle t).2 ⟨a, hat, h.sub_refl a⟩

/-- A type is below another one if all its alternatives are, equal types included. -/
theorem sub_iff_forall_flat (h : Hierarchy) {c : TypeExpr} (hc : ∀ a ∈ c.flat, a.Joinable)
    (t : TypeExpr) : h.Sub c t ↔ ∀ a ∈ c.flat, h.Sub a t := by
  induction c using members_induction with
  | plain c hunion _ => simp [flat_eq_self hunion]
  | union ms ih =>
    have hmembers : ∀ m ∈ ms, ∀ a ∈ m.flat, a.Joinable := fun m hm a ha =>
      hc a ((mem_flat_union_iff a ms).2 ⟨m, hm, ha⟩)
    rw [h.union_sub_iff]
    constructor
    · intro hsub a ha
      cases hsub with
      | inl heq => exact heq ▸ h.sub_of_mem_flat (hc a ha) ha
      | inr hall =>
        obtain ⟨m, hm, ham⟩ := (mem_flat_union_iff a ms).1 ha
        exact (ih m hm (hmembers m hm)).1 (hall m hm) a ham
    · intro hall
      refine Or.inr fun m hm => ?_
      refine (ih m hm (hmembers m hm)).2 fun a ha => ?_
      exact hall a ((mem_flat_union_iff a ms).2 ⟨m, hm, ha⟩)
  | intersection ms _ => simp [flat]

theorem sub_mixed_iff (h : Hierarchy) {c : TypeExpr} (hc : c.WellFormed) :
    h.Sub c .mixed ↔ c ≠ .void := by
  by_cases hv : c = .void
  · simp [hv, h.void_sub_iff]
  by_cases hm : c = .mixed
  · simp [hm, h.sub_refl]
  have halt : ∀ a ∈ c.flat, a.Joinable := fun a ha => hc.joinable hv hm ha
  simp only [h.sub_iff_forall_flat halt, hv, ne_eq, not_false_eq_true, iff_true]
  intro a ha
  by_cases hnever : a = .named "never"
  · exact hnever ▸ h.never_sub _
  · exact h.sub_mixed (single_of_joinable (halt a ha) (not_union_of_mem_flat ha) hnever)

theorem sub_void_iff (h : Hierarchy) {c : TypeExpr} (hc : ∀ a ∈ c.flat, a.Joinable) :
    h.Sub c .void ↔ ∀ a ∈ c.flat, a = .named "never" := by
  rw [h.sub_iff_forall_flat hc]
  apply forall₂_congr
  intro a ha
  constructor
  · intro hsub
    by_contra hnever
    exact h.not_sub_void (single_of_joinable (hc a ha) (not_union_of_mem_flat ha) hnever) hsub
  · intro hnever
    exact hnever ▸ h.never_sub _

theorem sub_iff_normalForm (h : Hierarchy) {c t : TypeExpr} (hc : c.WellFormed)
    (ht : t.WellFormed) : h.Sub c t ↔ h.NormalForm c t := by
  rw [NormalForm]
  by_cases htm : t = .mixed
  · rw [if_pos htm, htm, h.sub_mixed_iff hc]
  rw [if_neg htm]
  by_cases hcv : c = .void
  · simp [hcv, h.void_sub_iff, eq_comm]
  by_cases hcm : c = .mixed
  · simp [hcm, h.mixed_sub_iff, eq_comm]
  have halt : ∀ a ∈ c.flat, a.Joinable := fun a ha => hc.joinable hcv hcm ha
  by_cases htv : t = .void
  · simp [htv, hcv, hcm, h.sub_void_iff halt]
  · have hnone : ¬ (c = .void ∨ c = .mixed ∨ t = .void) := by simp [hcv, hcm, htv]
    rw [if_neg hnone, h.sub_iff_forall_flat halt]
    apply forall₂_congr
    intro a ha
    by_cases hnever : a = .named "never"
    · simp [hnever, h.never_sub]
    · have hunion := not_union_of_mem_flat ha
      have hsingle := single_of_joinable (halt a ha) hunion hnever
      simp only [hnever, false_or]
      rw [h.sub_iff_exists_flat hsingle]
      apply exists_congr
      intro b
      apply and_congr_right
      intro hb
      exact h.joinable_sub_iff (halt a ha) hsingle (ht.joinable htv htm hb)
        (not_union_of_mem_flat hb)

/-- The normal form does not see how members are arranged. -/
theorem normalForm_congr (h : Hierarchy) {c c' t t' : TypeExpr} (hc : SameAlternatives c c')
    (ht : SameAlternatives t t') : h.NormalForm c t ↔ h.NormalForm c' t' := by
  have hcv := hc.eq_iff (x := .void) (by simp)
  have hcm := hc.eq_iff (x := .mixed) (by simp)
  have htv := ht.eq_iff (x := .void) (by simp)
  have htm := ht.eq_iff (x := .mixed) (by simp)
  simp only [NormalForm, ne_eq, htm, hcv, hcm, htv, hc.mem_flat_iff, ht.mem_flat_iff]
  by_cases h₁ : t' = .mixed
  · simp [h₁]
  by_cases h₂ : c' = .void
  · simp only [h₁, h₂, if_false, true_or, if_true, hcv.2 h₂]
    simp [eq_comm, htv]
  by_cases h₃ : c' = .mixed
  · simp only [h₁, h₃, if_false, true_or, or_true, if_true, hcm.2 h₃]
    simp [eq_comm, htm]
  by_cases h₄ : t' = .void
  · simp only [h₄, or_true, if_true, htv.2 h₄, hcv]
  · simp [h₁, h₂, h₃, h₄]

/-- Subtyping of well-formed types is decided by their alternatives and the parts of these, in no
order; so rearranging the members of declared types changes no verdict. -/
theorem subtype_eq_normal_form (h : Hierarchy) :
    (∀ c t : TypeExpr, c.WellFormed → t.WellFormed →
      ((h.subtype c t).value = true ↔ h.NormalForm c t)) ∧
    ∀ (c c' t t' : TypeExpr) (s s' : Scope), Rearranged c c' → Rearranged t t' →
      (h.registry.canonicalize s c).WellFormed → (h.registry.canonicalize s' t).WellFormed →
      (h.typeSubtype c s t s').value = (h.typeSubtype c' s t' s').value := by
  constructor
  · intro c t hc ht
    exact h.sub_iff_normalForm hc ht
  · intro c c' t t' s s' hc ht hwc hwt
    have hcs := h.registry.sameAlternatives_canonicalize s hc
    have hts := h.registry.sameAlternatives_canonicalize s' ht
    have hleft := h.sub_iff_normalForm hwc hwt
    have hright := h.sub_iff_normalForm (hcs.wellFormed hwc) (hts.wellFormed hwt)
    rw [Bool.eq_iff_iff]
    exact hleft.trans ((h.normalForm_congr hcs hts).trans hright.symm)

theorem subtype_eq_normal_form_nullable :
    let h := ofRegistry classBelowInterface
    let c : TypeExpr := .union [.named "A", .named "null"]
    let t : TypeExpr := .union [.named "null", .intersection [.named "I", .named "object"]]
    h.registry.canonicalize {} (.nullable (.named "a")) = c ∧ h.NormalForm c t ∧
      (h.typeSubtype (.nullable (.named "a")) {} (.union [.named "I", .named "null"]) {}).value =
        (h.typeSubtype (.union [.named "null", .named "a"]) {}
          (.union [.named "null", .union [.named "I", .named "null"]]) {}).value := by
  intro h c t
  have hnames : ∀ ms : List TypeExpr, (∀ m ∈ ms, ∃ n, m = named n) → (union ms).WellFormed := by
    intro ms hms
    rw [wellFormed_union_iff]
    intro a ha
    obtain ⟨m, hm, ha⟩ := (mem_flat_union_iff a ms).1 ha
    obtain ⟨n, rfl⟩ := hms m hm
    rw [flat_eq_self (by simp), List.mem_singleton] at ha
    exact ha ▸ joinable_named n
  have hc : c.WellFormed := hnames _ (by simp)
  have ht : t.WellFormed := by
    rw [wellFormed_union_iff]
    intro a ha
    simp only [flat, flatAll, List.append_nil, List.cons_append, List.nil_append, List.mem_cons,
      List.not_mem_nil, or_false] at ha
    cases ha with
    | inl ha => exact ha ▸ joinable_named "null"
    | inr ha => exact ha ▸ joinable_intersection (by simp)
  have hcanonical : h.registry.canonicalize {} (.nullable (.named "a")) = c := by decide +kernel
  have htarget : h.registry.canonicalize {} (.union [.named "I", .named "null"]) =
      .union [.named "I", .named "null"] := by decide +kernel
  obtain ⟨hverdict, hrearranged⟩ := subtype_eq_normal_form h
  refine ⟨hcanonical, (hverdict c t hc ht).1 (by decide +kernel), ?_⟩
  apply hrearranged
  · exact .nullFirst _
  · exact .trans (.duplicate (m := .named "null") (by simp)) (.symm (.regroup [.named "null"] _ []))
  · rw [hcanonical]
    exact hc
  · rw [htarget]
    exact hnames _ (by simp)

end Hierarchy

end ContractCheck
