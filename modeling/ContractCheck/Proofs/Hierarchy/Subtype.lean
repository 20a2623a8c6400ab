import ContractCheck.Hierarchy.Subtype
import ContractCheck.Proofs.Hierarchy.Resolution

/-!
What subtyping decides, shape by shape: unions are decided by their members, names by descent and the
few rules for scalar names.
-/
namespace ContractCheck

open Text

namespace TypeExpr

theorem isScalarName_iff (name : String) : isScalarName name = true ↔ name ∈ scalarNames := by
  simp [isScalarName]

end TypeExpr

open TypeExpr (isScalarName)

namespace Registry

structure ClassLike (r : Registry) (name : String) : Prop where
  named : isScalarName (lower name) = false
  known : r.isKnown name = true

theorem isKnown_congr (r : Registry) {a b : String} (h : lower a = lower b) :
    r.isKnown a = r.isKnown b := by
  simp only [isKnown, hasClass, class?, Builtin.name?, nameKey_congr h]

theorem ClassLike.congr {r : Registry} {a b : String} (h : lower a = lower b)
    (ha : r.ClassLike a) : r.ClassLike b :=
  ⟨h ▸ ha.named, (r.isKnown_congr h) ▸ ha.known⟩

def Descends (r : Registry) (a b : String) : Prop :=
  Relation.ReflTransGen r.Extends (lower a) (lower b)

inductive Below (r : Registry) (a b : String) : Prop
  | same (h : lower a = lower b)
  | truth (ha : lower a = "true" ∨ lower a = "false") (hb : lower b = "bool")
  | array (ha : lower a = "array") (hb : lower b = "iterable")
  | object (ha : r.ClassLike a) (hb : lower b = "object")
  | traversable (ha : r.ClassLike a) (hd : r.Descends a "Traversable") (hb : lower b = "iterable")
  | closure (ha : r.ClassLike a) (hd : r.Descends a "Closure") (hb : lower b = "callable")
  | descends (ha : r.ClassLike a) (hd : r.Descends a b) (hb : isScalarName (lower b) = false)

theorem Below.congr_left {r : Registry} {a b c : String} (h : lower a = lower b)
    (hbc : r.Below b c) : r.Below a c := by
  cases hbc with
  | same hc => exact .same (h.trans hc)
  | truth hb hc => exact .truth (h ▸ hb) hc
  | array hb hc => exact .array (h.trans hb) hc
  | object hb hc => exact .object (hb.congr h.symm) hc
  | traversable hb hd hc => exact .traversable (hb.congr h.symm) (by rwa [Descends, h]) hc
  | closure hb hd hc => exact .closure (hb.congr h.symm) (by rwa [Descends, h]) hc
  | descends hb hd hc => exact .descends (hb.congr h.symm) (by rwa [Descends, h]) hc

theorem Below.congr_right {r : Registry} {a b c : String} (h : lower b = lower c)
    (hab : r.Below a b) : r.Below a c := by
  cases hab with
  | same ha => exact .same (ha.trans h)
  | truth ha hb => exact .truth ha (h ▸ hb)
  | array ha hb => exact .array ha (h ▸ hb)
  | object ha hb => exact .object ha (h ▸ hb)
  | traversable ha hd hb => exact .traversable ha hd (h ▸ hb)
  | closure ha hd hb => exact .closure ha hd (h ▸ hb)
  | descends ha hd hb => exact .descends ha (by rwa [Descends, ← h]) (h ▸ hb)

/-- The scalar names that have others below them have nothing above them. -/
theorem Below.eq_of_top {r : Registry} {b c : String}
    (hb : lower b ∈ ["bool", "iterable", "object", "callable"]) (hbc : r.Below b c) :
    lower b = lower c := by
  have hscalar : isScalarName (lower b) = true := by
    have hall : ∀ n ∈ ["bool", "iterable", "object", "callable"], isScalarName n = true := by decide
    exact hall _ hb
  cases hbc with
  | same h => exact h
  | truth hb' => rcases hb' with hb' | hb' <;> simp [hb'] at hb
  | array hb' => simp [hb'] at hb
  | object hb' | traversable hb' | closure hb' | descends hb' => simp [hb'.named] at hscalar

/-- Of three names in a row the first is below the last. -/
theorem Below.trans {r : Registry} {a b c : String} (hab : r.Below a b) (hbc : r.Below b c) :
    r.Below a c := by
  have htop : lower b ∈ ["bool", "iterable", "object", "callable"] → r.Below a c := fun hb =>
    hab.congr_right (hbc.eq_of_top hb)
  cases hab with
  | same h => exact hbc.congr_left h
  | truth ha hb => exact htop (by simp [hb])
  | array ha hb => exact htop (by simp [hb])
  | object ha hb => exact htop (by simp [hb])
  | traversable ha hd hb => exact htop (by simp [hb])
  | closure ha hd hb => exact htop (by simp [hb])
  | descends ha hd hb =>
    cases hbc with
    | same h => exact (Below.descends ha hd hb).congr_right h
    | truth hb' => rcases hb' with hb' | hb' <;> simp [hb', isScalarName, TypeExpr.scalarNames] at hb
    | array hb' => simp [hb', isScalarName, TypeExpr.scalarNames] at hb
    | object _ hc => exact .object ha hc
    | traversable _ hd' hc => exact .traversable ha (hd.trans hd') hc
    | closure _ hd' hc => exact .closure ha (hd.trans hd') hc
    | descends _ hd' hc => exact .descends ha (hd.trans hd') hc

end Registry

namespace Hierarchy

open Registry (Below ClassLike Descends)

theorem namedSubtype_iff {r : Registry} (hr : r.WellKeyed) {a : String} (ha : Unslashed a)
    (b : String) : ((ofRegistry r).namedSubtype a b).value = true ↔ r.Below a b := by
  constructor
  · intro h
    rw [namedSubtype] at h
    split at h
    · exact .same ‹_›
    · split at h
      · split at h
        · exact .truth (by simpa using h) ‹_›
        · split at h
          · exact .array (by simpa using h) ‹_›
          · cases h
      · rename_i hscalar
        split at h
        · cases h
        · rename_i hknown
          have hclass : r.ClassLike a := ⟨by simpa using hscalar, by simpa [ofRegistry] using hknown⟩
          split at h
          · exact .object hclass ‹_›
          · split at h
            · exact .traversable hclass ((isDescendant_iff hr ha _).1 h) ‹_›
            · split at h
              · exact .closure hclass ((isDescendant_iff hr ha _).1 h) ‹_›
              · split at h
                · cases h
                · rename_i hother
                  exact .descends hclass ((isDescendant_iff hr ha _).1 h)
                    (Bool.eq_false_iff.2 hother)
  · intro h
    by_cases hab : lower a = lower b
    · simp [namedSubtype, hab]
    have hknown : r.ClassLike a → (ofRegistry r).registry.isKnown a = true := fun hc => hc.known
    cases h with
    | same h => exact absurd h hab
    | truth ha' hb =>
      rcases ha' with ha' | ha' <;>
        simp [namedSubtype, ha', hb, isScalarName, TypeExpr.scalarNames]
    | array ha' hb => simp [namedSubtype, ha', hb, isScalarName, TypeExpr.scalarNames]
    | object hc hb =>
      rw [namedSubtype, if_neg hab]
      simp [hc.named, hknown hc, hb]
    | traversable hc hd hb =>
      rw [namedSubtype, if_neg hab]
      simpa [hc.named, hknown hc, hb] using (isDescendant_iff hr ha _).2 hd
    | closure hc hd hb =>
      rw [namedSubtype, if_neg hab]
      simpa [hc.named, hknown hc, hb] using (isDescendant_iff hr ha _).2 hd
    | descends hc hd hb =>
      have hother : ∀ n ∈ TypeExpr.scalarNames, lower b ≠ n := by
        rintro n hn rfl
        simp [(TypeExpr.isScalarName_iff _).2 hn] at hb
      have hobject := hother "object" (by decide)
      have hiterable := hother "iterable" (by decide)
      have hcallable := hother "callable" (by decide)
      rw [namedSubtype, if_neg hab]
      simpa [hc.named, hknown hc, hb, hobject, hiterable, hcallable] using
        (isDescendant_iff hr ha _).2 hd

def Sub (h : Hierarchy) (c t : TypeExpr) : Prop :=
  (h.subtype c t).value = true

theorem sub_refl (h : Hierarchy) (t : TypeExpr) : h.Sub t t := by
  rw [Sub, subtype.eq_def, if_pos rfl]
  rfl

theorem everySubtype_iff (h : Hierarchy) (cs : List TypeExpr) (t : TypeExpr) :
    (h.everySubtype cs t).value = true ↔ ∀ c ∈ cs, h.Sub c t := by
  induction cs with
  | nil => simp [everySubtype]
  | cons c cs ih =>
    rw [everySubtype, Traced.value_bind, List.forall_mem_cons, ← ih, Sub]
    cases (h.subtype c t).value <;> simp

theorem someSubtype_iff (h : Hierarchy) (cs : List TypeExpr) (t : TypeExpr) :
    (h.someSubtype cs t).value = true ↔ ∃ c ∈ cs, h.Sub c t := by
  induction cs with
  | nil => simp [someSubtype]
  | cons c cs ih =>
    rw [someSubtype, Traced.value_bind, List.exists_mem_cons_iff, ← ih, Sub]
    cases (h.subtype c t).value <;> simp

theorem subtypeOfSome_iff (h : Hierarchy) (c : TypeExpr) (ts : List TypeExpr) :
    (h.subtypeOfSome c ts).value = true ↔ ∃ t ∈ ts, h.Sub c t := by
  induction ts with
  | nil => simp [subtypeOfSome]
  | cons t ts ih =>
    rw [subtypeOfSome, Traced.value_bind, List.exists_mem_cons_iff, ← ih, Sub]
    cases (h.subtype c t).value <;> simp

theorem subtypeOfEvery_iff (h : Hierarchy) (c : TypeExpr) (ts : List TypeExpr) :
    (h.subtypeOfEvery c ts).value = true ↔ ∀ t ∈ ts, h.Sub c t := by
  induction ts with
  | nil => simp [subtypeOfEvery]
  | cons t ts ih =>
    rw [subtypeOfEvery, Traced.value_bind, List.forall_mem_cons, ← ih, Sub]
    cases (h.subtype c t).value <;> simp

theorem union_sub_iff (h : Hierarchy) (ms : List TypeExpr) (t : TypeExpr) :
    h.Sub (.union ms) t ↔ .union ms = t ∨ ∀ m ∈ ms, h.Sub m t := by
  by_cases heq : .union ms = t
  · simp [heq, sub_refl]
  · rw [Sub, subtype.eq_def, if_neg heq]
    simp only [heq, false_or]
    exact h.everySubtype_iff ms t

theorem never_sub (h : Hierarchy) (t : TypeExpr) : h.Sub (.named "never") t := by
  rw [Sub, subtype.eq_def]
  split
  · rfl
  · simp

theorem void_sub_iff (h : Hierarchy) (t : TypeExpr) : h.Sub .void t ↔ t = .void := by
  constructor
  · intro hs
    rw [Sub, subtype.eq_def] at hs
    by_contra hne
    rw [if_neg (Ne.symm hne)] at hs
    by_cases hm : t = .mixed <;> simp [hm] at hs
  · rintro rfl
    exact h.sub_refl .void

theorem mixed_sub_iff (h : Hierarchy) (t : TypeExpr) : h.Sub .mixed t ↔ t = .mixed := by
  constructor
  · intro hs
    rw [Sub, subtype.eq_def] at hs
    by_contra hne
    rw [if_neg (Ne.symm hne)] at hs
    simp [hne] at hs
  · rintro rfl
    exact h.sub_refl .mixed

end Hierarchy

namespace TypeExpr

structure Single (t : TypeExpr) : Prop where
  union : ∀ ms, t ≠ .union ms
  never : t ≠ .named "never"
  void : t ≠ .void
  mixed : t ≠ .mixed

structure Atomic (t : TypeExpr) : Prop where
  union : ∀ ms, t ≠ .union ms
  intersection : ∀ ms, t ≠ .intersection ms
  void : t ≠ .void
  mixed : t ≠ .mixed

end TypeExpr

namespace Hierarchy

open TypeExpr (Single Atomic)

theorem sub_mixed (h : Hierarchy) {c : TypeExpr} (hc : c.Single) : h.Sub c .mixed := by
  rw [Sub, subtype.eq_def, if_neg hc.mixed]
  split
  · exact absurd rfl (hc.union _)
  · simp [hc.void]

theorem not_sub_void (h : Hierarchy) {c : TypeExpr} (hc : c.Single) : ¬ h.Sub c .void := by
  rw [Sub, subtype.eq_def, if_neg hc.void]
  split
  · exact absurd rfl (hc.union _)
  · simp [hc.never]

theorem sub_union_iff (h : Hierarchy) {c : TypeExpr} (hc : c.Single) (ms : List TypeExpr) :
    h.Sub c (.union ms) ↔ ∃ m ∈ ms, h.Sub c m := by
  rw [Sub, subtype.eq_def, if_neg (hc.union ms)]
  split
  · exact absurd rfl (hc.union _)
  · simp [hc.never, hc.void, hc.mixed, subtypeOfSome_iff]

theorem sub_intersection_iff (h : Hierarchy) {c : TypeExpr} (hc : c.Single) (ms : List TypeExpr) :
    h.Sub c (.intersection ms) ↔ c = .intersection ms ∨ ∀ m ∈ ms, h.Sub c m := by
  by_cases heq : c = .intersection ms
  · simp [heq, sub_refl]
  · rw [Sub, subtype.eq_def, if_neg heq]
    split
    · exact absurd rfl (hc.union _)
    · simp [hc.never, hc.void, hc.mixed, heq, subtypeOfEvery_iff]

theorem intersection_sub_iff (h : Hierarchy) (ms : List TypeExpr) {t : TypeExpr} (ht : t.Atomic) :
    h.Sub (.intersection ms) t ↔ ∃ m ∈ ms, h.Sub m t := by
  rw [Sub, subtype.eq_def, if_neg (Ne.symm (ht.intersection ms))]
  simp only [reduceCtorEq, if_false, ht.mixed, ht.void, or_self]
  split
  · exact absurd rfl (ht.union _)
  · exact absurd rfl (ht.intersection _)
  · exact h.someSubtype_iff ms t

theorem named_sub_iff {r : Registry} (hr : r.WellKeyed) {a : String} (ha : Unslashed a)
    (hne : a ≠ "never") {t : TypeExpr} (ht : t.Atomic) :
    (ofRegistry r).Sub (.named a) t ↔ ∃ b, t = .named b ∧ r.Below a b := by
  cases t with
  | named b =>
    simp only [TypeExpr.named.injEq, exists_eq_left']
    by_cases hab : a = b
    · subst hab
      exact ⟨fun _ => .same rfl, fun _ => sub_refl _ _⟩
    · rw [Sub, subtype.eq_def]
      simpa [hab, hne] using namedSubtype_iff hr ha b
  | union ms => exact absurd rfl (ht.union ms)
  | intersection ms => exact absurd rfl (ht.intersection ms)
  | void => exact absurd rfl ht.void
  | mixed => exact absurd rfl ht.mixed
  | absent | nullable | self | static | parent =>
    rw [Sub, subtype.eq_def]
    simp [hne]

/-- What is neither a name nor an intersection is only below itself. -/
theorem sub_iff_eq (h : Hierarchy) {c t : TypeExpr} (hc : c.Single) (hn : ∀ a, c ≠ .named a)
    (hi : ∀ ms, c ≠ .intersection ms) (ht : t.Atomic) : h.Sub c t ↔ c = t := by
  by_cases heq : c = t
  · simp [heq, sub_refl]
  · rw [Sub, subtype.eq_def, if_neg heq]
    simp only [heq, iff_false]
    split
    · exact absurd rfl (hc.union _)
    · simp only [hc.never, if_false, ht.mixed, hc.void, hc.mixed, ht.void, or_self]
      split
      · exact absurd rfl (ht.union _)
      · exact absurd rfl (ht.intersection _)
      · split
        · exact absurd rfl (hi _)
        · exact absurd rfl (hn _)
        · simp

end Hierarchy

end ContractCheck
