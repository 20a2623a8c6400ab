import ContractCheck.Proofs.Hierarchy.Subtype
import ContractCheck.Proofs.Sample

/-!
Transitivity of subtyping. It holds but for one spelling: a full name that is `never` in other letter
case counts as below `never`, while only `never` itself counts as below everything. An import can
bring such a name in. Main statement: of three types in a row the first is below the third exactly if
the third takes every such name that the first offers.
-/
namespace ContractCheck

open Text

namespace TypeExpr

/-- Induction on the members of unions and intersections. -/
theorem members_induction {P : TypeExpr → Prop}
    (plain : ∀ t, (∀ ms, t ≠ .union ms) → (∀ ms, t ≠ .intersection ms) → P t)
    (union : ∀ ms, (∀ m ∈ ms, P m) → P (.union ms))
    (intersection : ∀ ms, (∀ m ∈ ms, P m) → P (.intersection ms)) (t : TypeExpr) : P t := by
  match t with
  | .union ms => exact union ms fun m hm => members_induction plain union intersection m
  | .intersection ms =>
    exact intersection ms fun m hm => members_induction plain union intersection m
  | .absent | .named _ | .nullable _ | .self | .static | .parent | .void | .mixed =>
    exact plain _ nofun nofun
termination_by sizeOf t
decreasing_by
  all_goals
    have hlt := List.sizeOf_lt_of_mem hm
    simp only [TypeExpr.union.sizeOf_spec, TypeExpr.intersection.sizeOf_spec]
    omega

inductive Part (x : TypeExpr) : TypeExpr → Prop
  | here : Part x x
  | union {m : TypeExpr} {ms : List TypeExpr} (hm : m ∈ ms) (h : Part x m) : Part x (.union ms)
  | intersection {m : TypeExpr} {ms : List TypeExpr} (hm : m ∈ ms) (h : Part x m) :
      Part x (.intersection ms)

inductive Offers (x : TypeExpr) : TypeExpr → Prop
  | here : Offers x x
  | union {m : TypeExpr} {ms : List TypeExpr} (hm : m ∈ ms) (h : Offers x m) : Offers x (.union ms)

def ClassIntersections (t : TypeExpr) : Prop :=
  ∀ ms, Part (.intersection ms) t → ∀ m ∈ ms, ∃ n, m = .named n ∧ isScalarName (lower n) = false

def FullNames (t : TypeExpr) : Prop :=
  ∀ n, Part (.named n) t → Unslashed n

/-- A name that is `never` in other letter case. -/
structure Misspelt (n : String) : Prop where
  same : lower n = "never"
  other : n ≠ "never"

inductive TakesNever : TypeExpr → Prop
  | mixed : TakesNever .mixed
  | named {n : String} (hn : lower n = "never") : TakesNever (.named n)
  | union {m : TypeExpr} {ms : List TypeExpr} (hm : m ∈ ms) (h : TakesNever m) :
      TakesNever (.union ms)
  | intersection {ms : List TypeExpr} (h : ∀ m ∈ ms, TakesNever m) : TakesNever (.intersection ms)

theorem takesNever_of_offers {n : String} {t : TypeExpr} (hn : lower n = "never")
    (h : Offers (.named n) t) : t.TakesNever := by
  induction h with
  | here => exact .named hn
  | union hm _ ih => exact .union hm ih

theorem single_intersection (ms : List TypeExpr) : (intersection ms).Single :=
  ⟨by simp, by simp, by simp, by simp⟩

theorem single_named {n : String} (hn : n ≠ "never") : (named n).Single :=
  ⟨by simp, by simpa using hn, by simp, by simp⟩

theorem fullNames_named {n : String} (hn : Unslashed n) : (named n).FullNames := by
  intro m h
  cases h with
  | here => exact hn

theorem fullNames_union {ms : List TypeExpr} (h : ∀ m ∈ ms, m.FullNames) :
    (union ms).FullNames := by
  intro n hn
  cases hn with
  | union hm hn => exact h _ hm n hn

theorem fullNames_intersection {ms : List TypeExpr} (h : ∀ m ∈ ms, m.FullNames) :
    (intersection ms).FullNames := by
  intro n hn
  cases hn with
  | intersection hm hn => exact h _ hm n hn

end TypeExpr

open TypeExpr

namespace Registry

mutual

/-- In a scope with full names, a canonical type has full names only. -/
theorem fullNames_canonicalize {r : Registry} (hr : r.WellKeyed) {scope : Scope}
    (hs : scope.Canonical) : (t : TypeExpr) → (r.canonicalize scope t).FullNames
  | .named name => fullNames_named (unslashed_resolve hr hs name)
  | .self => by
    rw [canonicalize]
    cases hc : scope.className with
    | none => exact nofun
    | some c => exact fullNames_named (hs.className c hc)
  | .static => by
    rw [canonicalize]
    cases hc : scope.className with
    | none => exact nofun
    | some c => exact fullNames_named (hs.className c hc)
  | .parent => by
    rw [canonicalize]
    split
    · exact fullNames_named (unslashed_resolvePlain hr hs _)
    · exact nofun
  | .nullable inner => by
    refine fullNames_union ?_
    intro m hm
    rcases List.mem_cons.1 hm with rfl | hm
    · exact fullNames_canonicalize hr hs inner
    · rw [List.mem_singleton.1 hm]
      exact fullNames_named (by decide)
  | .union members => fullNames_union (fullNames_canonicalizeAll hr hs members)
  | .intersection members => fullNames_intersection (fullNames_canonicalizeAll hr hs members)
  | .absent => nofun
  | .void => nofun
  | .mixed => nofun

theorem fullNames_canonicalizeAll {r : Registry} (hr : r.WellKeyed) {scope : Scope}
    (hs : scope.Canonical) : (ts : List TypeExpr) → ∀ m ∈ r.canonicalizeAll scope ts, m.FullNames
  | [] => nofun
  | t :: ts => by
    intro m hm
    rcases List.mem_cons.1 hm with rfl | hm
    · exact fullNames_canonicalize hr hs t
    · exact fullNames_canonicalizeAll hr hs ts m hm

end

end Registry

namespace Hierarchy

/-- To be below whatever a type is below, it is enough to be so where that is atomic. -/
theorem sub_of_atoms {h : Hierarchy} {a b : TypeExpr} (ha : a.Single) (hb : b.Single)
    (hab : h.Sub a b) (hatoms : ∀ t, t.Atomic → h.Sub b t → h.Sub a t) {c : TypeExpr}
    (hbc : h.Sub b c) : h.Sub a c := by
  induction c using members_induction with
  | plain t hunion hinter =>
    by_cases hv : t = .void
    · exact absurd (hv ▸ hbc) (h.not_sub_void hb)
    · by_cases hm : t = .mixed
      · exact hm ▸ h.sub_mixed ha
      · exact hatoms t ⟨hunion, hinter, hv, hm⟩ hbc
  | union ms ih =>
    obtain ⟨m, hm, hbm⟩ := (h.sub_union_iff hb ms).1 hbc
    exact (h.sub_union_iff ha ms).2 ⟨m, hm, ih m hm hbm⟩
  | intersection ms ih =>
    rcases (h.sub_intersection_iff hb ms).1 hbc with rfl | hall
    · exact hab
    · exact (h.sub_intersection_iff ha ms).2 (Or.inr fun m hm => ih m hm (hall m hm))

section

variable {r : Registry}

/-- No class-like is below `never`, but the name itself is, in any letter case. -/
theorem below_never_iff (a : String) : r.Below a "never" ↔ lower a = "never" := by
  have hnever : lower "never" = "never" := by decide +kernel
  constructor
  · intro h
    cases h with
    | same h => exact h.trans hnever
    | truth _ hb | array _ hb | object _ hb | traversable _ _ hb | closure _ _ hb =>
      exact absurd (hnever.symm.trans hb) (by decide)
    | descends _ _ hb => exact absurd (hnever ▸ hb) (by decide)
  · intro h
    exact .same (h.trans hnever.symm)

theorem lower_eq_of_never_below {a b : String} (ha : lower a = "never") (hab : r.Below a b) :
    lower b = "never" := by
  cases hab with
  | same h => exact h.symm.trans ha
  | truth ha' => exact absurd (ha ▸ ha') (by decide)
  | array ha' => exact absurd (ha ▸ ha') (by decide)
  | object hc | traversable hc | closure hc | descends hc => exact absurd (ha ▸ hc.named) (by decide)

theorem unslashed_of_lower {n s : String} (h : lower n = s) (hs : Unslashed s) : Unslashed n :=
  (unslashed_lower_iff n).1 (h ▸ hs)

/-- What is below a full name, and what a full name is below, is a full name too. -/
theorem unslashed_of_below (hr : r.WellKeyed) {a b : String} (ha : Unslashed a)
    (hab : r.Below a b) : Unslashed b := by
  cases hab with
  | same h => exact unslashed_congr h ha
  | truth _ hb | array _ hb | object _ hb | traversable _ _ hb | closure _ _ hb =>
    exact unslashed_of_lower hb (by decide)
  | descends _ hd _ =>
    have hdesc := (isDescendant_iff hr ha b).2 hd
    rcases (isDescendant_iff_exists _ a b).1 hdesc with h | ⟨n, hn, h⟩
    · exact unslashed_congr h ha
    · exact unslashed_congr h (Registry.unslashed_of_mem_ancestors hr hn)

theorem misspelt_sub_iff (hr : r.WellKeyed) {n : String} (hn : Misspelt n) (t : TypeExpr) :
    (ofRegistry r).Sub (.named n) t ↔ t.TakesNever := by
  have hsingle := single_named hn.other
  induction t using members_induction with
  | plain t hunion hinter =>
    by_cases hv : t = .void
    · subst hv
      exact ⟨fun h => absurd h (not_sub_void _ hsingle), nofun⟩
    by_cases hm : t = .mixed
    · subst hm
      exact ⟨fun _ => .mixed, fun _ => sub_mixed _ hsingle⟩
    rw [named_sub_iff hr (unslashed_of_lower hn.same (by decide)) hn.other ⟨hunion, hinter, hv, hm⟩]
    constructor
    · rintro ⟨b, rfl, hb⟩
      exact .named (lower_eq_of_never_below hn.same hb)
    · intro h
      cases h with
      | mixed => exact absurd rfl hm
      | @named b hb => exact ⟨b, rfl, .same (hn.same.trans hb.symm)⟩
      | union => exact absurd rfl (hunion _)
      | intersection => exact absurd rfl (hinter _)
  | union ms ih =>
    rw [sub_union_iff _ hsingle]
    constructor
    · rintro ⟨m, hm, h⟩
      exact .union hm ((ih m hm).1 h)
    · intro h
      cases h with
      | union hm h => exact ⟨_, hm, (ih _ hm).2 h⟩
  | intersection ms ih =>
    rw [sub_intersection_iff _ hsingle]
    constructor
    · rintro (h | h)
      · cases h
      · exact .intersection fun m hm => (ih m hm).1 (h m hm)
    · intro h
      cases h with
      | intersection h => exact Or.inr fun m hm => (ih m hm).2 (h m hm)

/-- A type that stands for values of one kind each and is not a misspelt `never` is not below
`never`. -/
theorem not_sub_never (hr : r.WellKeyed) {a : TypeExpr} (ha : a.Single) (hfull : a.FullNames)
    (hinter : a.ClassIntersections) (hspelt : ∀ n, a = .named n → ¬ Misspelt n) :
    ¬ (ofRegistry r).Sub a (.named "never") := by
  have hatomic : Atomic (.named "never") := ⟨nofun, nofun, nofun, nofun⟩
  intro hsub
  cases a with
  | named n =>
    have hne : n ≠ "never" := by simpa using ha.never
    obtain ⟨b, hb, hbelow⟩ := (named_sub_iff hr (hfull n .here) hne hatomic).1 hsub
    cases hb
    exact hspelt n rfl ⟨(below_never_iff n).1 hbelow, hne⟩
  | intersection ms =>
    obtain ⟨m, hm, hsub⟩ := (intersection_sub_iff _ ms hatomic).1 hsub
    obtain ⟨n, rfl, hscalar⟩ := hinter ms .here m hm
    have hne : n ≠ "never" := by
      rintro rfl
      exact absurd hscalar (by decide +kernel)
    obtain ⟨b, hb, hbelow⟩ :=
      (named_sub_iff hr (hfull n (.intersection hm .here)) hne hatomic).1 hsub
    cases hb
    rw [(below_never_iff n).1 hbelow] at hscalar
    exact absurd hscalar (by decide)
  | union ms => exact ha.union ms rfl
  | void => exact ha.void rfl
  | mixed => exact ha.mixed rfl
  | absent | nullable | self | static | parent =>
    exact absurd ((sub_iff_eq _ ha nofun nofun hatomic).1 hsub) nofun

/-- Names in a row, where the last two are below what no rule takes apart. -/
theorem named_sub_trans (hr : r.WellKeyed) {n : String} (hn : Unslashed n) (hne : n ≠ "never")
    {b t : TypeExpr} (hb : b.Atomic) (hbne : b ≠ .named "never") (ht : t.Atomic)
    (hab : (ofRegistry r).Sub (.named n) b) (hbt : (ofRegistry r).Sub b t) :
    (ofRegistry r).Sub (.named n) t := by
  obtain ⟨m, rfl, hnm⟩ := (named_sub_iff hr hn hne hb).1 hab
  have hm : m ≠ "never" := by simpa using hbne
  obtain ⟨k, rfl, hmk⟩ := (named_sub_iff hr (unslashed_of_below hr hn hnm) hm ht).1 hbt
  exact (named_sub_iff hr hn hne ht).2 ⟨k, rfl, hnm.trans hmk⟩

theorem sub_trans_atomic (hr : r.WellKeyed) {a b t : TypeExpr} (ha : a.Single)
    (hfull : a.FullNames) (hinter : a.ClassIntersections) (hb : b.Atomic)
    (hbne : b ≠ .named "never") (ht : t.Atomic) (hab : (ofRegistry r).Sub a b)
    (hbt : (ofRegistry r).Sub b t) : (ofRegistry r).Sub a t := by
  cases a with
  | named n =>
    exact named_sub_trans hr (hfull n .here) (by simpa using ha.never) hb hbne ht hab hbt
  | intersection ms =>
    obtain ⟨m, hm, hmb⟩ := (intersection_sub_iff _ ms hb).1 hab
    obtain ⟨n, rfl, hscalar⟩ := hinter ms .here m hm
    have hne : n ≠ "never" := by
      rintro rfl
      exact absurd hscalar (by decide +kernel)
    have hn : Unslashed n := hfull n (.intersection hm .here)
    exact (intersection_sub_iff _ ms ht).2
      ⟨.named n, hm, named_sub_trans hr hn hne hb hbne ht hmb hbt⟩
  | union ms => exact absurd rfl (ha.union ms)
  | void => exact absurd rfl ha.void
  | mixed => exact absurd rfl ha.mixed
  | absent | nullable | self | static | parent =>
    rwa [(sub_iff_eq _ ha nofun nofun hb).1 hab]

/-- Transitivity where the first type stands for values of one kind each. The induction is on the
type in the middle. -/
theorem sub_trans_single (hr : r.WellKeyed) {a b c : TypeExpr} (ha : a.Single)
    (hfull : a.FullNames) (hinter : a.ClassIntersections) (hspelt : ∀ n, a = .named n → ¬ Misspelt n)
    (hab : (ofRegistry r).Sub a b) (hbc : (ofRegistry r).Sub b c) : (ofRegistry r).Sub a c := by
  induction b using members_induction generalizing c with
  | plain b hunion hinter' =>
    by_cases hv : b = .void
    · exact absurd (hv ▸ hab) (not_sub_void _ ha)
    by_cases hm : b = .mixed
    · rw [(mixed_sub_iff _ c).1 (hm ▸ hbc)]
      exact sub_mixed _ ha
    have hne : b ≠ .named "never" := by
      rintro rfl
      exact not_sub_never hr ha hfull hinter hspelt hab
    have hatomic : b.Atomic := ⟨hunion, hinter', hv, hm⟩
    exact sub_of_atoms ha ⟨hunion, hne, hv, hm⟩ hab
      (fun t ht hbt => sub_trans_atomic hr ha hfull hinter hatomic hne ht hab hbt) hbc
  | union ms ih =>
    obtain ⟨m, hm, ham⟩ := (sub_union_iff _ ha ms).1 hab
    rcases (union_sub_iff _ ms c).1 hbc with rfl | hall
    · exact hab
    · exact ih m hm ham (hall m hm)
  | intersection ms ih =>
    rcases (sub_intersection_iff _ ha ms).1 hab with rfl | hall
    · exact hbc
    · refine sub_of_atoms ha (single_intersection ms) hab ?_ hbc
      intro t ht hbt
      obtain ⟨m, hm, hmt⟩ := (intersection_sub_iff _ ms ht).1 hbt
      exact ih m hm (hall m hm) hmt

/-- Transitivity, if the last type takes each misspelt `never` that the first one offers. -/
theorem sub_trans (hr : r.WellKeyed) {a b c : TypeExpr} (hfull : a.FullNames)
    (hinter : a.ClassIntersections)
    (hspelt : ∀ n, Offers (.named n) a → Misspelt n → c.TakesNever)
    (hab : (ofRegistry r).Sub a b) (hbc : (ofRegistry r).Sub b c) : (ofRegistry r).Sub a c := by
  induction a using members_induction with
  | plain a hunion _ =>
    by_cases hv : a = .void
    · rw [(void_sub_iff _ b).1 (hv ▸ hab)] at hbc
      exact hv ▸ hbc
    by_cases hm : a = .mixed
    · rw [(mixed_sub_iff _ b).1 (hm ▸ hab)] at hbc
      exact hm ▸ hbc
    by_cases hn : a = .named "never"
    · exact hn ▸ never_sub _ c
    by_cases hmis : ∃ n, a = .named n ∧ Misspelt n
    · obtain ⟨n, rfl, hmisspelt⟩ := hmis
      exact (misspelt_sub_iff hr hmisspelt c).2 (hspelt n .here hmisspelt)
    · exact sub_trans_single hr ⟨hunion, hn, hv, hm⟩ hfull hinter
        (fun n hn hmisspelt => hmis ⟨n, hn, hmisspelt⟩) hab hbc
  | union ms ih =>
    rcases (union_sub_iff _ ms b).1 hab with rfl | hall
    · exact hbc
    · refine (union_sub_iff _ ms c).2 (Or.inr fun m hm => ?_)
      exact ih m hm (fun n hn => hfull n (.union hm hn))
        (fun ms' hms => hinter ms' (.union hm hms)) (fun n hn => hspelt n (.union hm hn))
        (hall m hm)
  | intersection ms _ =>
    exact sub_trans_single hr (single_intersection ms) hfull hinter nofun hab hbc

/-- A type is only below what takes each misspelt `never` that it offers. -/
theorem takesNever_of_sub (hr : r.WellKeyed) {a c : TypeExpr} {n : String}
    (hoffers : Offers (.named n) a) (hn : Misspelt n) (hac : (ofRegistry r).Sub a c) :
    c.TakesNever := by
  induction hoffers with
  | here => exact (misspelt_sub_iff hr hn c).1 hac
  | @union m ms hm hoffers ih =>
    rcases (union_sub_iff _ ms c).1 hac with rfl | hall
    · exact takesNever_of_offers hn.same (.union hm hoffers)
    · exact ih (hall m hm)

end

/-- Of three types in a row, the first of them canonical, the first is below the third exactly if
the third takes each misspelt `never` that the first one offers. -/
theorem subtype_trans_iff {r : Registry} (hr : r.Indexed) {scope : Scope} (hs : scope.Canonical)
    (t b c : TypeExpr) (hinter : (r.canonicalize scope t).ClassIntersections)
    (hab : ((ofRegistry r).subtype (r.canonicalize scope t) b).value = true)
    (hbc : ((ofRegistry r).subtype b c).value = true) :
    ((ofRegistry r).subtype (r.canonicalize scope t) c).value = true ↔
      ∀ n, Offers (.named n) (r.canonicalize scope t) → Misspelt n → c.TakesNever := by
  have hkeyed := hr.wellKeyed
  constructor
  · intro hac n hoffers hn
    exact takesNever_of_sub hkeyed hoffers hn hac
  · intro hspelt
    exact sub_trans hkeyed (Registry.fullNames_canonicalize hkeyed hs t) hinter hspelt hab hbc

def classBelowInterface : Registry :=
  Sample.registry [Sample.classLike "interface_declaration" "I" [] [] [],
    Sample.classLike "class_declaration" "A" [] ["I"] []]

theorem subtype_trans_iff_nullable :
    classBelowInterface.canonicalize {} (.nullable (.named "a")) =
        .union [.named "A", .named "null"] ∧
      ((ofRegistry classBelowInterface).subtype (.union [.named "A", .named "null"])
        (.union [.named "null", .named "object"])).value = true := by
  have hcanonical : classBelowInterface.canonicalize {} (.nullable (.named "a")) =
      .union [.named "A", .named "null"] := by decide +kernel
  have h := subtype_trans_iff (Sample.indexed_registry _) (r := classBelowInterface)
    (show Scope.Canonical {} from ⟨nofun, nofun⟩) (.nullable (.named "a"))
    (.union [.named "I", .named "null"]) (.union [.named "null", .named "object"])
  rw [hcanonical] at h
  refine ⟨hcanonical, (h ?_ (by decide +kernel) (by decide +kernel)).2 ?_⟩
  · intro ms hpart
    cases hpart with
    | union hm hpart =>
      simp only [List.mem_cons, List.not_mem_nil, or_false] at hm
      rcases hm with rfl | rfl <;> cases hpart
  · intro n hoffers hn
    cases hoffers with
    | union hm hoffers =>
      simp only [List.mem_cons, List.not_mem_nil, or_false] at hm
      rcases hm with rfl | rfl <;> cases hoffers <;> exact absurd hn.same (by decide +kernel)

/-- An import that stands in a comment counts. So `N` stands for `Never` in the class. -/
def importsNever : Registry :=
  Sample.registry [
    Sample.node "namespace_use_declaration" "" "use X /*, Never as N, */;" [],
    Sample.classLike "class_declaration" "C" [] [] []]

theorem subtype_not_trans_misspelt :
    ∃ d, importsNever.class? "C" = some d ∧ d.scope.Canonical ∧
      importsNever.canonicalize d.scope (.named "N") = .named "Never" ∧
      ((ofRegistry importsNever).subtype (.named "Never") (.named "never")).value = true ∧
      ((ofRegistry importsNever).subtype (.named "never") (.named "int")).value = true ∧
      ((ofRegistry importsNever).subtype (.named "Never") (.named "int")).value = false := by
  have hsome : (importsNever.class? "C").isSome := by decide +kernel
  have hnamed : ∀ d ∈ importsNever.class? "C",
      importsNever.canonicalize d.scope (.named "N") = .named "Never" := by decide +kernel
  obtain ⟨d, hd⟩ := Option.isSome_iff_exists.1 hsome
  refine ⟨d, hd, ?_, hnamed d hd, by decide +kernel, by decide +kernel, by decide +kernel⟩
  exact Registry.canonical_scope_of_class? (Sample.indexed_registry _).wellKeyed hd

end Hierarchy

end ContractCheck
