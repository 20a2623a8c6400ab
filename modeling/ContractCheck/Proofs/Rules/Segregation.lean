import ContractCheck.Rules.Segregation
import ContractCheck.Proofs.Hierarchy.OwnMethods

/-!
The rules on interfaces, applied once. Only one of them reports fat interfaces: it reports those
that have too many methods and were not reported before, and remembers them.
-/
namespace ContractCheck

open Text TracedOrCycle

def Violation.isFatOn (key : String) : Violation → Bool
  | .segregation _ interface (.fat _ _) => lower interface = key
  | _ => false

theorem Traced.lawfulMonad : LawfulMonad Traced :=
  LawfulMonad.mk' Traced (fun x => congrArg (Traced.mk x.value) (List.append_nil x.events))
    (fun _ _ => rfl) fun x _ _ => congrArg (Traced.mk _) (List.append_assoc x.events _ _)

theorem TracedOrCycle.exists_of_mem_mapM {α β : Type} {f : α → TracedOrCycle β} {l : List α}
    {bs : List β} (h : Gives (l.mapM f) bs) {b : β} (hb : b ∈ bs) : ∃ a ∈ l, Gives (f a) b := by
  induction l generalizing bs with
  | nil =>
    rw [List.mapM_nil, gives_pure_iff] at h
    subst h
    cases hb
  | cons a l ih =>
    have hlawful := Traced.lawfulMonad
    rw [List.mapM_cons, gives_bind_iff] at h
    obtain ⟨c, hc, h⟩ := h
    obtain ⟨cs, hcs, h⟩ := (gives_bind_iff _ _ _).1 h
    rw [gives_pure_iff] at h
    subst h
    cases List.mem_cons.1 hb with
    | inl heq => exact ⟨a, List.mem_cons_self, heq ▸ hc⟩
    | inr hin =>
      obtain ⟨a', ha', hb'⟩ := ih hcs hin
      exact ⟨a', List.mem_cons_of_mem a ha', hb'⟩

namespace Hierarchy

variable {h : Hierarchy} {cls interface : ClassDecl} {found : List Violation} {v : Violation}

theorem not_isFatOn_of_mem_stubViolations (hfound : Gives (h.stubViolations cls interface) found)
    (hv : v ∈ found) (key : String) : v.isFatOn key = false := by
  rw [stubViolations, gives_bind_iff] at hfound
  obtain ⟨methods, _, hfound⟩ := hfound
  obtain ⟨kinds, hkinds, hfound⟩ := (gives_bind_iff _ _ _).1 hfound
  rw [gives_pure_iff] at hfound
  subst hfound
  obtain ⟨_, hmem, rfl⟩ := List.mem_filterMap.1 hv
  obtain ⟨m, _, hm⟩ := exists_of_mem_mapM hkinds hmem
  obtain ⟨kind, _, hm⟩ := (gives_bind_iff _ _ _).1 hm
  obtain ⟨_, _, rfl⟩ := Option.map_eq_some_iff.1 ((gives_pure_iff _ _).1 hm)
  rfl

theorem not_isFatOn_of_mem_unfinishedViolations
    (hfound : Gives (h.unfinishedViolations cls interface) found) (hv : v ∈ found) (key : String) :
    v.isFatOn key = false := by
  rw [unfinishedViolations, gives_bind_iff] at hfound
  obtain ⟨methods, _, hfound⟩ := hfound
  rw [gives_pure_iff] at hfound
  subst hfound
  obtain ⟨m, _, rfl⟩ := List.mem_map.1 hv
  rfl

def Fat (h : Hierarchy) (threshold : Int) (interface : ClassDecl) : Prop :=
  ∃ methods, Gives (h.methodsOf interface) methods ∧ threshold < methods.length

variable {threshold : Int} {before after : List String}

def measured (threshold : Int) (before : List String) (cls interface : ClassDecl)
    (methods : List Method) : List Violation × List String :=
  if methods.length ≤ threshold then ([], before)
  else ([.segregation cls.name interface.name (.fat (methods.map (·.name)) threshold)],
    lower interface.name :: before)

/-- The rule asks for the methods unless the interface was reported before. -/
theorem gives_fatViolations_iff {result : List Violation × List String} :
    Gives (h.fatViolations threshold before cls interface) result ↔
      (lower interface.name ∈ before ∧ ([], before) = result) ∨
      (lower interface.name ∉ before ∧ ∃ methods, Gives (h.methodsOf interface) methods ∧
        measured threshold before cls interface methods = result) := by
  rw [fatViolations]
  by_cases hknown : lower interface.name ∈ before
  · simp only [hknown, if_true, gives_pure_iff, true_and, not_true_eq_false, false_and, or_false]
  · simp only [hknown, if_false, false_and, false_or, not_false_eq_true, true_and]
    rw [gives_bind_iff]
    refine exists_congr fun methods => and_congr_right fun _ => ?_
    by_cases hsmall : (methods.length : Int) ≤ threshold
    · rw [if_pos hsmall, measured, if_pos hsmall, gives_pure_iff]
    · rw [if_neg hsmall, measured, if_neg hsmall, gives_bind_iff]
      constructor
      · intro hreport
        obtain ⟨_, _, hresult⟩ := hreport
        exact (gives_pure_iff _ _).1 hresult
      · intro hresult
        exact ⟨(), rfl, (gives_pure_iff _ _).2 hresult⟩

theorem fatViolations_cases
    (hgives : Gives (h.fatViolations threshold before cls interface) (found, after)) :
    (lower interface.name ∈ before ∧ found = [] ∧ after = before) ∨
    (lower interface.name ∉ before ∧ ¬ h.Fat threshold interface ∧ found = [] ∧ after = before) ∨
    (lower interface.name ∉ before ∧ h.Fat threshold interface ∧
      (∃ methods, found = [.segregation cls.name interface.name (.fat methods threshold)]) ∧
      after = lower interface.name :: before) := by
  cases gives_fatViolations_iff.1 hgives with
  | inl hknown =>
    obtain ⟨hknown, heq⟩ := hknown
    cases heq
    exact .inl ⟨hknown, rfl, rfl⟩
  | inr hnew =>
    obtain ⟨hnew, methods, hmethods, heq⟩ := hnew
    by_cases hsmall : (methods.length : Int) ≤ threshold
    · rw [measured, if_pos hsmall] at heq
      cases heq
      refine .inr (.inl ⟨hnew, ?_, rfl, rfl⟩)
      intro hfat
      obtain ⟨methods', hmethods', hlarge⟩ := hfat
      obtain rfl : methods = methods' := Except.ok.inj (hmethods.symm.trans hmethods')
      omega
    · rw [measured, if_neg hsmall] at heq
      cases heq
      exact .inr (.inr ⟨hnew, ⟨methods, hmethods, by omega⟩, ⟨_, rfl⟩, rfl⟩)

theorem mem_after_fatViolations
    (hgives : Gives (h.fatViolations threshold before cls interface) (found, after))
    (key : String) :
    key ∈ after ↔ key ∈ before ∨ lower interface.name = key ∧ h.Fat threshold interface := by
  obtain ⟨hknown, _, rfl⟩ | ⟨_, hthin, _, rfl⟩ | ⟨_, hfat, _, rfl⟩ := fatViolations_cases hgives
  · constructor
    · exact .inl
    · rintro (hin | ⟨rfl, _⟩)
      · exact hin
      · exact hknown
  · simp [hthin]
  · simp only [List.mem_cons, hfat, and_true, eq_comm (a := key), or_comm]

/-- An interface is reported just when it is remembered anew. -/
theorem countP_fatViolations
    (hgives : Gives (h.fatViolations threshold before cls interface) (found, after))
    (key : String) :
    found.countP (·.isFatOn key) = if key ∈ after ∧ key ∉ before then 1 else 0 := by
  obtain ⟨_, rfl, rfl⟩ | ⟨_, _, rfl, rfl⟩ | ⟨hnew, _, ⟨methods, rfl⟩, rfl⟩ :=
    fatViolations_cases hgives
  · simp
  · simp
  · by_cases hkey : lower interface.name = key
    · subst hkey
      simp [Violation.isFatOn, hnew]
    · simp [Violation.isFatOn, hkey, Ne.symm hkey]

theorem exists_gives_fatViolations_iff :
    (∃ result, Gives (h.fatViolations threshold before cls interface) result) ↔
      lower interface.name ∈ before ∨ ∃ methods, Gives (h.methodsOf interface) methods := by
  simp only [gives_fatViolations_iff]
  by_cases hknown : lower interface.name ∈ before
  · simp [hknown]
  · simp only [hknown, false_and, false_or, not_false_eq_true, true_and]
    rw [exists_comm]
    refine exists_congr fun methods => ?_
    simp

end Hierarchy

end ContractCheck
