import ContractCheck.Rules.Substitution
import ContractCheck.Proofs.Hierarchy.Resolution
import ContractCheck.Proofs.Text.Cutting
import Mathlib.Data.List.Count

/-!
What the rule on exceptions reports for one method beside its contract: each exception once that is
announced or thrown and not excused. Names are read again for the verdict, and white space at their
end is lost on the way.
-/
namespace ContractCheck

namespace Text

def trimEnd (name : String) : String :=
  String.ofList (dropEndWhile isSpace name.toList)

theorem unslashed_trimEnd {name : String} (h : Unslashed name) : Unslashed (trimEnd name) := by
  have hprefix : dropEndWhile isSpace name.toList <+: name.toList := by
    rw [← List.reverse_suffix]
    simpa [dropEndWhile] using List.dropWhile_suffix isSpace (l := name.toList.reverse)
  obtain ⟨rest, hrest⟩ := hprefix
  rw [Unslashed, ← hrest] at h
  rw [Unslashed, trimEnd, String.toList_ofList]
  cases hd : dropEndWhile isSpace name.toList with
  | nil => simp
  | cons d ds => simpa [hd] using h

theorem dropBackslashes_trimText (name : String) :
    dropBackslashes (trimText ("\\" ++ name)) = dropBackslashes (trimEnd name) := by
  have hslash : isSpace '\\' = false := by decide
  have htrim : trim ('\\' :: name.toList) = '\\' :: dropEndWhile isSpace name.toList := by
    rw [trim, trimWhile, List.dropWhile_cons_of_neg (by simp [hslash]), dropEndWhile_cons hslash]
  simp [dropBackslashes, trimText, trimEnd, String.toList_append, htrim]

end Text

open Text

namespace Traced

theorem value_anyM {α : Type} (f : α → Traced Bool) (l : List α) :
    (l.anyM f).value = l.any fun a => (f a).value := by
  induction l with
  | nil => rfl
  | cons a l ih =>
    rw [List.anyM, value_bind, List.any_cons]
    cases (f a).value with
    | true => rfl
    | false => simpa using ih

theorem value_filterM {α : Type} (f : α → Traced Bool) (l : List α) :
    (l.filterM f).value = l.filter fun a => (f a).value := by
  have haux : ∀ acc, (l.filterAuxM f acc).value = (l.filter fun a => (f a).value).reverse ++ acc := by
    induction l with
    | nil => exact fun _ => rfl
    | cons a l ih =>
      intro acc
      rw [List.filterAuxM, value_bind, ih]
      cases hf : (f a).value <;> simp [hf]
  rw [List.filterM, value_bind, haux]
  simp

end Traced

namespace Hierarchy

def Excuses (h : Hierarchy) (allowed : List String) (exception : String) : Prop :=
  ∃ a ∈ allowed, lower exception = lower a ∨ ∃ n ∈ h.ancestorsOf exception, lower n = lower a

instance (h : Hierarchy) (allowed : List String) (exception : String) :
    Decidable (h.Excuses allowed exception) :=
  inferInstanceAs (Decidable (∃ a ∈ allowed, _ ∨ ∃ n ∈ h.ancestorsOf exception, _))

end Hierarchy

namespace Registry

/-- A full name that is resolved again loses the white space at its end. -/
theorem lower_resolve_full (r : Registry) {name : String} (h : Unslashed name) :
    lower (r.resolve {} ("\\" ++ name)) = lower (trimEnd name) := by
  have hname : dropBackslashes (trimText ("\\" ++ name)) = trimEnd name := by
    rw [dropBackslashes_trimText, dropBackslashes_of_unslashed (unslashed_trimEnd h)]
  have hhead : ("\\" ++ name).toList.head? = some '\\' := by simp [String.toList_append]
  have hscalars : ∀ n ∈ TypeExpr.scalarNames, lower n = n := by decide +kernel
  rw [resolve, hname]
  simp only [hhead, if_true]
  split
  · rename_i hscalar
    exact hscalars _ (by simpa [TypeExpr.isScalarName] using hscalar)
  · split
    · rfl
    · split <;> rfl

end Registry

namespace Hierarchy

variable {r : Registry}

theorem isDescendant_resolved {e a : String} (he : Unslashed e) (ha : Unslashed a) :
    ((ofRegistry r).isDescendant (r.resolve {} ("\\" ++ e)) (r.resolve {} ("\\" ++ a))).value = true ↔
      lower (trimEnd e) = lower (trimEnd a) ∨
        ∃ n ∈ r.ancestors (trimEnd e), lower n = lower (trimEnd a) := by
  have hkey := nameKey_congr (r.lower_resolve_full he)
  rw [isDescendant_iff_exists, r.lower_resolve_full he, r.lower_resolve_full ha]
  show _ ∨ (∃ n ∈ r.ancestors _, _) ↔ _
  rw [r.ancestors_congr hkey]

theorem allows_iff {allowed : List String} (ha : ∀ a ∈ allowed, Unslashed a) {e : String}
    (he : Unslashed e) :
    ((ofRegistry r).allows allowed e).value = true ↔
      (ofRegistry r).Excuses (allowed.map trimEnd) (trimEnd e) := by
  rw [allows, Excuses]
  by_cases hempty : allowed.isEmpty = true
  · rw [if_pos hempty, List.isEmpty_iff.1 hempty]
    simp
  · rw [if_neg hempty, isSubtype, Traced.value_anyM, List.any_map, List.any_eq_true]
    constructor
    · rintro ⟨a, hin, hdesc⟩
      exact ⟨trimEnd a, List.mem_map_of_mem hin, (isDescendant_resolved he (ha a hin)).1 hdesc⟩
    · rintro ⟨_, hmapped, hdesc⟩
      obtain ⟨a, hin, rfl⟩ := List.mem_map.1 hmapped
      exact ⟨a, hin, (isDescendant_resolved he (ha a hin)).2 hdesc⟩

end Hierarchy

namespace Violation

def announces (className method contract exception : String) : Violation → Bool
  | .substitution c m k (.announces e) =>
    c == className && m == method && k == contract && e == exception
  | _ => false

def throws (className method contract exception : String) : Violation → Bool
  | .substitution c m k (.throws e _) =>
    c == className && m == method && k == contract && e == exception
  | _ => false

def onExceptions : Violation → Bool
  | .substitution _ _ _ (.announces _) => true
  | .substitution _ _ _ (.throws _ _) => true
  | _ => false

end Violation

namespace Hierarchy

theorem value_exceptionViolations (h : Hierarchy) (o : Override) (thrown : Trace) :
    (h.exceptionViolations o thrown).value =
      ((h.registry.announced o.method).filter fun e =>
          !(h.allows (h.registry.announced o.contractMethod) e).value).map
        (fun e => o.violation (.announces e)) ++
      (thrown.entries.filter fun e =>
          !(h.allows (h.registry.announced o.contractMethod) e.1).value).map
        fun e => o.violation (.throws e.1 e.2) := by
  simp only [exceptionViolations, Traced.value_bind, Traced.value_filterM, Traced.value_pure]
  split <;> simp

theorem count_filter_of_nodup {l : List String} (hn : l.Nodup) {e : String} (he : e ∈ l)
    (p : String → Bool) : (l.filter p).count e = if p e then 1 else 0 := by
  by_cases hp : p e = true
  · rw [if_pos hp, List.count_filter hp]
    exact List.count_eq_one_of_mem hn he
  · rw [if_neg hp, List.count_eq_zero]
    exact fun hin => hp (List.mem_filter.1 hin).2

theorem countP_announces (h : Hierarchy) (o : Override) (thrown : Trace) {e : String}
    (hn : (h.registry.announced o.method).Nodup) (he : e ∈ h.registry.announced o.method) :
    (h.exceptionViolations o thrown).value.countP
        (Violation.announces o.cls.name o.method.name o.contract.name e) =
      if (h.allows (h.registry.announced o.contractMethod) e).value then 0 else 1 := by
  have hown : ∀ x, Violation.announces o.cls.name o.method.name o.contract.name e
      (o.violation (.announces x)) = (x == e) := by
    simp [Override.violation, Violation.announces]
  have hother : ∀ x : String × List Chain, Violation.announces o.cls.name o.method.name
      o.contract.name e (o.violation (.throws x.1 x.2)) = false := fun _ => rfl
  rw [value_exceptionViolations, List.countP_append, List.countP_map, List.countP_map]
  simp only [Function.comp_def, hown, hother, List.countP_false]
  rw [← List.count_eq_countP, count_filter_of_nodup hn he]
  cases (h.allows (h.registry.announced o.contractMethod) e).value <;> rfl

theorem countP_throws (h : Hierarchy) (o : Override) (thrown : Trace) {e : String}
    (hn : thrown.keys.Nodup) (he : e ∈ thrown.keys) :
    (h.exceptionViolations o thrown).value.countP
        (Violation.throws o.cls.name o.method.name o.contract.name e) =
      if (h.allows (h.registry.announced o.contractMethod) e).value then 0 else 1 := by
  have hown : ∀ x : String × List Chain, Violation.throws o.cls.name o.method.name
      o.contract.name e (o.violation (.throws x.1 x.2)) = (x.1 == e) := by
    simp [Override.violation, Violation.throws]
  have hother : ∀ x, Violation.throws o.cls.name o.method.name o.contract.name e
      (o.violation (.announces x)) = false := fun _ => rfl
  -- the entries that are left have the keys that are left
  have hkeys : ∀ p : String → Bool, (thrown.entries.filter fun x => p x.1).countP (fun x => x.1 == e) =
      (thrown.keys.filter p).count e := by
    intro p
    rw [Table.keys, List.filter_map, List.count_eq_countP, List.countP_map]
    rfl
  rw [value_exceptionViolations, List.countP_append, List.countP_map, List.countP_map]
  simp only [Function.comp_def, hown, hother, List.countP_false]
  rw [hkeys fun x => !(h.allows (h.registry.announced o.contractMethod) x).value,
    count_filter_of_nodup hn he]
  cases (h.allows (h.registry.announced o.contractMethod) e).value <;> rfl

theorem of_mem_exceptionViolations {h : Hierarchy} {o : Override} {thrown : Trace} {v : Violation}
    (hv : v ∈ (h.exceptionViolations o thrown).value) :
    (∃ e ∈ h.registry.announced o.method, v = o.violation (.announces e) ∧
        (h.allows (h.registry.announced o.contractMethod) e).value = false) ∨
      ∃ e ∈ thrown.entries, v = o.violation (.throws e.1 e.2) ∧
        (h.allows (h.registry.announced o.contractMethod) e.1).value = false := by
  rw [value_exceptionViolations] at hv
  cases List.mem_append.1 hv with
  | inl hv =>
    obtain ⟨e, he, rfl⟩ := List.mem_map.1 hv
    have hfilter := List.mem_filter.1 he
    exact Or.inl ⟨e, hfilter.1, rfl, by simpa using hfilter.2⟩
  | inr hv =>
    obtain ⟨e, he, rfl⟩ := List.mem_map.1 hv
    have hfilter := List.mem_filter.1 he
    exact Or.inr ⟨e, hfilter.1, rfl, by simpa using hfilter.2⟩

theorem onExceptions_of_mem_exceptionViolations {h : Hierarchy} {o : Override} {t : Trace}
    {v : Violation} (hv : v ∈ (h.exceptionViolations o t).value) : v.onExceptions = true := by
  cases of_mem_exceptionViolations hv with
  | inl hv =>
    obtain ⟨_, _, rfl, _⟩ := hv
    rfl
  | inr hv =>
    obtain ⟨_, _, rfl, _⟩ := hv
    rfl

theorem not_onExceptions_of_mem_returnViolations {h : Hierarchy} {o : Override} {v : Violation}
    (hv : v ∈ (h.returnViolations o).value) : v.onExceptions = false := by
  rw [returnViolations] at hv
  split at hv
  · cases hv
  · rw [Traced.value_bind] at hv
    split at hv
    · cases hv
    · rw [List.mem_singleton.1 hv]
      rfl

theorem not_onExceptions_of_mem_parameterViolationsFrom {h : Hierarchy} {o : Override}
    {pairs : List (Parameter × Parameter)} {position : Nat} {v : Violation}
    (hv : v ∈ (h.parameterViolationsFrom o position pairs).value) : v.onExceptions = false := by
  induction pairs generalizing position with
  | nil => cases hv
  | cons pair pairs ih =>
    rw [parameterViolationsFrom] at hv
    split at hv
    · rw [Traced.value_bind, Traced.value_bind] at hv
      exact ih hv
    · rw [Traced.value_bind, Traced.value_bind] at hv
      split at hv
      · exact ih hv
      · cases List.mem_cons.1 hv with
        | inl hv =>
          rw [hv]
          rfl
        | inr hv => exact ih hv

theorem not_onExceptions_of_mem_parameterViolations {h : Hierarchy} {o : Override} {v : Violation}
    (hv : v ∈ (h.parameterViolations o).value) : v.onExceptions = false := by
  rw [parameterViolations] at hv
  split at hv
  · exact not_onExceptions_of_mem_parameterViolationsFrom hv
  · cases hv

end Hierarchy

end ContractCheck
