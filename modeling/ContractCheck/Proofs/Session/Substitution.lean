import ContractCheck.Proofs.Rules.Exceptions
import ContractCheck.Proofs.Session.Memory
import ContractCheck.Proofs.Session.Overrides
import Mathlib.Data.List.Forall2

/-!
The check of a class against its contracts, as a session runs it. Main statement: what it reports on
exceptions are the violations of one override after the other, as the rule on exceptions finds them.
-/
namespace ContractCheck

open Text TracedOrCycle

namespace Session

def analyst (s : Session) : Nat :=
  s.substitution.memory.analyst (s.substitution.rules.idxOf .exceptions)

def thrown (s : Session) (cls : ClassDecl) (method : Method) : Trace :=
  ((Work.trace s.substitution.memory s.analyst method (some cls)).run s).1

theorem thrown_of_known {s : Session} {cls : ClassDecl} {method : Method} {t : Trace}
    (h : s.knownTrace? s.analyst (⟨method, some cls⟩ : Frame).memoKey = some t) :
    s.thrown cls method = t := by
  rw [thrown, Work.run_trace, h]

theorem Later.analyst {s s' : Session} (h : s.Later s') : s'.analyst = s.analyst := by
  rw [Session.analyst, Session.analyst, h.substitution]

theorem thrown_spec {s : Session} (hs : s.Current) {cls : ClassDecl} {method : Method}
    (hf : (⟨method, some cls⟩ : Frame).Declared s.registry) :
    ∃ f : Frame, f.Declared s.registry ∧ f.memoKey = (⟨method, some cls⟩ : Frame).memoKey ∧
      s.thrown cls method = ((Hierarchy.ofRegistry s.registry).trace f).value := by
  obtain ⟨hlater, hknown⟩ := Work.trace_spec hs s.substitution.memory s.analyst hf
  have htraces := hlater.current.traces _ _ _ hknown
  rwa [hlater.registry] at htraces

end Session

namespace Work

open Session

structure RuleReports (h : Hierarchy) (memory : Memory) (o : Override)
    (rule : SubstitutionRule × Nat) (found : List Violation) (s : Session) : Prop where
  exceptions : rule.1 = .exceptions → ∃ t,
    s.knownTrace? (memory.analyst rule.2) (⟨o.method, some o.cls⟩ : Frame).memoKey = some t ∧
      found = (h.exceptionViolations o t).value
  others : rule.1 ≠ .exceptions → ∀ v ∈ found, v.onExceptions = false

theorem RuleReports.mono {h : Hierarchy} {memory : Memory} {o : Override}
    {rule : SubstitutionRule × Nat} {found : List Violation} {s s' : Session}
    (hr : RuleReports h memory o rule found s) (hs : s.Later s') :
    RuleReports h memory o rule found s' := by
  refine ⟨?_, hr.others⟩
  intro hrule
  obtain ⟨t, ht, hfound⟩ := hr.exceptions hrule
  exact ⟨t, hs.traces _ _ t ht, hfound⟩

theorem run_applySubstitution (o : Override) (rule : SubstitutionRule) (place : Nat) (s : Session) :
    (applySubstitution o (rule, place)).run s =
      let m := s.substitution.memory
      match rule with
      | .exceptions =>
        let answer := (trace m (m.analyst place) o.method (some o.cls)).run s
        (ask m (·.exceptionViolations o answer.1)).run answer.2
      | .returnType => (ask m (·.returnViolations o)).run s
      | .parameterTypes => (ask m (·.parameterViolations o)).run s := by
  cases rule with
  | exceptions =>
    rw [applySubstitution, StateT.run_bind, StateT.run_get, pure_bind, StateT.run_bind]
    rfl
  | returnType => rw [applySubstitution, StateT.run_bind, StateT.run_get, pure_bind]
  | parameterTypes => rw [applySubstitution, StateT.run_bind, StateT.run_get, pure_bind]

theorem applySubstitution_spec {s s' : Session} (hs : s.Current) {o : Override}
    (hf : (⟨o.method, some o.cls⟩ : Frame).Declared s.registry) (rule : SubstitutionRule × Nat)
    {found : List Violation} (h : (applySubstitution o rule).run s = (found, s')) :
    s.Later s' ∧
      RuleReports (Hierarchy.ofRegistry s.registry) s.substitution.memory o rule found s' := by
  obtain ⟨rule, place⟩ := rule
  rw [run_applySubstitution] at h
  cases rule with
  | exceptions =>
    obtain ⟨hlater, hknown⟩ :=
      trace_spec hs s.substitution.memory (s.substitution.memory.analyst place) hf
    obtain ⟨hasked, hfound⟩ := run_ask hlater.current h
    rw [hlater.registry] at hfound
    refine ⟨hlater.trans hasked, ?_, fun hne => absurd rfl hne⟩
    intro _
    exact ⟨_, hasked.traces _ _ _ hknown, hfound⟩
  | returnType =>
    obtain ⟨hlater, rfl⟩ := run_ask hs h
    refine ⟨hlater, nofun, ?_⟩
    intro _ v hv
    exact Hierarchy.not_onExceptions_of_mem_returnViolations hv
  | parameterTypes =>
    obtain ⟨hlater, rfl⟩ := run_ask hs h
    refine ⟨hlater, nofun, ?_⟩
    intro _ v hv
    exact Hierarchy.not_onExceptions_of_mem_parameterViolations hv

theorem filter_others {found : List Violation} (h : ∀ v ∈ found, v.onExceptions = false) :
    found.filter (·.onExceptions) = [] := by
  rw [List.filter_eq_nil_iff]
  intro v hv
  simp [h v hv]

section

variable {h : Hierarchy} {memory : Memory} {o : Override} {s : Session}
  {rules : List SubstitutionRule} {n : Nat} {parts : List (List Violation)}

theorem filter_of_not_mem
    (hparts : List.Forall₂ (fun rule part => RuleReports h memory o rule part s) (rules.zipIdx n) parts)
    (hrules : SubstitutionRule.exceptions ∉ rules) :
    parts.flatten.filter (·.onExceptions) = [] := by
  induction rules generalizing n parts with
  | nil =>
    cases hparts
    rfl
  | cons rule rules ih =>
    rw [List.mem_cons, not_or] at hrules
    rw [List.zipIdx_cons] at hparts
    cases hparts with
    | cons hpart hparts =>
      rw [List.flatten_cons, List.filter_append, filter_others (hpart.others (Ne.symm hrules.1)),
        ih hparts hrules.2, List.append_nil]

/-- The rule on exceptions stands at one place of the list, and its part of the result is there. -/
theorem filter_of_count_eq_one
    (hparts : List.Forall₂ (fun rule part => RuleReports h memory o rule part s) (rules.zipIdx n) parts)
    (hrules : rules.count .exceptions = 1) :
    ∃ t, s.knownTrace? (memory.analyst (n + rules.idxOf .exceptions))
        (⟨o.method, some o.cls⟩ : Frame).memoKey = some t ∧
      parts.flatten.filter (·.onExceptions) = (h.exceptionViolations o t).value := by
  induction rules generalizing n parts with
  | nil => cases hrules
  | cons rule rules ih =>
    rw [List.zipIdx_cons] at hparts
    cases hparts with
    | cons hpart hparts =>
      rw [List.flatten_cons, List.filter_append]
      by_cases hrule : rule = .exceptions
      · subst hrule
        rw [List.count_cons_self, Nat.add_eq_right] at hrules
        obtain ⟨t, ht, hfound⟩ := hpart.exceptions rfl
        refine ⟨t, by simpa using ht, ?_⟩
        rw [filter_of_not_mem hparts (List.count_eq_zero.1 hrules), List.append_nil, hfound]
        exact List.filter_eq_self.2 fun v hv =>
          Hierarchy.onExceptions_of_mem_exceptionViolations hv
      · rw [List.count_cons_of_ne hrule] at hrules
        obtain ⟨t, ht, hfound⟩ := ih hparts hrules
        refine ⟨t, ?_, ?_⟩
        · rwa [List.idxOf_cons_ne _ hrule, Nat.add_succ, ← Nat.succ_add]
        · rw [filter_others (hpart.others hrule), hfound, List.nil_append]

end

structure Reports (h : Hierarchy) (l : List Override) (found : List Violation) (s : Session) :
    Prop where
  traced : ∀ o ∈ l, ∃ t, s.knownTrace? s.analyst (⟨o.method, some o.cls⟩ : Frame).memoKey = some t
  exceptions : found.filter (·.onExceptions) =
    l.flatMap fun o => (h.exceptionViolations o (s.thrown o.cls o.method)).value

theorem Reports.mono {h : Hierarchy} {l : List Override} {found : List Violation} {s s' : Session}
    (hr : Reports h l found s) (hs : s.Later s') : Reports h l found s' := by
  have hknown : ∀ o ∈ l, ∀ t,
      s.knownTrace? s.analyst (⟨o.method, some o.cls⟩ : Frame).memoKey = some t →
        s'.knownTrace? s'.analyst (⟨o.method, some o.cls⟩ : Frame).memoKey = some t := by
    intro o _ t ht
    rw [hs.analyst]
    exact hs.traces _ _ t ht
  constructor
  · intro o ho
    obtain ⟨t, ht⟩ := hr.traced o ho
    exact ⟨t, hknown o ho t ht⟩
  · rw [hr.exceptions]
    apply List.flatMap_congr
    intro o ho
    obtain ⟨t, ht⟩ := hr.traced o ho
    rw [thrown_of_known ht, thrown_of_known (hknown o ho t ht)]

theorem reports_flatten {α : Type} {h : Hierarchy} {s : Session} {g : α → List Override} {l : List α}
    {parts : List (List Violation)}
    (hparts : List.Forall₂ (fun a part => Reports h (g a) part s) l parts) :
    Reports h (l.flatMap g) parts.flatten s := by
  induction hparts with
  | nil => exact ⟨by simp, by simp⟩
  | cons hpart _ ih =>
    constructor
    · intro o ho
      rw [List.flatMap_cons, List.mem_append] at ho
      cases ho with
      | inl ho => exact hpart.traced o ho
      | inr ho => exact ih.traced o ho
    · rw [List.flatten_cons, List.filter_append, List.flatMap_cons, List.flatMap_append,
        hpart.exceptions, ih.exceptions]

theorem override_spec {s s' : Session} (hs : s.Current) (hrule : s.substitution.rules.count .exceptions = 1)
    {o : Override} (hf : (⟨o.method, some o.cls⟩ : Frame).Declared s.registry)
    {found : List Violation}
    (h : Yields (gather (fun rule => liftM (applySubstitution o rule)) s.substitution.rules.zipIdx)
      s found s') :
    s.Later s' ∧ Reports (Hierarchy.ofRegistry s.registry) [o] found s' := by
  obtain ⟨hlater, parts, rfl, hparts⟩ := yields_gather
    (R := RuleReports (Hierarchy.ofRegistry s.registry) s.substitution.memory o)
    (fun _ _ _ _ hr ht => hr.mono ht) (by
      intro rule _ t part t' hst ht
      have hspec := applySubstitution_spec hst.current (hst.registry ▸ hf) rule (yields_lift ht)
      rwa [hst.registry, hst.substitution] at hspec)
    (Later.refl hs) h
  obtain ⟨t, ht, hfound⟩ := filter_of_count_eq_one hparts hrule
  have hknown : s'.knownTrace? s'.analyst (⟨o.method, some o.cls⟩ : Frame).memoKey = some t := by
    rwa [hlater.analyst, Session.analyst, ← Nat.zero_add (List.idxOf _ _)]
  refine ⟨hlater, ?_, ?_⟩
  · intro o' ho'
    rw [List.mem_singleton.1 ho']
    exact ⟨t, hknown⟩
  · rw [hfound, List.flatMap_singleton, thrown_of_known hknown]

theorem yields_load {name : String} {s s' : Session} {cls : ClassDecl}
    (h : Yields (load name) s cls s') : s.registry.class? name = some cls ∧ s = s' := by
  obtain ⟨_, _, hget, h⟩ := yields_bind h
  obtain ⟨rfl, rfl⟩ := yields_get hget
  cases hc : s.registry.class? name with
  | none =>
    rw [hc] at h
    cases h
  | some d =>
    rw [hc] at h
    obtain ⟨rfl, rfl⟩ := yields_pure h
    exact ⟨rfl, rfl⟩

theorem contract_spec {s s' : Session} (hs : s.Current)
    (hrule : s.substitution.rules.count .exceptions = 1) {name : String} {cls : ClassDecl}
    (hc : s.registry.class? name = some cls) {own : MethodTable}
    (hown : Gives (s.registry.ownMethods cls) own) {contract : ClassDecl} {found : List Violation}
    (h : Yields (checkContract cls own contract) s found s') :
    s.Later s' ∧ Reports (Hierarchy.ofRegistry s.registry)
      ((Hierarchy.ofRegistry s.registry).overridesAgainst cls own contract) found s' := by
  obtain ⟨asked, t, hasked, h⟩ := yields_bind h
  obtain ⟨hgives, hst⟩ := yields_attempt hs hasked
  obtain ⟨_, _, hget, h⟩ := yields_bind h
  obtain ⟨rfl, rfl⟩ := yields_get hget
  have hwell := Registry.wellNamed_ownMethods hs.indexed.wellKeyed hc hown
  obtain ⟨hlater, parts, rfl, hparts⟩ := yields_gather
    (R := fun o => Reports (Hierarchy.ofRegistry s.registry) [o])
    (fun _ _ _ _ hr ht => hr.mono ht) (by
      intro o ho u part u' hsu hu
      obtain ⟨rfl, rfl, _, hfind, _⟩ := (Hierarchy.mem_overrides_iff _ _ _ _ o).1 ho
      have hf : (⟨o.method, some o.cls⟩ : Frame).Declared u.registry := by
        rw [hsu.registry]
        exact Frame.declared_of_class? (hwell.of_find? hfind).2 hc
      rw [← hsu.substitution] at hrule
      rw [hst.substitution, ← hsu.substitution] at hu
      have hspec := override_spec hsu.current hrule hf hu
      rwa [hsu.registry] at hspec)
    hst h
  refine ⟨hst.trans hlater, ?_⟩
  rw [Hierarchy.overridesAgainst_eq hgives, ← List.flatMap_singleton' (overrides cls contract own asked)]
  exact reports_flatten hparts

theorem checkSubstitution_spec {s s' : Session} (hs : s.Current)
    (hrule : s.substitution.rules.count .exceptions = 1) {name : String} {cls : ClassDecl}
    (hc : s.registry.class? name = some cls) {found : List Violation}
    (h : Yields (checkSubstitution name) s found s') :
    s.Later s' ∧ Reports (Hierarchy.ofRegistry s.registry)
      ((Hierarchy.ofRegistry s.registry).overridesOf cls) found s' := by
  obtain ⟨cls', t, hload, h⟩ := yields_bind h
  obtain ⟨hcls, rfl⟩ := yields_load hload
  obtain rfl : cls = cls' := Option.some.inj (hc.symm.trans hcls)
  obtain ⟨own, t, hown, h⟩ := yields_bind h
  obtain ⟨hgives, hst⟩ := yields_attempt hs hown
  obtain ⟨contracts, u, hcontracts, h⟩ := yields_bind h
  obtain ⟨htu, hvalue⟩ := run_ask hst.current (yields_lift hcontracts)
  rw [hst.registry] at hvalue
  have hsu := hst.trans htu
  obtain ⟨violations, v, hviolations, h⟩ := yields_bind h
  obtain ⟨_, w, hreport, h⟩ := yields_bind h
  obtain ⟨rfl, rfl⟩ := yields_pure h
  obtain ⟨huv, parts, rfl, hparts⟩ := yields_gather
    (R := fun contract => Reports (Hierarchy.ofRegistry s.registry)
      ((Hierarchy.ofRegistry s.registry).overridesAgainst cls own contract))
    (fun _ _ _ _ hr ht => hr.mono ht) (by
      intro contract _ a part a' hsa ha
      have hspec := contract_spec hsa.current (hsa.substitution ▸ hrule) (hsa.registry ▸ hc)
        (hsa.registry ▸ hgives) ha
      rwa [hsa.registry] at hspec)
    hsu hviolations
  have hnote : v.Later w := by
    cases yields_lift hreport
    exact later_note huv.current _
  refine ⟨(hsu.trans huv).trans hnote, ?_⟩
  rw [Hierarchy.overridesOf_eq hgives, ← hvalue]
  exact (reports_flatten hparts).mono hnote

end Work

end ContractCheck
