import ContractCheck.Proofs.Sample
import ContractCheck.Proofs.Session.Substitution

/-!
What the check of a class says about exceptions. Main statement: one that a method announces or
throws is reported once for each contract that does not allow it, and no other is. The verdict is on
names without the white space at their end.
-/
namespace ContractCheck

open Text

namespace Sample

def session (declarations : List Syntax.Node) : Session where
  disk := ⟨⟨"/", []⟩, .folder []⟩
  registry := registry declarations
  substitution := ⟨.session, [.exceptions, .returnType, .parameterTypes]⟩
  segregation := ⟨.session, []⟩
  threshold := 5

theorem current_session (declarations : List Syntax.Node) : (session declarations).Current :=
  Session.current_of_indexed (indexed_registry declarations) rfl rfl rfl

/-- The contract allows logic errors only. The class announces another exception, and throws one
that is allowed and, by a call, one that is not. -/
def escaping : Session :=
  session [
    classLike "interface_declaration" "I" [] []
      [docblock "/** @throws LogicException */", announcement "f"],
    classLike "class_declaration" "C" [] ["I"]
      [docblock "/** @throws RuntimeException */",
        method "f" [throwNew "DomainException", callOnThis "g"],
        method "g" [throwNew "Exception"]]]

/-- An exception whose name ends in white space implements a contract that allows its parent, and
throws itself. -/
def spaced : Session :=
  session [
    classLike "interface_declaration" "I" [] []
      [docblock "/** @throws Exception */", announcement "f"],
    classLike "class_declaration" "A\u0085" ["Exception"] ["I"] [method "f" [throwNew "self"]]]

end Sample

namespace Violation

theorem of_exception {className method contract e : String} {v : Violation}
    (h : announces className method contract e v = true ∨
      throws className method contract e v = true) :
    v.onExceptions = true ∧ ∃ fault, v = .substitution className method contract fault := by
  cases v with
  | segregation => simp [announces, throws] at h
  | substitution c m k fault =>
    cases fault with
    | announces x =>
      simp only [announces, throws, Bool.and_eq_true, beq_iff_eq, Bool.false_eq_true, or_false] at h
      obtain ⟨⟨⟨rfl, rfl⟩, rfl⟩, -⟩ := h
      exact ⟨rfl, _, rfl⟩
    | throws x chains =>
      simp only [announces, throws, Bool.and_eq_true, beq_iff_eq, Bool.false_eq_true, false_or] at h
      obtain ⟨⟨⟨rfl, rfl⟩, rfl⟩, -⟩ := h
      exact ⟨rfl, _, rfl⟩
    | returnType => simp [announces, throws] at h
    | parameterType => simp [announces, throws] at h

end Violation

namespace Hierarchy

/-- How often an exception is reported that is announced or thrown where some are allowed: once
unless it is excused. White space at the end of names does not count. -/
structure ReportedOnce (h : Hierarchy) (allowed : List String) (e : String) (count : Nat) : Prop where
  trimmed : count = if h.Excuses (allowed.map trimEnd) (trimEnd e) then 0 else 1
  plain : trimEnd e = e → (∀ a ∈ allowed, trimEnd a = a) →
    count = if h.Excuses allowed e then 0 else 1

theorem reportedOnce_of_allows {r : Registry} {allowed : List String}
    (ha : ∀ a ∈ allowed, Unslashed a) {e : String} (he : Unslashed e) {count : Nat}
    (hcount : count = if ((ofRegistry r).allows allowed e).value then 0 else 1) :
    (ofRegistry r).ReportedOnce allowed e count := by
  have htrimmed : count =
      if (ofRegistry r).Excuses (allowed.map trimEnd) (trimEnd e) then 0 else 1 := by
    rw [hcount]
    exact if_congr (allows_iff ha he) rfl rfl
  refine ⟨htrimmed, ?_⟩
  intro hself hallowed
  rwa [hself, List.map_congr_left hallowed, List.map_id'] at htrimmed

/-- Overrides of different keys are told apart by what is reported on them. -/
theorem countP_flatMap_exceptionViolations {h : Hierarchy} (thrown : Override → Trace)
    {l : List Override} (hl : (l.map overrideKey).Nodup) {o : Override} (ho : o ∈ l)
    {p : Violation → Bool} (hp : ∀ v, p v = true → ∃ fault, v = o.violation fault) :
    (l.flatMap fun o => (h.exceptionViolations o (thrown o)).value).countP p =
      (h.exceptionViolations o (thrown o)).value.countP p := by
  have hother : ∀ o', overrideKey o' ≠ overrideKey o →
      (h.exceptionViolations o' (thrown o')).value.countP p = 0 := by
    intro o' hkey
    rw [List.countP_eq_zero]
    intro v hv hpv
    obtain ⟨fault, hfault⟩ := hp v hpv
    have hviolation : ∃ fault', o'.violation fault' = o.violation fault := by
      cases of_mem_exceptionViolations hv with
      | inl hv =>
        obtain ⟨_, _, hv, _⟩ := hv
        exact ⟨_, hv.symm.trans hfault⟩
      | inr hv =>
        obtain ⟨_, _, hv, _⟩ := hv
        exact ⟨_, hv.symm.trans hfault⟩
    obtain ⟨fault', heq⟩ := hviolation
    simp only [Override.violation, Violation.substitution.injEq] at heq
    exact hkey (by rw [overrideKey, overrideKey, heq.2.1, heq.2.2.1])
  induction l with
  | nil => cases ho
  | cons o' l ih =>
    rw [List.map_cons, List.nodup_cons] at hl
    rw [List.flatMap_cons, List.countP_append]
    cases List.mem_cons.1 ho with
    | inl heq =>
      subst heq
      have hrest : (l.flatMap fun o => (h.exceptionViolations o (thrown o)).value).countP p = 0 := by
        rw [List.countP_eq_zero]
        intro v hv
        obtain ⟨o', ho', hv⟩ := List.mem_flatMap.1 hv
        have hkey : overrideKey o' ≠ overrideKey o := by
          intro hkey
          exact hl.1 (hkey ▸ List.mem_map_of_mem ho')
        exact List.countP_eq_zero.1 (hother o' hkey) v hv
      rw [hrest, Nat.add_zero]
    | inr hin =>
      have hkey : overrideKey o' ≠ overrideKey o := by
        intro hkey
        exact hl.1 (hkey ▸ List.mem_map_of_mem hin)
      rw [hother o' hkey, Nat.zero_add, ih hl.2 hin]

end Hierarchy

namespace Work

open Session Hierarchy Sample

theorem countP_reports {h : Hierarchy} {l : List Override} {found : List Violation} {s : Session}
    (hreports : Reports h l found s) (hl : (l.map overrideKey).Nodup) {o : Override} (ho : o ∈ l)
    {p : Violation → Bool}
    (hp : ∀ v, p v = true → v.onExceptions = true ∧ ∃ fault, v = o.violation fault) :
    found.countP p = (h.exceptionViolations o (s.thrown o.cls o.method)).value.countP p := by
  have hfilter : found.countP p = (found.filter (·.onExceptions)).countP p := by
    rw [List.countP_filter]
    apply List.countP_congr
    intro v _
    rw [Bool.and_eq_true]
    exact ⟨fun hv => ⟨hv, (hp v hv).1⟩, And.left⟩
  rw [hfilter, hreports.exceptions]
  exact countP_flatMap_exceptionViolations (fun o => s.thrown o.cls o.method) hl ho
    fun v hv => (hp v hv).2

theorem exists_of_mem_reports {h : Hierarchy} {l : List Override} {found : List Violation}
    {s : Session} (hreports : Reports h l found s) {v : Violation} (hv : v ∈ found)
    (hon : v.onExceptions = true) :
    ∃ o ∈ l, (∃ e ∈ h.registry.announced o.method, v = o.violation (.announces e)) ∨
      ∃ e ∈ (s.thrown o.cls o.method).entries, v = o.violation (.throws e.1 e.2) := by
  have hmem : v ∈ found.filter (·.onExceptions) := List.mem_filter.2 ⟨hv, hon⟩
  rw [hreports.exceptions] at hmem
  obtain ⟨o, ho, hv⟩ := List.mem_flatMap.1 hmem
  refine ⟨o, ho, ?_⟩
  cases of_mem_exceptionViolations hv with
  | inl hv =>
    obtain ⟨e, he, hv, _⟩ := hv
    exact .inl ⟨e, he, hv⟩
  | inr hv =>
    obtain ⟨e, he, hv, _⟩ := hv
    exact .inr ⟨e, he, hv⟩

/-- What a class announces and throws against its contracts is reported, each exception once, and
nothing else is. The exceptions thrown are those that the session answers with, from then on, when it
is asked for the method. -/
theorem exceptions_reported_once {s s' : Session} (hs : s.Current)
    (hrule : s.substitution.rules.count .exceptions = 1) {name : String} {cls : ClassDecl}
    (hcls : s.registry.class? name = some cls)
    (hparent : ∀ p, (s.registry.parentOf cls).bind s.registry.class? = some p →
      p.isInterface = false)
    {found : List Violation} (hrun : (checkSubstitution name).run.run s = (.ok found, s')) :
    let h := Hierarchy.ofRegistry s.registry
    (∀ o, o.cls = cls → h.Overrides o →
      (∀ e ∈ s.registry.announced o.method,
        h.ReportedOnce (s.registry.announced o.contractMethod) e
          (found.countP (Violation.announces cls.name o.method.name o.contract.name e))) ∧
      (∀ e ∈ (s'.thrown cls o.method).keys,
        h.ReportedOnce (s.registry.announced o.contractMethod) e
          (found.countP (Violation.throws cls.name o.method.name o.contract.name e))) ∧
      ∃ f : Frame, f.Declared s.registry ∧ f.memoKey = (⟨o.method, some cls⟩ : Frame).memoKey ∧
        s'.thrown cls o.method = (h.trace f).value) ∧
    ∀ v ∈ found, v.onExceptions = true → ∃ o, o.cls = cls ∧ h.Overrides o ∧
      ((∃ e ∈ s.registry.announced o.method, v = o.violation (.announces e)) ∨
        ∃ e ∈ (s'.thrown cls o.method).entries, v = o.violation (.throws e.1 e.2)) := by
  intro h
  have hr := hs.indexed.wellKeyed
  obtain ⟨hlater, hreports⟩ := checkSubstitution_spec hs hrule hcls hrun
  have hnodup := nodup_overridesOf hr hcls hparent
  constructor
  · rintro o rfl ho
    have hin : o ∈ h.overridesOf o.cls := (mem_overridesOf_iff h o.cls o).2 ⟨rfl, ho⟩
    have hallowed : ∀ a ∈ s.registry.announced o.contractMethod, Unslashed a :=
      fun a ha => Registry.unslashed_of_mem_announced hr (ho.offered hr) ha
    have hdeclares := ho.declares hr hcls
    have hframe : (⟨o.method, some o.cls⟩ : Frame).Declared s'.registry := by
      rw [hlater.registry]
      exact Frame.declared_of_class? hdeclares hcls
    obtain ⟨f, hf, hkey, hthrown⟩ := thrown_spec hlater.current hframe
    rw [hlater.registry] at hf hthrown
    refine ⟨?_, ?_, f, hf, hkey, hthrown⟩
    · intro e he
      have hname := Registry.unslashed_of_mem_announced hr (.inl hdeclares) he
      apply reportedOnce_of_allows hallowed hname
      rw [countP_reports hreports hnodup hin fun v hv => Violation.of_exception (.inl hv)]
      exact countP_announces h o _ (s.registry.nodup_announced o.method) he
    · intro e he
      have hname : Unslashed e := by
        rw [hthrown] at he
        exact unslashed_of_mem_trace hr hf he
      have hkeys : (s'.thrown o.cls o.method).keys.Nodup := by
        rw [hthrown]
        exact nodup_keys_trace h f
      apply reportedOnce_of_allows hallowed hname
      rw [countP_reports hreports hnodup hin fun v hv => Violation.of_exception (.inr hv)]
      exact countP_throws h o _ hkeys he
  · intro v hv hon
    obtain ⟨o, ho, hfault⟩ := exists_of_mem_reports hreports hv hon
    obtain ⟨rfl, hover⟩ := (mem_overridesOf_iff h cls o).1 ho
    exact ⟨o, rfl, hover, hfault⟩

theorem exceptions_reported_once_escaping :
    ∃ found s', (checkSubstitution "C").run.run escaping = (.ok found, s') ∧
      found.countP (Violation.announces "C" "f" "I" "RuntimeException") = 1 ∧
      found.countP (Violation.throws "C" "f" "I" "Exception") = 1 ∧
      found.countP (Violation.throws "C" "f" "I" "DomainException") = 0 := by
  obtain ⟨cls, hcls, hname, hparent, o, ho, hmethod, hcontract, hannounced, hthrown, hallowed⟩ :
      ∃ cls ∈ escaping.registry.class? "C", cls.name = "C" ∧
        (escaping.registry.parentOf cls).bind escaping.registry.class? = none ∧
        ∃ o ∈ (ofRegistry escaping.registry).overridesOf cls,
          o.method.name = "f" ∧ o.contract.name = "I" ∧
          "RuntimeException" ∈ escaping.registry.announced o.method ∧
          (((checkSubstitution "C").run.run escaping).2.thrown cls o.method).keys =
            ["DomainException", "Exception"] ∧
          escaping.registry.announced o.contractMethod = ["LogicException"] := by
    decide +kernel
  have hexcuses : (ofRegistry escaping.registry).Excuses ["LogicException"] "DomainException" ∧
      ¬ (ofRegistry escaping.registry).Excuses ["LogicException"] "RuntimeException" ∧
      ¬ (ofRegistry escaping.registry).Excuses ["LogicException"] "Exception" := by
    decide +kernel
  have hplain : ∀ e ∈ ["LogicException", "DomainException", "RuntimeException", "Exception"],
      trimEnd e = e := by
    decide +kernel
  have hok : ((checkSubstitution "C").run.run escaping).1.isOk = true := by decide +kernel
  cases hrun : (checkSubstitution "C").run.run escaping with
  | mk result s' =>
    rw [hrun] at hok hthrown
    cases result with
    | error _ => cases hok
    | ok found =>
      obtain ⟨rfl, hover⟩ := (mem_overridesOf_iff _ _ o).1 ho
      have hcurrent : escaping.Current := current_session _
      have honce := exceptions_reported_once hcurrent (by decide) hcls (by simp [hparent]) hrun
      obtain ⟨hann, hthr, _⟩ := honce.1 o rfl hover
      simp only [hname, hmethod, hcontract, hallowed, hthrown] at hann hthr
      refine ⟨found, s', rfl, ?_, ?_, ?_⟩
      · rw [(hann _ hannounced).plain (by simp [hplain]) (by simp [hplain]), if_neg hexcuses.2.1]
      · rw [(hthr "Exception" (by simp)).plain (by simp [hplain]) (by simp [hplain]),
          if_neg hexcuses.2.2]
      · rw [(hthr "DomainException" (by simp)).plain (by simp [hplain]) (by simp [hplain]),
          if_pos hexcuses.1]

/-- The exception descends from the one that is allowed, and is reported nevertheless. -/
theorem excused_exception_reported :
    ∃ cls ∈ spaced.registry.class? "A\u0085", ∃ o ∈ (ofRegistry spaced.registry).overridesOf cls,
      "A\u0085" ∈ (((checkSubstitution "A\u0085").run.run spaced).2.thrown cls o.method).keys ∧
      (ofRegistry spaced.registry).Excuses (spaced.registry.announced o.contractMethod) "A\u0085" ∧
      ∃ found ∈ ((checkSubstitution "A\u0085").run.run spaced).1.toOption,
        found.countP (Violation.throws cls.name o.method.name o.contract.name "A\u0085") = 1 := by
  decide +kernel

end Work

end ContractCheck
