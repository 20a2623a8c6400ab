import ContractCheck.Proofs.Session.Queries

/-!
The order in which sources are indexed. Main statement: where no class-like is declared by two of
them, sessions that index the same sources in different orders answer the same checks alike.
-/
namespace ContractCheck

inductive Check where
  | query (q : Query)
  | segregation (cls : String)

def Check.put : Check → Work Answer
  | .query q => q.put
  | .segregation cls => do return Answer.ofCheck (← (Work.checkSegregation cls).run)

namespace Sample

def opened : Session where
  disk := emptyDisk
  substitution := ⟨.session, [.exceptions, .returnType, .parameterTypes]⟩
  segregation := ⟨.session, [.stubs, .fatInterface, .unfinished]⟩
  threshold := 1

theorem start_opened : Session.start emptyDisk 1 none none = .ok opened := rfl

/-- A class, its interface and the exception that it throws, each in a source of its own, and two
sources that fail. -/
def scattered : List Source := [
  source "class.php" [classLike "class_declaration" "C" [] ["I"] [method "f" [throwNew "E"]]],
  source "interface.php" [classLike "interface_declaration" "I" [] [] [announcement "f"]],
  source "exception.php" [classLike "class_declaration" "E" ["Exception"] [] []],
  .text "broken.php" "" ⟨true, []⟩,
  .file "missing.php"]

end Sample

namespace Work

open Session Sample

structure MeasuresAlike (r r' : Registry) (rules : RuleList SubstitutionRule) (s s' : Session) :
    Prop where
  mirrors : Mirrors r r' rules Everyone s s'
  segregation : s.segregation = s'.segregation
  threshold : s.threshold = s'.threshold
  reported : s.reported = s'.reported

section

variable {r r' : Registry} {rules : RuleList SubstitutionRule}

theorem MeasuresAlike.step {s s' t t' : Session} (h : MeasuresAlike r r' rules s s')
    (ht : s.Preserved t) (ht' : s'.Preserved t') (hmirrors : Mirrors r r' rules Everyone t t') :
    MeasuresAlike r r' rules t t' := by
  refine ⟨hmirrors, ?_, ?_, ?_⟩
  · rw [ht.segregation, ht'.segregation, h.segregation]
  · rw [ht.threshold, ht'.threshold, h.threshold]
  · rw [ht.reported, ht'.reported, h.reported]

theorem kept_measuresAlike (hr : r.WellKeyed) (hr' : r.Alike r') :
    Kept r r' rules Everyone (MeasuresAlike r r' rules) := by
  have hkept : Kept r r' rules Everyone (Mirrors r r' rules Everyone) :=
    kept_mirrors hr hr' (everyone _ _) fun _ => everyone _ _
  refine ⟨hr, hr', everyone _ _, fun _ => everyone _ _, fun _ _ h => h.mirrors.registry,
    fun _ _ h => h.mirrors.substitution, ?_, ?_, ?_⟩
  · intro n s s' h
    obtain ⟨hvalue, hq, hafter⟩ := hkept.report n s s' h.mirrors
    exact ⟨hvalue, hq, h.step (preserved_note s n) (preserved_note s' n) hafter⟩
  · intro α m analyst hm question hquestion s s' h
    obtain ⟨hvalue, hq, hafter⟩ := hkept.ask hm question hquestion s s' h.mirrors
    exact ⟨hvalue, hq, h.step (preserved_ask m question s) (preserved_ask m question s') hafter⟩
  · intro m analyst hm f hf s s' h
    obtain ⟨hvalue, hq, hafter⟩ := hkept.trace hm hf s s' h.mirrors
    exact ⟨hvalue, hq,
      h.step (preserved_trace m analyst f s) (preserved_trace m analyst f s') hafter⟩

/-- Both sessions remember that an interface was reported. -/
theorem agree_reported (place : Nat) (names : List String) :
    Agree (MeasuresAlike r r' rules)
      (modify fun s => { s with reported := s.reported.set place names }) fun _ => True := by
  intro s s' h
  refine ⟨rfl, trivial, ⟨h.mirrors.registry, h.mirrors.substitution, ?_, h.mirrors.traces⟩,
    h.segregation, h.threshold, congrArg (·.set place names) h.reported⟩
  intro m analyst hm
  have hhierarchy := h.mirrors.hierarchy m analyst hm
  cases m with
  | session => exact hhierarchy
  | picked => exact hhierarchy

theorem agree_applySegregation (hr : r.WellKeyed) (hr' : r.Alike r') (cls interface : ClassDecl)
    (rule : SegregationRule × Nat) :
    AgreeOk (MeasuresAlike r r' rules) (applySegregation cls interface rule) fun _ => True := by
  have hR : Kept r r' rules Everyone (MeasuresAlike r r' rules) := kept_measuresAlike hr hr'
  obtain ⟨rule, place⟩ := rule
  apply agreeOk_get
  intro s s' h
  rw [h.segregation, h.threshold, h.reported]
  refine ⟨rfl, ?_⟩
  cases rule with
  | stubs =>
    exact (hR.attempt (everyone _ 0) fun h h' hh => by rw [hh.stubViolations_eq]).mono
      fun _ _ _ _ => trivial
  | unfinished =>
    exact (hR.attempt (everyone _ 0) fun h h' hh => by rw [hh.unfinishedViolations_eq]).mono
      fun _ _ _ _ => trivial
  | fatInterface =>
    apply agreeOk_bind
      (hR.attempt (everyone _ 0) fun h h' hh => by rw [hh.fatViolations_eq])
    intro found _
    apply agreeOk_bind (agreeOk_lift (agree_reported place found.2))
    intro _ _
    exact agreeOk_pure trivial

theorem agree_checkSegregation (hr : r.WellKeyed) (hr' : r.Alike r') (name : String) :
    AgreeOk (MeasuresAlike r r' rules) (checkSegregation name) fun _ => True := by
  have hR : Kept r r' rules Everyone (MeasuresAlike r r' rules) := kept_measuresAlike hr hr'
  apply agreeOk_bind (hR.load name)
  intro cls _
  apply agreeOk_bind (agreeOk_lift (hR.ask hR.session _ fun h h' hh => by rw [hh.interfacesOf_eq]))
  intro interfaces _
  apply agreeOk_get
  intro s s' h
  rw [h.segregation]
  refine ⟨rfl, ?_⟩
  apply agreeOk_bind
  · apply agreeOk_gather
    intro interface _
    apply agreeOk_gather
    intro rule _
    exact agree_applySegregation hr hr' cls interface rule
  · intro violations _
    apply agreeOk_bind (agreeOk_lift (hR.report _))
    intro _ _
    exact agreeOk_pure trivial

theorem agree_checks (hr : r.WellKeyed) (hr' : r.Alike r') (checks : List Check) :
    Agree (MeasuresAlike r r' rules) (checks.mapM Check.put) fun _ => True := by
  have hput : ∀ c : Check, Agree (MeasuresAlike r r' rules) c.put fun _ => True := by
    intro c
    cases c with
    | query q => exact (kept_measuresAlike hr hr').put q
    | segregation cls =>
      apply agree_bind (agree_checkSegregation hr hr' cls)
      exact fun _ _ => agree_pure trivial
  induction checks with
  | nil => exact agree_pure trivial
  | cons c checks ih =>
    rw [List.mapM_cons]
    apply agree_bind (hput c)
    intro a _
    apply agree_bind ih
    intro as _
    exact agree_pure trivial

end

/-- Sources of different paths that share no class-like may be indexed in any order, also where some
of them fail: the sessions answer every sequence of checks alike. The checks give their class-likes by
name, which each session looks up among its own. -/
theorem checks_eq_of_perm {disk : Files.Disk} {threshold : Int}
    {substitution : Option (List SubstitutionRule)} {segregation : Option (List SegregationRule)}
    {s : Session} (hs : Session.start disk threshold substitution segregation = .ok s)
    {xs ys : List Source} (hperm : xs.Perm ys) (hkeys : (xs.map (·.key disk)).Nodup)
    (hapart : Registry.NamesApart disk xs) (checks : List Check) :
    ((checks.mapM Check.put).run (s.indexed xs)).1 =
      ((checks.mapM Check.put).run (s.indexed ys)).1 := by
  obtain ⟨hunasked, hregistry, rfl⟩ := unasked_start hs
  obtain ⟨_, hxs⟩ := s.indexed_eq xs
  obtain ⟨_, hys⟩ := s.indexed_eq ys
  rw [hregistry] at hxs hys
  have halike := Registry.alike_indexSources hperm hkeys hapart
  have hwell := (Registry.indexed_indexSources .empty s.disk xs).wellKeyed
  have hunasked' : ∀ zs, (s.indexed zs).Unasked := by
    intro zs
    obtain ⟨_, hzs⟩ := s.indexed_eq zs
    rw [hzs]
    exact ⟨hunasked.ancestors, hunasked.pickedAncestors, hunasked.traces⟩
  have hmirrors : Mirrors (Registry.indexSources {} s.disk xs) (Registry.indexSources {} s.disk ys)
      s.substitution Everyone (s.indexed xs) (s.indexed ys) := by
    apply mirrors_of_upToDate halike
    · rw [hxs, hys]
      exact ⟨rfl, rfl⟩
    · rw [hxs, hys]
      exact ⟨rfl, rfl⟩
    · intro m analyst _
      exact (hunasked' xs).upToDate m analyst
    · intro m analyst _
      exact (hunasked' ys).upToDate m analyst
  have hmeasures : MeasuresAlike (Registry.indexSources {} s.disk xs)
      (Registry.indexSources {} s.disk ys) s.substitution (s.indexed xs) (s.indexed ys) := by
    refine ⟨hmirrors, ?_, ?_, ?_⟩
    all_goals rw [hxs, hys]
  exact (agree_checks hwell halike checks _ _ hmeasures).1

/-- The class is reported for its exception whichever way the sources are indexed. -/
theorem checks_eq_of_perm_scattered :
    (scattered.map (·.key emptyDisk)).Nodup ∧ Registry.NamesApart emptyDisk scattered ∧
      ((checkSubstitution "C").run.run (opened.indexed scattered)).1.toOption.map (·.length) =
        some 1 ∧
      ∀ checks : List Check, ((checks.mapM Check.put).run (opened.indexed scattered)).1 =
        ((checks.mapM Check.put).run (opened.indexed scattered.reverse)).1 := by
  have hkeys : (scattered.map (·.key emptyDisk)).Nodup := by decide +kernel
  have hapart : Registry.NamesApart emptyDisk scattered := by
    rw [Registry.NamesApart]
    decide +kernel
  refine ⟨hkeys, hapart, by decide +kernel, ?_⟩
  intro checks
  exact checks_eq_of_perm start_opened scattered.reverse_perm.symm hkeys hapart checks

end Work

end ContractCheck
