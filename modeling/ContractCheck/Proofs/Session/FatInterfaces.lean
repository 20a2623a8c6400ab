import ContractCheck.Proofs.Session.Staleness
import ContractCheck.Proofs.Session.Tally

/-!
Fat interfaces over a whole session. Whether a class can be checked does not depend on what was
reported before. Main statement: checks one after the other report every fat interface that they
meet once, in whatever order they are made.
-/
namespace ContractCheck

open Text TracedOrCycle

def Sample.shared : List Operation := [
  .index (source "interfaces.php" [
    classLike "interface_declaration" "I" [] [] [announcement "f", announcement "g"],
    classLike "interface_declaration" "J" [] [] [announcement "h"]]),
  .index (source "classes.php" [
    classLike "class_declaration" "C" [] ["I", "J"] [],
    classLike "class_declaration" "D" [] ["i"] []])]

theorem Hierarchy.descriptor?_of_mem_interfacesOf {h : Hierarchy} {cls i : ClassDecl}
    (hi : i ∈ (h.interfacesOf cls).value) : ∃ n, h.registry.descriptor? n = some i := by
  obtain ⟨n, _, hn⟩ := List.mem_filterMap.1 (List.mem_filter.1 hi).1
  exact ⟨n, hn⟩

namespace Session

def MethodsKnown (s : Session) (interface : ClassDecl) : Prop :=
  ∃ methods, Gives ((s.hierarchy s.segregation.memory).methodsOf interface) methods

def Answers (s : Session) (cls interface : ClassDecl) : SegregationRule → Prop
  | .stubs => ∃ found, Gives ((s.hierarchy s.segregation.memory).stubViolations cls interface) found
  | .unfinished =>
    ∃ found, Gives ((s.hierarchy s.segregation.memory).unfinishedViolations cls interface) found
  | .fatInterface => s.MethodsKnown interface

def Checkable (s : Session) (name : String) : Prop :=
  ∃ cls, s.registry.class? name = some cls ∧
    ∀ i ∈ ((s.hierarchy .session).interfacesOf cls).value,
      ∀ rule ∈ s.segregation.rules.zipIdx, s.Answers cls i rule.1

theorem SameGround.answers_iff {s t : Session} (h : s.SameGround t) (cls interface : ClassDecl)
    (rule : SegregationRule) : t.Answers cls interface rule ↔ s.Answers cls interface rule := by
  cases rule <;> simp only [Answers, MethodsKnown, h.hierarchy, h.segregation]

/-- A session during checks that began with another one. An interface that was reported is not asked
for its methods again, but could be. -/
structure During (s₀ s : Session) : Prop where
  ground : s₀.SameGround s
  reported : ∀ place key, key ∈ s.reportedAt place → ∀ n i, s₀.registry.descriptor? n = some i →
    lower i.name = key → s₀.MethodsKnown i

theorem during_start {s : Session} (hs : s.reported = {}) : During s s := by
  refine ⟨SameGround.refl s, ?_⟩
  intro place key hkey
  rw [reportedAt_of_empty hs] at hkey
  cases hkey

/-- Interfaces of one name are one, so it does not matter which of them was measured. -/
theorem During.tally {s₀ s t : Session} (hs₀ : s₀.registry.WellKeyed) (hs : During s₀ s)
    {Met : Nat → String → Prop} {found : List Violation} (ht : s.Tally Met found t)
    (hmet : ∀ place key, Met place key →
      ∃ n i, s₀.registry.descriptor? n = some i ∧ lower i.name = key ∧ s₀.Fat i) :
    During s₀ t := by
  refine ⟨hs.ground.trans ht.ground, ?_⟩
  intro place key hkey n i hi hname
  cases (ht.reported place key).1 hkey with
  | inl hbefore => exact hs.reported place key hbefore n i hi hname
  | inr hnow =>
    obtain ⟨n', i', hi', hname', methods, hmethods, _⟩ := hmet place key hnow
    obtain rfl := Registry.descriptor?_unique hs₀ hi' hi (hname'.trans hname.symm)
    exact ⟨methods, hmethods⟩

theorem During.of_preserved {s₀ s t : Session} (hs : During s₀ s) (ht : s.Preserved t) :
    During s₀ t := by
  refine ⟨hs.ground.trans ht.sameGround, ?_⟩
  intro place key hkey
  rw [ht.reportedAt_eq] at hkey
  exact hs.reported place key hkey

end Session

namespace Work

open Session

theorem exists_fatInterface_iff {s : Session} {cls interface : ClassDecl} {place : Nat} :
    (∃ found t, Yields (applySegregation cls interface (.fatInterface, place)) s found t) ↔
      lower interface.name ∈ s.reportedAt place ∨ s.MethodsKnown interface := by
  have hasked := exists_attempt_iff s.segregation.memory
    (·.fatViolations s.threshold (s.reportedAt place) cls interface) s
  rw [Hierarchy.exists_gives_fatViolations_iff] at hasked
  rw [MethodsKnown, ← hasked]
  simp only [yields_fatInterface_iff]
  constructor
  · intro h
    obtain ⟨found, _, names, u, h, _⟩ := h
    exact ⟨(found, names), u, h⟩
  · intro h
    obtain ⟨⟨found, names⟩, u, h⟩ := h
    exact ⟨found, _, names, u, h, rfl⟩

theorem exists_applySegregation_iff {s₀ s : Session} (hs : During s₀ s) {n : String}
    {cls interface : ClassDecl} (hi : s₀.registry.descriptor? n = some interface)
    (rule : SegregationRule × Nat) :
    (∃ found t, Yields (applySegregation cls interface rule) s found t) ↔
      s₀.Answers cls interface rule.1 := by
  obtain ⟨rule, place⟩ := rule
  rw [← hs.ground.answers_iff]
  cases rule with
  | stubs =>
    refine Iff.trans ?_ (exists_attempt_iff s.segregation.memory (·.stubViolations cls interface) s)
    exact exists_congr fun found => exists_congr fun t => yields_get_bind_iff
  | unfinished =>
    refine Iff.trans ?_
      (exists_attempt_iff s.segregation.memory (·.unfinishedViolations cls interface) s)
    exact exists_congr fun found => exists_congr fun t => yields_get_bind_iff
  | fatInterface =>
    rw [exists_fatInterface_iff]
    refine or_iff_right_of_imp fun hknown => ?_
    exact (hs.ground.answers_iff cls interface .fatInterface).2
      (hs.reported place _ hknown n interface hi rfl)

theorem during_applySegregation {s₀ s t : Session} (hs₀ : s₀.registry.WellKeyed)
    (hs : During s₀ s) {n : String} {cls interface : ClassDecl}
    (hi : s₀.registry.descriptor? n = some interface) {rule : SegregationRule × Nat}
    (hrule : rule ∈ s₀.segregation.rules.zipIdx) {found : List Violation}
    (h : Yields (applySegregation cls interface rule) s found t) : During s₀ t := by
  rw [← hs.ground.segregation] at hrule
  refine hs.tally hs₀ (tally_applySegregation hrule h) ?_
  intro place key hmet
  exact ⟨n, interface, hi, hmet.2.1, (hs.ground.fat_iff interface).1 hmet.2.2⟩

theorem exists_rules_iff {s₀ s : Session} (hs₀ : s₀.registry.WellKeyed) (hs : During s₀ s)
    (cls : ClassDecl) {interfaces : List ClassDecl}
    (hinterfaces : ∀ i ∈ interfaces, ∃ n, s₀.registry.descriptor? n = some i) :
    (∃ found t, Yields (gather (fun i => gather (applySegregation cls i)
      s₀.segregation.rules.zipIdx) interfaces) s found t) ↔
      ∀ i ∈ interfaces, ∀ rule ∈ s₀.segregation.rules.zipIdx, s₀.Answers cls i rule.1 := by
  have hkeep : ∀ i ∈ interfaces, ∀ rule ∈ s₀.segregation.rules.zipIdx, ∀ t found u, During s₀ t →
      Yields (applySegregation cls i rule) t found u → During s₀ u := by
    intro i hi rule hrule t found u ht h
    obtain ⟨n, hn⟩ := hinterfaces i hi
    exact during_applySegregation hs₀ ht hn hrule h
  refine exists_gather_iff (During s₀) ?_ ?_ hs
  · intro i hi t ht
    obtain ⟨n, hn⟩ := hinterfaces i hi
    exact exists_gather_iff (During s₀)
      (fun rule _ u hu => exists_applySegregation_iff hu hn rule) (hkeep i hi) ht
  · intro i hi t found u ht h
    exact gather_keeps (hkeep i hi) ht h

theorem exists_checkSegregation_iff {s₀ s : Session} (hs₀ : s₀.registry.WellKeyed)
    (hs : During s₀ s) (name : String) :
    (∃ found t, Yields (checkSegregation name) s found t) ↔ s₀.Checkable name := by
  have hclass : ∀ cls, (∃ found v, Yields (gather (fun i => gather (applySegregation cls i)
      ((ask .session (·.interfacesOf cls)).run s).2.segregation.rules.zipIdx)
      ((s.hierarchy .session).interfacesOf cls).value)
      ((ask .session (·.interfacesOf cls)).run s).2 found v) ↔
      ∀ i ∈ ((s₀.hierarchy .session).interfacesOf cls).value,
        ∀ rule ∈ s₀.segregation.rules.zipIdx, s₀.Answers cls i rule.1 := by
    intro cls
    have hasked : During s₀ ((ask .session (·.interfacesOf cls)).run s).2 :=
      hs.of_preserved (preserved_ask _ _ s)
    rw [hasked.ground.segregation, hs.ground.hierarchy]
    exact exists_rules_iff hs₀ hasked cls fun i hi => Hierarchy.descriptor?_of_mem_interfacesOf hi
  simp only [yields_checkSegregation_iff]
  constructor
  · intro h
    obtain ⟨found, _, cls, _, v, hcls, rfl, hgather, _⟩ := h
    rw [hs.ground.registry] at hcls
    exact ⟨cls, hcls, (hclass cls).1 ⟨found, v, hgather⟩⟩
  · intro h
    obtain ⟨cls, hcls, h⟩ := h
    rw [← hs.ground.registry] at hcls
    obtain ⟨found, v, hgather⟩ := (hclass cls).2 h
    exact ⟨found, _, cls, _, v, hcls, rfl, hgather, rfl⟩

theorem during_checkSegregation {s₀ s t : Session} (hs₀ : s₀.registry.WellKeyed)
    (hs : During s₀ s) {name : String} {found : List Violation}
    (h : Yields (checkSegregation name) s found t) : During s₀ t := by
  refine hs.tally hs₀ (tally_checkSegregation h) ?_
  intro place key hmet
  obtain ⟨cls, _, i, hi, hkey, hfat⟩ := (hs.ground.hasFat_iff name key).1 hmet.2
  obtain ⟨n, hn⟩ := Hierarchy.descriptor?_of_mem_interfacesOf hi
  exact ⟨n, i, hn, hkey, hfat⟩

/-- Checks one after the other succeed if each class can be checked, whatever the order. -/
theorem exists_checks_iff {s : Session} (hs : s.registry.WellKeyed) (hreported : s.reported = {})
    (names : List String) :
    (∃ found t, Yields (gather checkSegregation names) s found t) ↔
      ∀ name ∈ names, s.Checkable name :=
  exists_gather_iff (During s) (fun name _ _ ht => exists_checkSegregation_iff hs ht name)
    (fun _ _ _ _ _ ht h => during_checkSegregation hs ht h) (during_start hreported)

end Work

namespace Session

/-- Indexing and queries do not touch the rules on interfaces. -/
theorem measures_after {s : Session} (hs : s.registry.Indexed) (ops : List Operation) :
    (s.after ops).segregation = s.segregation ∧ (s.after ops).threshold = s.threshold ∧
      (s.after ops).reported = s.reported := by
  induction ops generalizing s with
  | nil => exact ⟨rfl, rfl, rfl⟩
  | cons op ops ih =>
    have hnext : (op.run s).registry.Indexed := indexed_after hs [op]
    have hstep : (op.run s).segregation = s.segregation ∧ (op.run s).threshold = s.threshold ∧
        (op.run s).reported = s.reported := by
      cases op with
      | index x => cases x <;> exact ⟨rfl, rfl, rfl⟩
      | write disk => exact ⟨rfl, rfl, rfl⟩
      | ask q =>
        have hput := Work.preserved_put hs.wellKeyed q
        exact ⟨hput.segregation, hput.threshold, hput.reported⟩
    obtain ⟨hrules, hthreshold, hreported⟩ := ih hnext
    exact ⟨hrules.trans hstep.1, hthreshold.trans hstep.2.1, hreported.trans hstep.2.2⟩

theorem measures_start {disk : Files.Disk} {threshold : Int}
    {substitution : Option (List SubstitutionRule)} {segregation : Option (List SegregationRule)}
    {s : Session} (hs : start disk threshold substitution segregation = .ok s) :
    s.reported = {} ∧ (segregation = none →
      s.segregation.rules.count .fatInterface = 1 ∧ s.threshold = threshold ∧ 1 ≤ threshold) := by
  cases segregation with
  | some rules =>
    cases hs
    exact ⟨rfl, fun h => by cases h⟩
  | none =>
    by_cases hthreshold : threshold < 1
    · simp only [start, hthreshold, if_true] at hs
      cases hs
    · simp only [start, hthreshold, if_false] at hs
      cases hs
      exact ⟨rfl, fun _ => ⟨rfl, rfl, by omega⟩⟩

end Session

namespace Work

open Session Sample

theorem shared_facts :
    ((gather checkSegregation ["C", "D", "C"]).run.run (opened.after shared)).1.toOption.isSome =
      true ∧
    (∃ name ∈ ["C", "D", "C"], (opened.after shared).HasFat name "i") ∧
    ¬ ∃ name ∈ ["C", "D", "C"], (opened.after shared).HasFat name "j" := by
  decide +kernel

/-- Classes are checked one after the other, after anything else was asked and indexed, and no check
fails. Then each interface that is fat and that one of the classes has is reported once, and no
other. The checks may be made in any other order: none fails, and the same interfaces are
reported. -/
theorem fat_interfaces_reported_once {disk : Files.Disk} {threshold : Int}
    {substitution : Option (List SubstitutionRule)} {segregation : Option (List SegregationRule)}
    {s : Session} (hs : Session.start disk threshold substitution segregation = .ok s)
    (ops : List Operation) {names : List String} {found : List Violation} {t : Session}
    (h : Yields (gather checkSegregation names) (s.after ops) found t) :
    (∀ key, found.countP (·.isFatOn key) =
      if ∃ name ∈ names, (s.after ops).HasFat name key then
        s.segregation.rules.count .fatInterface else 0) ∧
    (segregation = none → s.segregation.rules.count .fatInterface = 1 ∧
      (s.after ops).threshold = threshold ∧ 1 ≤ threshold) ∧
    ∀ names' : List String, names'.Perm names →
      ∃ found' t', Yields (gather checkSegregation names') (s.after ops) found' t' ∧
        ∀ key, found'.countP (·.isFatOn key) = found.countP (·.isFatOn key) := by
  obtain ⟨hempty, hstandard⟩ := measures_start hs
  have hindexed : s.registry.Indexed := by
    rw [(unasked_start hs).2.1]
    exact .empty
  have hwell := (indexed_after hindexed ops).wellKeyed
  obtain ⟨hrules, hthreshold, hreported⟩ := measures_after hindexed ops
  rw [hempty] at hreported
  have hcount := (tally_checks h).countP_eq hreported
  refine ⟨?_, ?_, ?_⟩
  · intro key
    rw [hcount key, hrules]
  · intro hnone
    rw [hthreshold]
    exact hstandard hnone
  · intro names' hperm
    have hall := (exists_checks_iff hwell hreported names).1 ⟨found, t, h⟩
    obtain ⟨found', t', h'⟩ := (exists_checks_iff hwell hreported names').2
      fun name hname => hall name (hperm.mem_iff.1 hname)
    refine ⟨found', t', h', ?_⟩
    intro key
    rw [hcount key, (tally_checks h').countP_eq hreported key]
    simp only [hperm.mem_iff]

/-- An interface with two methods is reported for the first of the classes that have it. -/
theorem fat_interfaces_reported_once_shared :
    ∃ found t, Yields (gather checkSegregation ["C", "D", "C"]) (opened.after shared) found t ∧
      found.countP (·.isFatOn "i") = 1 ∧ found.countP (·.isFatOn "j") = 0 ∧
      ∃ found' t',
        Yields (gather checkSegregation ["D", "C", "C"]) (opened.after shared) found' t' ∧
        found'.countP (·.isFatOn "i") = 1 := by
  obtain ⟨hsome, hi, hj⟩ := shared_facts
  obtain ⟨found, t, hyields⟩ := exists_yields_of_isSome hsome
  obtain ⟨hcount, _, hperm⟩ := fat_interfaces_reported_once start_opened shared hyields
  have hone : found.countP (·.isFatOn "i") = 1 := by
    rw [hcount, if_pos hi]
    rfl
  have hnone : found.countP (·.isFatOn "j") = 0 := by
    rw [hcount, if_neg hj]
  obtain ⟨found', t', hyields', hsame⟩ := hperm ["D", "C", "C"] (by decide)
  exact ⟨found, t, hyields, hone, hnone, found', t', hyields', (hsame "i").trans hone⟩

end Work

end ContractCheck
