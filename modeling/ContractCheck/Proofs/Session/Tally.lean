import ContractCheck.Proofs.Rules.Segregation
import ContractCheck.Proofs.Session.Attempts
import ContractCheck.Proofs.Session.Substitution

/-!
Reports on fat interfaces, counted. Each rule on fat interfaces remembers what it has reported, from
one check to the next: whatever it adds to its memory it reports, and nothing else. So the reports on
an interface are as many as there are rules that met it.
-/
namespace ContractCheck

open Text TracedOrCycle

namespace Session

def reportedAt (s : Session) (place : Nat) : List String :=
  (s.reported.find? place).getD []

theorem reportedAt_of_empty {s : Session} (hs : s.reported = {}) (place : Nat) :
    s.reportedAt place = [] := by
  rw [reportedAt, hs]
  rfl

structure SameGround (s s' : Session) : Prop where
  registry : s'.registry = s.registry
  segregation : s'.segregation = s.segregation
  threshold : s'.threshold = s.threshold
  hierarchy : ∀ m, s'.hierarchy m = s.hierarchy m

theorem SameGround.refl (s : Session) : s.SameGround s :=
  ⟨rfl, rfl, rfl, fun _ => rfl⟩

theorem SameGround.trans {s t u : Session} (hst : s.SameGround t) (htu : t.SameGround u) :
    s.SameGround u :=
  ⟨htu.registry.trans hst.registry, htu.segregation.trans hst.segregation,
    htu.threshold.trans hst.threshold, fun m => (htu.hierarchy m).trans (hst.hierarchy m)⟩

theorem Preserved.sameGround {s s' : Session} (h : s.Preserved s') : s.SameGround s' :=
  ⟨h.registry, h.segregation, h.threshold, h.hierarchy⟩

theorem Preserved.reportedAt_eq {s s' : Session} (h : s.Preserved s') (place : Nat) :
    s'.reportedAt place = s.reportedAt place := by
  rw [reportedAt, h.reported, reportedAt]

def report (s : Session) (place : Nat) (names : List String) : Session :=
  { s with reported := s.reported.set place names }

theorem sameGround_report (s : Session) (place : Nat) (names : List String) :
    s.SameGround (s.report place names) := by
  refine ⟨rfl, rfl, rfl, ?_⟩
  intro m
  cases m <;> rfl

theorem reportedAt_report_self (s : Session) (place : Nat) (names : List String) :
    (s.report place names).reportedAt place = names := by
  rw [reportedAt, report, Table.find?_set_self, Option.getD_some]

theorem reportedAt_report_of_ne (s : Session) {place place' : Nat} (h : place ≠ place')
    (names : List String) : (s.report place names).reportedAt place' = s.reportedAt place' := by
  rw [reportedAt, report, Table.find?_set_of_ne h, reportedAt]

def FatPlace (s : Session) (place : Nat) : Prop :=
  (SegregationRule.fatInterface, place) ∈ s.segregation.rules.zipIdx

theorem fatPlace_of_mem {s : Session} {p : SegregationRule × Nat}
    (hp : p ∈ s.segregation.rules.zipIdx) (hrule : p.1 = .fatInterface) : s.FatPlace p.2 := by
  rw [FatPlace, ← hrule]
  exact hp

def reporters (s : Session) (key : String) : Nat :=
  s.segregation.rules.zipIdx.countP fun p => p.1 = .fatInterface ∧ key ∈ s.reportedAt p.2

theorem reporters_congr {s t : Session} (hrules : t.segregation = s.segregation) {key : String}
    (h : ∀ place, s.FatPlace place → (key ∈ t.reportedAt place ↔ key ∈ s.reportedAt place)) :
    t.reporters key = s.reporters key := by
  rw [reporters, reporters, hrules]
  apply List.countP_congr
  intro p hp
  simp only [decide_eq_true_eq]
  exact and_congr_right fun hrule => h p.2 (fatPlace_of_mem hp hrule)

/-- A rule that reports an interface for the first time adds one to its reporters. -/
theorem reporters_succ {s t : Session} (hrules : t.segregation = s.segregation) {place : Nat}
    (hplace : s.FatPlace place) {key : String} (hnew : key ∉ s.reportedAt place)
    (hat : key ∈ t.reportedAt place)
    (hother : ∀ place', place' ≠ place → (key ∈ t.reportedAt place' ↔ key ∈ s.reportedAt place')) :
    t.reporters key = s.reporters key + 1 := by
  obtain ⟨front, back, hsplit⟩ := List.append_of_mem hplace
  have hnodup : (s.segregation.rules.zipIdx.map (·.2)).Nodup := by
    rw [List.zipIdx_map_snd]
    exact List.nodup_range'
  rw [hsplit, List.map_append, List.map_cons, List.nodup_middle, List.nodup_cons,
    ← List.map_append] at hnodup
  -- places are distinct, so the rules before and after count as they did
  have hsame : ∀ part, part ⊆ front ++ back →
      part.countP (fun p => decide (p.1 = .fatInterface ∧ key ∈ t.reportedAt p.2)) =
        part.countP fun p => decide (p.1 = .fatInterface ∧ key ∈ s.reportedAt p.2) := by
    intro part hpart
    apply List.countP_congr
    intro p hp
    simp only [decide_eq_true_eq]
    refine and_congr_right fun _ => hother p.2 ?_
    intro heq
    exact hnodup.1 (List.mem_map.2 ⟨p, hpart hp, heq⟩)
  rw [reporters, reporters, hrules, hsplit, List.countP_append, List.countP_append,
    hsame front (List.subset_append_left _ _), List.countP_cons, List.countP_cons,
    hsame back (List.subset_append_right _ _)]
  simp only [hat, hnew, and_true, and_false, decide_true, decide_false, if_true]
  simp only [Bool.false_eq_true, if_false]
  omega

def Fat (s : Session) (interface : ClassDecl) : Prop :=
  (s.hierarchy s.segregation.memory).Fat s.threshold interface

theorem SameGround.fat_iff {s t : Session} (h : s.SameGround t) (interface : ClassDecl) :
    t.Fat interface ↔ s.Fat interface := by
  rw [Fat, Fat, h.hierarchy, h.segregation, h.threshold]

def HasFat (s : Session) (name key : String) : Prop :=
  ∃ cls, s.registry.class? name = some cls ∧
    ∃ i ∈ ((s.hierarchy .session).interfacesOf cls).value, lower i.name = key ∧ s.Fat i

theorem SameGround.hasFat_iff {s t : Session} (h : s.SameGround t) (name key : String) :
    t.HasFat name key ↔ s.HasFat name key := by
  simp only [HasFat, h.registry, h.hierarchy, h.fat_iff]

theorem hasFat_iff (s : Session) (name key : String) :
    s.HasFat name key ↔ ((s.registry.class? name).any fun cls =>
      ((s.hierarchy .session).interfacesOf cls).value.any fun i => lower i.name = key ∧
        (((s.hierarchy s.segregation.memory).methodsOf i).run.value.toOption.any fun methods =>
          s.threshold < methods.length) = true) = true := by
  simp only [HasFat, Fat, Hierarchy.Fat, gives_iff_toOption, Option.any_eq_true, List.any_eq_true,
    decide_eq_true_eq]

instance (s : Session) (name key : String) : Decidable (s.HasFat name key) :=
  decidable_of_iff _ (s.hasFat_iff name key).symm

/-- What checks did: `Met` says which interfaces the rules at which places had to report. -/
structure Tally (s : Session) (Met : Nat → String → Prop) (found : List Violation) (t : Session) :
    Prop where
  ground : s.SameGround t
  reported : ∀ place key, key ∈ t.reportedAt place ↔ key ∈ s.reportedAt place ∨ Met place key
  count : ∀ key, found.countP (·.isFatOn key) + s.reporters key = t.reporters key

theorem Tally.trans {s t u : Session} {Met Met' : Nat → String → Prop} {found more : List Violation}
    (hst : s.Tally Met found t) (htu : t.Tally Met' more u) :
    s.Tally (fun place key => Met place key ∨ Met' place key) (found ++ more) u := by
  refine ⟨hst.ground.trans htu.ground, ?_, ?_⟩
  · intro place key
    rw [htu.reported, hst.reported, or_assoc]
  · intro key
    have hfirst := hst.count key
    have hsecond := htu.count key
    rw [List.countP_append]
    omega

theorem Tally.congr {s t : Session} {Met Met' : Nat → String → Prop} {found : List Violation}
    (h : s.Tally Met found t) (hmet : ∀ place key, Met place key ↔ Met' place key) :
    s.Tally Met' found t := by
  refine ⟨h.ground, ?_, h.count⟩
  intro place key
  rw [h.reported, hmet]

theorem tally_of_preserved {s t : Session} (h : s.Preserved t) {found : List Violation}
    (hfound : ∀ v ∈ found, ∀ key, v.isFatOn key = false) :
    s.Tally (fun _ _ => False) found t := by
  refine ⟨h.sameGround, ?_, ?_⟩
  · intro place key
    rw [h.reportedAt_eq, or_false]
  · intro key
    have hnone : found.countP (·.isFatOn key) = 0 := by
      rw [List.countP_eq_zero]
      intro v hv
      rw [hfound v hv key]
      exact Bool.false_ne_true
    rw [hnone, Nat.zero_add]
    exact (reporters_congr h.segregation fun place _ => by rw [h.reportedAt_eq]).symm

theorem tally_nothing {s t : Session} (h : s.Preserved t) : s.Tally (fun _ _ => False) [] t :=
  tally_of_preserved h fun v hv => by cases hv

theorem Tally.of_preserved_left {s t u : Session} (hst : s.Preserved t)
    {Met : Nat → String → Prop} {found : List Violation} (htu : t.Tally Met found u) :
    s.Tally Met found u := by
  exact ((tally_nothing hst).trans htu).congr fun place key => by rw [false_or]

theorem Tally.of_preserved_right {s t u : Session} {Met : Nat → String → Prop}
    {found : List Violation} (hst : s.Tally Met found t) (htu : t.Preserved u) :
    s.Tally Met found u := by
  have h := hst.trans (tally_nothing htu)
  rw [List.append_nil] at h
  exact h.congr fun place key => by rw [or_false]

/-- The rule on fat interfaces at a place is applied to an interface. -/
theorem tally_fatViolations {s t : Session} (h : s.Preserved t) {place : Nat}
    (hplace : s.FatPlace place) {cls interface : ClassDecl} {found : List Violation}
    {names : List String}
    (hgives : Gives ((s.hierarchy s.segregation.memory).fatViolations s.threshold
      (s.reportedAt place) cls interface) (found, names)) :
    s.Tally (fun place' key => place' = place ∧ lower interface.name = key ∧ s.Fat interface) found
      (t.report place names) := by
  have hreported : ∀ place', place' ≠ place →
      (t.report place names).reportedAt place' = s.reportedAt place' := by
    intro place' hne
    rw [reportedAt_report_of_ne t (Ne.symm hne), h.reportedAt_eq]
  have hself : (t.report place names).reportedAt place = names := t.reportedAt_report_self _ _
  have hground : s.SameGround (t.report place names) :=
    h.sameGround.trans (t.sameGround_report place names)
  refine ⟨hground, ?_, ?_⟩
  · intro place' key
    by_cases hne : place' = place
    · subst hne
      rw [hself, Hierarchy.mem_after_fatViolations hgives]
      simp only [true_and]
      rfl
    · rw [hreported place' hne]
      simp only [hne, false_and, or_false]
  · intro key
    rw [Hierarchy.countP_fatViolations hgives]
    by_cases hnew : key ∈ names ∧ key ∉ s.reportedAt place
    · rw [if_pos hnew, Nat.add_comm]
      refine (reporters_succ hground.segregation hplace hnew.2 (hself.symm ▸ hnew.1) ?_).symm
      intro place' hne
      rw [hreported place' hne]
    · rw [if_neg hnew, Nat.zero_add]
      refine (reporters_congr hground.segregation ?_).symm
      intro place' _
      by_cases hne : place' = place
      · subst hne
        rw [hself]
        constructor
        · intro hin
          by_contra hnot
          exact hnew ⟨hin, hnot⟩
        · exact fun hin => (Hierarchy.mem_after_fatViolations hgives key).2 (.inl hin)
      · rw [hreported place' hne]

/-- Where nothing was reported before, each rule on fat interfaces has reported what there was. -/
theorem Tally.reporters_eq {s t : Session} (hs : s.reported = {}) {Fats : String → Prop}
    {found : List Violation} (h : s.Tally (fun place key => s.FatPlace place ∧ Fats key) found t)
    (key : String) [Decidable (Fats key)] :
    t.reporters key = if Fats key then s.segregation.rules.count .fatInterface else 0 := by
  have hreported : ∀ place, key ∈ t.reportedAt place ↔ s.FatPlace place ∧ Fats key := by
    intro place
    simp only [h.reported, reportedAt_of_empty hs, List.not_mem_nil, false_or]
  rw [reporters, h.ground.segregation]
  by_cases hfats : Fats key
  · have hcount : s.segregation.rules.zipIdx.countP (fun p => p.1 == .fatInterface) =
        s.segregation.rules.count .fatInterface := by
      rw [List.count, ← List.zipIdx_map_fst 0 s.segregation.rules, List.countP_map,
        List.zipIdx_map_fst]
      rfl
    rw [if_pos hfats, ← hcount]
    apply List.countP_congr
    intro p hp
    simp only [hreported, hfats, and_true, decide_eq_true_eq, beq_iff_eq]
    exact and_iff_left_of_imp fun hrule => fatPlace_of_mem hp hrule
  · rw [if_neg hfats, List.countP_eq_zero]
    intro p _
    simp [hreported, hfats]

theorem Tally.countP_eq {s t : Session} (hs : s.reported = {}) {Fats : String → Prop}
    {found : List Violation} (h : s.Tally (fun place key => s.FatPlace place ∧ Fats key) found t)
    (key : String) [Decidable (Fats key)] : found.countP (·.isFatOn key) =
      if Fats key then s.segregation.rules.count .fatInterface else 0 := by
  have hbefore : s.reporters key = 0 := by
    rw [reporters, List.countP_eq_zero]
    intro p _
    simp [reportedAt_of_empty hs]
  rw [← h.reporters_eq hs key, ← h.count key, hbefore, Nat.add_zero]

end Session

namespace Work

open Session

theorem yields_fatInterface_iff {cls interface : ClassDecl} {place : Nat} {s t : Session}
    {found : List Violation} :
    Yields (applySegregation cls interface (.fatInterface, place)) s found t ↔
      ∃ names u, Yields (attempt s.segregation.memory
        (·.fatViolations s.threshold (s.reportedAt place) cls interface)) s (found, names) u ∧
        u.report place names = t := by
  constructor
  · intro h
    obtain ⟨⟨violations, names⟩, u, hattempt, h⟩ := yields_bind (yields_get_bind_iff.1 h)
    cases h
    exact ⟨names, u, hattempt, rfl⟩
  · intro h
    obtain ⟨names, u, hattempt, rfl⟩ := h
    exact yields_get_bind_iff.2 (yields_bind_iff.2 ⟨(found, names), u, hattempt, rfl⟩)

theorem tally_applySegregation {cls interface : ClassDecl} {rule : SegregationRule × Nat}
    {s t : Session} (hrule : rule ∈ s.segregation.rules.zipIdx) {found : List Violation}
    (h : Yields (applySegregation cls interface rule) s found t) :
    s.Tally (fun place key => rule = (.fatInterface, place) ∧ lower interface.name = key ∧
      s.Fat interface) found t := by
  obtain ⟨rule, place⟩ := rule
  cases rule with
  | stubs =>
    obtain ⟨hgives, hst⟩ := preserved_of_attempt (yields_get_bind_iff.1 h)
    have hnone := tally_of_preserved hst fun v hv =>
      Hierarchy.not_isFatOn_of_mem_stubViolations hgives hv
    exact hnone.congr fun place key => by simp
  | unfinished =>
    obtain ⟨hgives, hst⟩ := preserved_of_attempt (yields_get_bind_iff.1 h)
    have hnone := tally_of_preserved hst fun v hv =>
      Hierarchy.not_isFatOn_of_mem_unfinishedViolations hgives hv
    exact hnone.congr fun place key => by simp
  | fatInterface =>
    obtain ⟨names, u, hattempt, rfl⟩ := yields_fatInterface_iff.1 h
    obtain ⟨hgives, hsu⟩ := preserved_of_attempt hattempt
    exact (tally_fatViolations hsu hrule hgives).congr fun place' key => by simp [eq_comm]

/-- What each step of a traversal does, the traversal does for all its items. -/
theorem tally_gather {α : Type} {f : α → Attempt (List Violation)} {Met : α → Nat → String → Prop}
    {l : List α} {s₀ : Session}
    (hstep : ∀ a ∈ l, ∀ s found t, s₀.SameGround s → Yields (f a) s found t →
      s.Tally (Met a) found t)
    {s t : Session} {found : List Violation} (hs : s₀.SameGround s)
    (h : Yields (gather f l) s found t) :
    s.Tally (fun place key => ∃ a ∈ l, Met a place key) found t := by
  induction l generalizing s found with
  | nil =>
    obtain ⟨rfl, rfl⟩ := yields_pure h
    exact (tally_nothing (Preserved.refl s)).congr fun place key => by simp
  | cons a l ih =>
    obtain ⟨first, u, hfirst, h⟩ := yields_bind h
    obtain ⟨more, v, hmore, h⟩ := yields_bind h
    obtain ⟨rfl, rfl⟩ := yields_pure h
    have hhead := hstep a List.mem_cons_self s first u hs hfirst
    have htail := ih (fun b hb => hstep b (List.mem_cons_of_mem a hb)) (hs.trans hhead.ground) hmore
    exact (hhead.trans htail).congr fun place key => by simp

/-- The rules are applied to the interfaces of the class, one by one. -/
theorem yields_checkSegregation_iff {name : String} {s t : Session} {found : List Violation} :
    Yields (checkSegregation name) s found t ↔ ∃ cls u v, s.registry.class? name = some cls ∧
      ((ask .session (·.interfacesOf cls)).run s).2 = u ∧
      Yields (gather (fun i => gather (applySegregation cls i) u.segregation.rules.zipIdx)
        ((s.hierarchy .session).interfacesOf cls).value) u found v ∧
      v.note (.segregationChecked cls.name found.length) = t := by
  constructor
  · intro h
    obtain ⟨cls, _, hload, h⟩ := yields_bind h
    obtain ⟨hcls, rfl⟩ := yields_load hload
    obtain ⟨interfaces, u, hask, h⟩ := yields_bind h
    cases yields_lift hask
    obtain ⟨_, _, hget, h⟩ := yields_bind h
    obtain ⟨rfl, rfl⟩ := yields_get hget
    obtain ⟨violations, v, hgather, h⟩ := yields_bind h
    cases h
    exact ⟨cls, _, v, hcls, rfl, hgather, rfl⟩
  · intro h
    obtain ⟨cls, u, v, hcls, rfl, hgather, rfl⟩ := h
    have hload : Yields (load name) s cls s := by
      rw [load]
      refine yields_bind_iff.2 ⟨s, s, rfl, ?_⟩
      rw [hcls]
      rfl
    refine yields_bind_iff.2 ⟨cls, s, hload, yields_bind_iff.2 ⟨_, _, rfl, ?_⟩⟩
    exact yields_bind_iff.2 ⟨_, _, rfl, yields_bind_iff.2 ⟨found, v, hgather, rfl⟩⟩

theorem tally_checkSegregation {name : String} {s t : Session} {found : List Violation}
    (h : Yields (checkSegregation name) s found t) :
    s.Tally (fun place key => s.FatPlace place ∧ s.HasFat name key) found t := by
  obtain ⟨cls, u, v, hcls, hu, hgather, rfl⟩ := yields_checkSegregation_iff.1 h
  have hsu : s.Preserved u := hu ▸ preserved_ask _ _ s
  have hrules : ∀ i, ∀ rule ∈ u.segregation.rules.zipIdx, ∀ a part b, u.SameGround a →
      Yields (applySegregation cls i rule) a part b →
      a.Tally (fun place key => rule = (.fatInterface, place) ∧ lower i.name = key ∧ u.Fat i)
        part b := by
    intro i rule hrule a part b hua hpart
    have hstep := tally_applySegregation (hua.segregation.symm ▸ hrule) hpart
    exact hstep.congr fun place key => by rw [hua.fat_iff]
  have htally := tally_gather (fun i _ a part b hua => tally_gather (hrules i) hua)
    (SameGround.refl u) hgather
  refine ((htally.of_preserved_left hsu).of_preserved_right (preserved_note v _)).congr ?_
  intro place key
  have hfat : ∀ i, u.Fat i ↔ s.Fat i := hsu.sameGround.fat_iff
  simp only [HasFat, FatPlace, hcls, hfat, hsu.segregation, Option.some.injEq, exists_eq_left']
  constructor
  · intro hmet
    obtain ⟨i, hi, _, hrule, rfl, hkey, hfat⟩ := hmet
    exact ⟨hrule, i, hi, hkey, hfat⟩
  · intro hmet
    obtain ⟨hrule, i, hi, hkey, hfat⟩ := hmet
    exact ⟨i, hi, _, hrule, rfl, hkey, hfat⟩

theorem tally_checks {s t : Session} {names : List String} {found : List Violation}
    (h : Yields (gather checkSegregation names) s found t) :
    s.Tally (fun place key => s.FatPlace place ∧ ∃ name ∈ names, s.HasFat name key) found t := by
  have hstep : ∀ name ∈ names, ∀ u part v, s.SameGround u →
      Yields (checkSegregation name) u part v →
      u.Tally (fun place key => s.FatPlace place ∧ s.HasFat name key) part v := by
    intro name _ u part v hu hpart
    refine (tally_checkSegregation hpart).congr ?_
    intro place key
    rw [hu.hasFat_iff, FatPlace, hu.segregation, FatPlace]
  refine (tally_gather hstep (SameGround.refl s) h).congr ?_
  intro place key
  constructor
  · intro hmet
    obtain ⟨name, hname, hplace, hfat⟩ := hmet
    exact ⟨hplace, name, hname, hfat⟩
  · intro hmet
    obtain ⟨hplace, name, hname, hfat⟩ := hmet
    exact ⟨name, hname, hplace, hfat⟩

end Work

end ContractCheck
