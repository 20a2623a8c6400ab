import ContractCheck.Proofs.Session.Recall

/-!
The queries that are put to a session, and when its memory is up to date. Sessions whose memories
are up to date, over registries that are alike, answer every query alike.
-/
namespace ContractCheck

open Text

namespace Hierarchy

theorem provides_of_ownMethod? {r : Registry} {n name : String} {d : ClassDecl} {m : Method}
    (hd : r.descriptor? n = some d) (hm : r.ownMethod? d name = some m) : r.Provides m := by
  cases Registry.ownMethod?_cases hm with
  | inl hm => exact ⟨n, d, hd, Table.mem_values_of_find? hm⟩
  | inr hm => exact (Registry.declares_of_traitMethodFrom hm).provides

theorem provides_of_inheritedMethod? {h : Hierarchy} {name : String} {names : List String}
    {m : Method} (hm : h.inheritedMethod? name names = some m) : h.registry.Provides m := by
  induction names with
  | nil => cases hm
  | cons ancestor rest ih =>
    rw [inheritedMethod?] at hm
    split at hm
    · rename_i m' hfound
      cases hm
      obtain ⟨d, hd, hown⟩ := Option.bind_eq_some_iff.1 hfound
      exact provides_of_ownMethod? hd hown
    · exact ih hm

theorem provides_of_findMethod {h : Hierarchy} {n name : String} {d : ClassDecl} {m : Method}
    (hd : h.registry.descriptor? n = some d) (hm : (h.findMethod d name).value = some m) :
    h.registry.Provides m := by
  rw [findMethod] at hm
  split at hm
  · rename_i m' hown
    cases hm
    exact provides_of_ownMethod? hd hown
  · exact provides_of_inheritedMethod? hm

end Hierarchy

/-- What a session can be asked by name. A class-like of a query is the one that is registered or
built in under the name, and a trace may name the class that the method runs on. -/
inductive Query where
  | ancestors (name : String)
  | isSubtype (scope : Scope) (name : String) (allowed : List String)
  | findMethod (cls method : String)
  | trace (cls method : String) (context : Option String)
  | check (cls : String)

inductive Answer where
  | names (names : List String)
  | verdict (holds : Bool)
  | method (found : Option Method)
  | trace (found : Trace)
  | violations (found : List Violation)
  | noSuchClass (name : String)
  | noSuchMethod (cls method : String)
  | fault (fault : CheckFault)

namespace Answer

def ofCheck : Except CheckFault (List Violation) → Answer
  | .ok found => violations found
  | .error cause => fault cause

end Answer

namespace Work

def descriptor (name : String) : Work (Option ClassDecl) := do
  return (← get).registry.descriptor? name

def context : Option String → Work (Except String (Option ClassDecl))
  | none => return .ok none
  | some name => do
    match ← descriptor name with
    | none => return .error name
    | some d => return .ok (some d)

end Work

namespace Query

open Work

def put : Query → Work Answer
  | .ancestors name => do return .names (← ask .session (·.ancestors name))
  | .isSubtype scope name allowed => do
    return .verdict (← ask .session (·.isSubtype scope name allowed))
  | .findMethod cls method => do
    match ← descriptor cls with
    | none => return .noSuchClass cls
    | some d => return .method (← ask .session (·.findMethod d method))
  | .trace cls method named => do
    match ← descriptor cls with
    | none => return .noSuchClass cls
    | some d =>
      match ← ask .session (·.findMethod d method) with
      | none => return .noSuchMethod cls method
      | some m =>
        match ← Work.context named with
        | .error name => return .noSuchClass name
        | .ok context => return .trace (← Work.trace .session 0 m context)
  | .check cls => do return Answer.ofCheck (← (checkSubstitution cls).run)

end Query

namespace Work

def answer (q : Query) (s : Session) : Answer :=
  (q.put.run s).1

def asked (s : Session) (queries : List Query) : Session :=
  queries.foldl (fun s q => (q.put.run s).2) s

namespace Kept

variable {r r' : Registry} {rules : RuleList SubstitutionRule} {U : Memory → Nat → Prop}
  {R : Session → Session → Prop} (hR : Kept r r' rules U R)

include hR

theorem descriptor (name : String) :
    Agree R (descriptor name) fun d => r.descriptor? name = d := by
  apply agree_get
  intro s s' hs
  obtain ⟨hr, hr'⟩ := hR.registry s s' hs
  rw [hr, hr', hR.alike.descriptor?_eq]
  exact ⟨rfl, agree_pure rfl⟩

theorem context (named : Option String) :
    Agree R (context named) fun result => ∀ context, result = .ok context →
      ∀ c ∈ context, ∃ name, r.descriptor? name = some c := by
  cases named with
  | none =>
    apply agree_pure
    intro context hcontext c hc
    cases hcontext
    cases hc
  | some name =>
    apply agree_bind (hR.descriptor name)
    intro d hd
    cases d with
    | none =>
      apply agree_pure
      intro context hcontext
      cases hcontext
    | some d =>
      apply agree_pure
      intro context hcontext c hc
      cases hcontext
      cases hc
      exact ⟨name, hd⟩

/-- Related sessions answer every query alike. -/
theorem put (q : Query) : Agree R q.put fun _ => True := by
  cases q with
  | ancestors name =>
    apply agree_bind (hR.ask hR.session _ fun h h' hh => by rw [hh.ancestors_eq])
    exact fun _ _ => agree_pure trivial
  | isSubtype scope name allowed =>
    apply agree_bind (hR.ask hR.session _ fun h h' hh => by rw [hh.isSubtype_eq])
    exact fun _ _ => agree_pure trivial
  | findMethod cls method =>
    apply agree_bind (hR.descriptor cls)
    intro d hd
    cases d with
    | none => exact agree_pure trivial
    | some d =>
      apply agree_bind (hR.ask hR.session _ fun h h' hh => by rw [hh.findMethod_eq])
      exact fun _ _ => agree_pure trivial
  | trace cls method named =>
    apply agree_bind (hR.descriptor cls)
    intro d hd
    cases d with
    | none => exact agree_pure trivial
    | some d =>
      apply agree_bind (hR.ask hR.session _ fun h h' hh => by rw [hh.findMethod_eq])
      rintro found ⟨h, rfl, hfound⟩
      cases found with
      | none => exact agree_pure trivial
      | some m =>
        have hm := Hierarchy.provides_of_findMethod hd hfound.symm
        apply agree_bind (hR.context named)
        intro context hcontext
        cases context with
        | error name => exact agree_pure trivial
        | ok context =>
          apply agree_bind (hR.trace (f := ⟨m, context⟩) hR.session ⟨hm, hcontext context rfl⟩)
          exact fun _ _ => agree_pure trivial
  | check cls =>
    apply agree_bind (hR.checkSubstitution cls)
    exact fun _ _ => agree_pure trivial

end Kept

end Work

def Source.index : Source → Work (Except IndexFault (List ClassDecl))
  | .file path => Work.indexFile path
  | .text path source parse => Work.indexSource path source parse

namespace Session

/-- What a memory and an analyst remember is what would be worked out now. -/
structure UpToDate (s : Session) (m : Memory) (analyst : Nat) : Prop where
  ancestors : s.hierarchy m = Hierarchy.ofRegistry s.registry
  traces : ∀ f : Frame, f.Askable s.registry →
    s.traceOf m analyst f = ((Hierarchy.ofRegistry s.registry).trace (f.on s.registry)).value

def indexed (s : Session) (xs : List Source) : Session :=
  xs.foldl (fun s x => (x.index.run s).2) s

/-- Indexing changes nothing but what is registered and noted. -/
theorem indexed_eq (s : Session) (xs : List Source) : ∃ notices,
    s.indexed xs =
      { s with registry := s.registry.indexSources s.disk xs, notices := notices } := by
  induction xs generalizing s with
  | nil => exact ⟨s.notices, rfl⟩
  | cons x xs ih =>
    have hstep : ∃ notices, (x.index.run s).2 =
        { s with registry := (x.indexing s.disk s.registry).registry, notices := notices } := by
      cases x with
      | file path => exact ⟨_, rfl⟩
      | text path source parse => exact ⟨_, rfl⟩
    obtain ⟨before, hbefore⟩ := hstep
    obtain ⟨after, hafter⟩ := ih (x.index.run s).2
    refine ⟨after, ?_⟩
    rw [indexed, List.foldl_cons]
    rw [indexed] at hafter
    rw [hafter, hbefore]
    rfl

structure Unasked (s : Session) : Prop where
  ancestors : s.ancestors = {}
  pickedAncestors : s.pickedAncestors = {}
  traces : s.traces = {}

theorem Unasked.upToDate {s : Session} (hs : s.Unasked) (m : Memory) (analyst : Nat) :
    s.UpToDate m analyst := by
  have hmemo : s.memo m = {} := by
    cases m with
    | session => exact hs.ancestors
    | picked => exact hs.pickedAncestors
  have hhierarchy : s.hierarchy m = Hierarchy.ofRegistry s.registry := by
    rw [hierarchy, hmemo]
    rfl
  refine ⟨hhierarchy, ?_⟩
  intro f _
  rw [traceOf, hhierarchy, knownTrace?, hs.traces]
  rfl

theorem unasked_start {disk : Files.Disk} {threshold : Int}
    {substitution : Option (List SubstitutionRule)} {segregation : Option (List SegregationRule)}
    {s : Session} (hs : start disk threshold substitution segregation = .ok s) :
    s.Unasked ∧ s.registry = {} ∧ s.disk = disk := by
  cases segregation with
  | some rules =>
    cases hs
    exact ⟨⟨rfl, rfl, rfl⟩, rfl, rfl⟩
  | none =>
    by_cases hthreshold : threshold < 1
    · simp only [start, hthreshold, if_true] at hs
      cases hs
    · simp only [start, hthreshold, if_false] at hs
      cases hs
      exact ⟨⟨rfl, rfl, rfl⟩, rfl, rfl⟩

end Session

namespace Work

theorem mirrors_of_upToDate {r r' : Registry} (hr : r.Alike r') {rules : RuleList SubstitutionRule}
    {U : Memory → Nat → Prop} {s s' : Session} (hs : s.registry = r ∧ s'.registry = r')
    (hrules : s.substitution = rules ∧ s'.substitution = rules)
    (hup : ∀ m analyst, U m analyst → s.UpToDate m analyst)
    (hup' : ∀ m analyst, U m analyst → s'.UpToDate m analyst) : Mirrors r r' rules U s s' := by
  obtain ⟨rfl, rfl⟩ := hs
  refine ⟨⟨rfl, rfl⟩, hrules, ?_, ?_⟩
  · intro m analyst hm
    rw [(hup m analyst hm).ancestors, (hup' m analyst hm).ancestors]
    exact Hierarchy.alike_ofRegistry hr
  · intro m analyst hm f hf
    have hf' : f.Askable s'.registry := by
      refine ⟨?_, ?_⟩
      · rw [Registry.Provides, ← hr.descriptor?_eq]
        exact hf.method
      · rw [← hr.descriptor?_eq]
        exact hf.context
    rw [(hup m analyst hm).traces f hf, (hup' m analyst hm).traces f hf', hr.on_eq,
      (Hierarchy.alike_ofRegistry hr).trace_eq]

end Work

end ContractCheck
