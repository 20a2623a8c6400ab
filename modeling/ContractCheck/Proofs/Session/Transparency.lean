import ContractCheck.Proofs.Session.Keys
import ContractCheck.Proofs.Session.Order

/-!
Memory once indexing is over. A trace is remembered under the names of its method and its class, and
for each name there is one class-like that is registered or built in. A class-like that is declared
once more is handed out as well, but is not found by its name. Main statement: as long as only
class-likes are traced that are found by their names, what was asked before does not show in any
answer.
-/
namespace ContractCheck

open Text

namespace Work

open Session

structure Invariant (r : Registry) (rules : RuleList SubstitutionRule) (P : Session → Prop) :
    Prop where
  wellKeyed : r.WellKeyed
  registry : ∀ s, P s → s.registry = r
  substitution : ∀ s, P s → s.substitution = rules
  note : ∀ s n, P s → P (s.note n)
  ask : ∀ {α : Type} (m : Memory) (question : Hierarchy → Traced α) s, P s →
    P ((ask m question).run s).2
  trace : ∀ m analyst (f : Frame) s, f.Askable r → P s →
    P ((trace m analyst f.method f.context).run s).2

section

variable {r : Registry} {rules : RuleList SubstitutionRule} {P : Session → Prop}

/-- Queries keep what the basic steps keep. -/
theorem Invariant.put (hP : Invariant r rules P) (q : Query) {s : Session} (hs : P s) :
    P (q.put.run s).2 := by
  have hkept : Kept r r rules Everyone fun s s' => s = s' ∧ P s := by
    refine ⟨hP.wellKeyed, Registry.Alike.refl r, everyone _ _, fun _ => everyone _ _,
      ?_, ?_, ?_, ?_, ?_⟩
    · rintro s _ ⟨rfl, hs⟩
      exact ⟨hP.registry s hs, hP.registry s hs⟩
    · rintro s _ ⟨rfl, hs⟩
      exact ⟨hP.substitution s hs, hP.substitution s hs⟩
    · rintro n s _ ⟨rfl, hs⟩
      exact ⟨rfl, trivial, rfl, hP.note s n hs⟩
    · rintro α m analyst hm question hq s _ ⟨rfl, hs⟩
      exact ⟨rfl, ⟨s.hierarchy m, hP.registry s hs, rfl⟩, rfl, hP.ask m question s hs⟩
    · rintro m analyst hm f hf s _ ⟨rfl, hs⟩
      exact ⟨rfl, trivial, rfl, hP.trace m analyst f s hf hs⟩
  exact (hkept.put q s s ⟨rfl, hs⟩).2.2.2

end

theorem invariant_preserved {s : Session} (hr : s.registry.WellKeyed) :
    Invariant s.registry s.substitution s.Preserved where
  wellKeyed := hr
  registry _ h := h.registry
  substitution _ h := h.substitution
  note t n h := h.trans (preserved_note t n)
  ask m question t h := h.trans (preserved_ask m question t)
  trace m analyst f t _ h := h.trans (preserved_trace m analyst f t)

theorem preserved_put {s : Session} (hr : s.registry.WellKeyed) (q : Query) :
    s.Preserved (q.put.run s).2 :=
  (invariant_preserved hr).put q (Preserved.refl s)

end Work

/-- What a session can be asked about class-likes at hand, whether they are found by their names or
not. -/
inductive DirectQuery where
  | named (q : Query)
  | findMethod (cls : ClassDecl) (method : String)
  | trace (f : Frame)

namespace DirectQuery

def put : DirectQuery → Work Answer
  | .named q => q.put
  | .findMethod cls method => do return .method (← Work.ask .session (·.findMethod cls method))
  | .trace f => do return .trace (← Work.trace .session 0 f.method f.context)

def answer (q : DirectQuery) (s : Session) : Answer :=
  (q.put.run s).1

end DirectQuery

namespace Session

/-- What a session remembers was worked out over its registry. Each trace is that of a frame which is
found by name, or which is one of some others. -/
structure Sourced (r : Registry) (rules : RuleList SubstitutionRule) (others : Frame → Prop)
    (s : Session) : Prop where
  registry : s.registry = r
  substitution : s.substitution = rules
  hierarchy : ∀ m, s.hierarchy m = Hierarchy.ofRegistry r
  traces : ∀ analyst key t, s.knownTrace? analyst key = some t →
    ∃ g : Frame, (others g ∨ g.Askable r) ∧ (g.on r).memoKey = key ∧
      t = ((Hierarchy.ofRegistry r).trace (g.on r)).value

section

variable {r : Registry} {rules : RuleList SubstitutionRule} {others : Frame → Prop} {s t : Session}

theorem Sourced.of_preserved (h : s.Sourced r rules others) (ht : s.Preserved t)
    (htraces : t.traces = s.traces) : t.Sourced r rules others := by
  refine ⟨ht.registry.trans h.registry, ht.substitution.trans h.substitution, ?_, ?_⟩
  · intro m
    rw [ht.hierarchy, h.hierarchy]
  · intro analyst key t' hknown
    rw [knownTrace?, htraces] at hknown
    exact h.traces analyst key t' hknown

/-- An answer on a frame is the trace of a frame of the same key. -/
theorem Sourced.exists_traceOf (h : s.Sourced r rules others) (m : Memory) (analyst : Nat)
    {f : Frame} (hf : others f ∨ f.Askable r) :
    ∃ g : Frame, (others g ∨ g.Askable r) ∧ (g.on r).memoKey = (f.on r).memoKey ∧
      s.traceOf m analyst f = ((Hierarchy.ofRegistry r).trace (g.on r)).value := by
  rw [traceOf, h.registry, h.hierarchy]
  cases hknown : s.knownTrace? analyst (f.on r).memoKey with
  | none => exact ⟨f, hf, rfl, rfl⟩
  | some t =>
    obtain ⟨g, hg, hkey, ht⟩ := h.traces analyst _ t hknown
    exact ⟨g, hg, hkey, ht⟩

theorem Sourced.trace (h : s.Sourced r rules others) (m : Memory) (analyst : Nat) {f : Frame}
    (hf : others f ∨ f.Askable r) :
    ((Work.trace m analyst f.method f.context).run s).2.Sourced r rules others := by
  have hafter := Work.preserved_trace m analyst f s
  refine ⟨hafter.registry.trans h.registry, hafter.substitution.trans h.substitution, ?_, ?_⟩
  · intro m'
    rw [hafter.hierarchy, h.hierarchy]
  · intro analyst' key t hknown
    rw [Work.knownTrace?_trace] at hknown
    split at hknown
    · rename_i hnew
      obtain ⟨g, hg, hkey, ht⟩ := h.exists_traceOf m analyst hf
      rw [Option.some.injEq, ht] at hknown
      rw [h.registry] at hnew
      exact ⟨g, hg, hkey.trans hnew.2.symm, hknown.symm⟩
    · exact h.traces analyst' key t hknown

/-- Where names are ASCII and all that was traced is found by name, the memory is up to date: a key
has one trace. -/
theorem Sourced.upToDate (h : s.Sourced r rules others) (hr : r.WellKeyed) (ha : r.AsciiNames)
    (hothers : ∀ g, others g → g.Askable r) (m : Memory) (analyst : Nat) : s.UpToDate m analyst := by
  refine ⟨by rw [h.hierarchy, h.registry], ?_⟩
  intro f hf
  rw [h.registry] at hf ⊢
  obtain ⟨g, hg, hkey, htrace⟩ := h.exists_traceOf m analyst (.inr hf)
  have hg' : g.Askable r := hg.elim (hothers g) id
  rw [htrace]
  exact Frame.trace_eq_of_memoKey hr ha hg' hf hkey

end

end Session

namespace Work

open Session

end Work

namespace DirectQuery

open Session

variable {r : Registry} {rules : RuleList SubstitutionRule} {others : Frame → Prop}

theorem answer_trace (f : Frame) (s : Session) :
    answer (.trace f) s = .trace (s.traceOf .session 0 f) :=
  congrArg Answer.trace (Work.value_trace .session 0 f s)

end DirectQuery

namespace Session

/-- The memory and the analyst that the queries of a session may ask. -/
def Uses (s : Session) (m : Memory) (analyst : Nat) : Prop :=
  s.substitution.memory = .picked ∨ m = .session ∧ analyst = 0

/-- The sessions that come about by indexing alone. Files may change meanwhile. -/
inductive IndexedOnly : Session → Prop
  | start {disk : Files.Disk} {threshold : Int} {substitution : Option (List SubstitutionRule)}
      {segregation : Option (List SegregationRule)} {s : Session}
      (hs : Session.start disk threshold substitution segregation = .ok s) : IndexedOnly s
  | index {s : Session} (hs : IndexedOnly s) (x : Source) : IndexedOnly (x.index.run s).2
  | write {s : Session} (hs : IndexedOnly s) (disk : Files.Disk) :
      IndexedOnly { s with disk := disk }

theorem indexed_index {s : Session} (hs : s.registry.Indexed) (x : Source) :
    (x.index.run s).2.registry.Indexed := by
  cases x with
  | file path => exact Source.indexed_indexing hs s.disk (.file path)
  | text path source parse => exact Source.indexed_indexing hs s.disk (.text path source parse)

theorem IndexedOnly.indexed {s : Session} (hs : s.IndexedOnly) : s.registry.Indexed := by
  induction hs with
  | start hs =>
    rw [(unasked_start hs).2.1]
    exact .empty
  | index _ x ih => exact indexed_index ih x
  | write _ disk ih => exact ih

theorem IndexedOnly.unasked {s : Session} (hs : s.IndexedOnly) : s.Unasked := by
  induction hs with
  | start hs => exact (unasked_start hs).1
  | index _ x ih =>
    cases x with
    | file path => exact ⟨ih.ancestors, ih.pickedAncestors, ih.traces⟩
    | text path source parse => exact ⟨ih.ancestors, ih.pickedAncestors, ih.traces⟩
  | write _ disk ih => exact ⟨ih.ancestors, ih.pickedAncestors, ih.traces⟩

end Session

namespace Work

open Session Sample

/-- Sessions over one registry whose memories are up to date answer alike. -/
theorem answer_eq_of_upToDate {s s' : Session} (hr : s.registry.WellKeyed)
    (hregistry : s'.registry = s.registry) (hrules : s'.substitution = s.substitution)
    (hup : ∀ m analyst, s.Uses m analyst → s.UpToDate m analyst)
    (hup' : ∀ m analyst, s.Uses m analyst → s'.UpToDate m analyst) (q : Query) :
    answer q s = answer q s' := by
  have hmirrors : Mirrors s.registry s.registry s.substitution s.Uses s s' :=
    mirrors_of_upToDate (Registry.Alike.refl s.registry) ⟨rfl, hregistry⟩ ⟨rfl, hrules⟩ hup hup'
  have hpicked : ∀ place, s.Uses s.substitution.memory (s.substitution.memory.analyst place) := by
    intro place
    cases hm : s.substitution.memory with
    | session => exact .inr ⟨rfl, rfl⟩
    | picked => exact .inl hm
  have hkept := kept_mirrors hr (Registry.Alike.refl s.registry) (.inr ⟨rfl, rfl⟩) hpicked
  exact (hkept.put q s s' hmirrors).1

/-- A class that keeps to its interface is declared once more, and then does not. -/
def redeclared : Source :=
  source "b.php" [classLike "class_declaration" "A" [] ["I"] [method "f" [throwNew "E"]]]

end Work

end ContractCheck
