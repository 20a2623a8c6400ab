import ContractCheck.Session.Checks
import ContractCheck.Proofs.Rules.Alike
import ContractCheck.Proofs.Session.Memory
import ContractCheck.Proofs.Session.Overrides

/-!
Work that runs on two sessions at once. Where the basic steps keep two sessions related and give the
same answers on both, so do all checks that are made of them.
-/
namespace ContractCheck

open Text TracedOrCycle

namespace Registry

/-- A class-like that questions can name, registered or built in, declares the method. -/
def Provides (r : Registry) (m : Method) : Prop :=
  ∃ name d, r.descriptor? name = some d ∧ m ∈ d.methods.values

theorem Declares.provides {r : Registry} {m : Method} (h : r.Declares m) : r.Provides m := by
  obtain ⟨name, d, hd, hm⟩ := h
  exact ⟨name, d, Hierarchy.descriptor?_of_class? hd, hm⟩

end Registry

structure Frame.Askable (r : Registry) (f : Frame) : Prop where
  method : r.Provides f.method
  context : ∀ c ∈ f.context, ∃ name, r.descriptor? name = some c

theorem Frame.Declared.askable {r : Registry} {f : Frame} (hf : f.Declared r) : f.Askable r := by
  refine ⟨hf.method.provides, ?_⟩
  intro c hc
  obtain ⟨name, hname⟩ := hf.context c hc
  exact ⟨name, Hierarchy.descriptor?_of_class? hname⟩

namespace Work

/-- On related sessions, the work has the same result, of which a property holds, and leaves related
sessions. -/
def Agree {α : Type} (R : Session → Session → Prop) (x : Work α) (Q : α → Prop) : Prop :=
  ∀ s s', R s s' → (x.run s).1 = (x.run s').1 ∧ Q (x.run s).1 ∧ R (x.run s).2 (x.run s').2

def AgreeOk {α : Type} (R : Session → Session → Prop) (x : Attempt α) (Q : α → Prop) : Prop :=
  Agree R x.run fun result => ∀ a, result = .ok a → Q a

section

variable {R : Session → Session → Prop} {α β : Type}

theorem Agree.mono {x : Work α} {Q Q' : α → Prop} (h : Agree R x Q) (hQ : ∀ a, Q a → Q' a) :
    Agree R x Q' := by
  intro s s' hs
  obtain ⟨hvalue, hq, hafter⟩ := h s s' hs
  exact ⟨hvalue, hQ _ hq, hafter⟩

theorem agree_pure {a : α} {Q : α → Prop} (ha : Q a) : Agree R (pure a) Q :=
  fun _ _ hs => ⟨rfl, ha, hs⟩

theorem agree_bind {x : Work α} {f : α → Work β} {P : α → Prop} {Q : β → Prop}
    (hx : Agree R x P) (hf : ∀ a, P a → Agree R (f a) Q) : Agree R (x >>= f) Q := by
  intro s s' hs
  obtain ⟨hvalue, hp, hafter⟩ := hx s s' hs
  rw [StateT.run_bind, StateT.run_bind]
  show ((f (x.run s).1).run (x.run s).2).1 = ((f (x.run s').1).run (x.run s').2).1 ∧
    Q ((f (x.run s).1).run (x.run s).2).1 ∧
    R ((f (x.run s).1).run (x.run s).2).2 ((f (x.run s').1).run (x.run s').2).2
  rw [← hvalue]
  exact hf _ hp _ _ hafter

/-- Work that goes on in the same way whichever of the two sessions it looks at. -/
theorem agree_get {f : Session → Work α} {Q : α → Prop}
    (hf : ∀ s s', R s s' → f s = f s' ∧ Agree R (f s) Q) : Agree R (get >>= f) Q := by
  intro s s' hs
  obtain ⟨heq, hagree⟩ := hf s s' hs
  rw [StateT.run_bind, StateT.run_bind, StateT.run_get, StateT.run_get, pure_bind, pure_bind]
  show ((f s).run s).1 = ((f s').run s').1 ∧ _ ∧ R ((f s).run s).2 ((f s').run s').2
  rw [← heq]
  exact hagree s s' hs

theorem agreeOk_pure {a : α} {Q : α → Prop} (ha : Q a) : AgreeOk R (pure a) Q := by
  apply agree_pure
  intro b hb
  cases hb
  exact ha

theorem agreeOk_throw {fault : CheckFault} {Q : α → Prop} : AgreeOk R (throw fault) Q := by
  apply agree_pure
  intro b hb
  cases hb

theorem agreeOk_lift {x : Work α} {Q : α → Prop} (hx : Agree R x Q) : AgreeOk R (liftM x) Q := by
  have hrun : (liftM x : Attempt α).run = x >>= fun a => pure (.ok a) := rfl
  rw [AgreeOk, hrun]
  apply agree_bind hx
  intro a ha
  exact agreeOk_pure ha

theorem agreeOk_bind {x : Attempt α} {f : α → Attempt β} {P : α → Prop} {Q : β → Prop}
    (hx : AgreeOk R x P) (hf : ∀ a, P a → AgreeOk R (f a) Q) : AgreeOk R (x >>= f) Q := by
  rw [AgreeOk, ExceptT.run_bind]
  apply agree_bind hx
  intro result hresult
  cases result with
  | ok a => exact hf a (hresult a rfl)
  | error fault => exact agreeOk_throw

theorem agreeOk_get {f : Session → Attempt α} {Q : α → Prop}
    (hf : ∀ s s', R s s' → f s = f s' ∧ AgreeOk R (f s) Q) : AgreeOk R (get >>= f) Q := by
  have hrun : (get >>= f : Attempt α).run = get >>= fun s => (f s).run := rfl
  rw [AgreeOk, hrun]
  apply agree_get
  intro s s' hs
  obtain ⟨heq, hagree⟩ := hf s s' hs
  exact ⟨congrArg ExceptT.run heq, hagree⟩

theorem agreeOk_gather {f : α → Attempt (List β)} {l : List α}
    (hf : ∀ a ∈ l, AgreeOk R (f a) fun _ => True) : AgreeOk R (gather f l) fun _ => True := by
  induction l with
  | nil => exact agreeOk_pure trivial
  | cons a l ih =>
    apply agreeOk_bind (hf a List.mem_cons_self)
    intro found _
    apply agreeOk_bind (ih fun b hb => hf b (List.mem_cons_of_mem a hb))
    intro more _
    exact agreeOk_pure trivial

end

def Everyone (_ : Memory) (_ : Nat) : Prop := True

theorem everyone (m : Memory) (analyst : Nat) : Everyone m analyst := trivial

def Uniform {α : Type} (question : Hierarchy → Traced α) : Prop :=
  ∀ h h', h.Alike h' → question h = question h'

/-- A relation between sessions over two registries, with given rules, which the basic steps keep:
questions to the memories in use, the traces of the analysts in use, and reports. -/
structure Kept (r r' : Registry) (rules : RuleList SubstitutionRule) (U : Memory → Nat → Prop)
    (R : Session → Session → Prop) : Prop where
  wellKeyed : r.WellKeyed
  alike : r.Alike r'
  session : U .session 0
  picked : ∀ place, U rules.memory (rules.memory.analyst place)
  registry : ∀ s s', R s s' → s.registry = r ∧ s'.registry = r'
  substitution : ∀ s s', R s s' → s.substitution = rules ∧ s'.substitution = rules
  report : ∀ n, Agree R (report n) fun _ => True
  ask : ∀ {α : Type} {m : Memory} {analyst : Nat}, U m analyst → ∀ question : Hierarchy → Traced α,
    Uniform question →
      Agree R (ask m question) fun a => ∃ h, h.registry = r ∧ a = (question h).value
  trace : ∀ {m : Memory} {analyst : Nat}, U m analyst → ∀ {f : Frame}, f.Askable r →
    Agree R (trace m analyst f.method f.context) fun _ => True

namespace Kept

variable {r r' : Registry} {rules : RuleList SubstitutionRule} {U : Memory → Nat → Prop}
  {R : Session → Session → Prop} (hR : Kept r r' rules U R)

include hR

theorem attempt {α : Type} {m : Memory} {analyst : Nat} (hm : U m analyst)
    {question : Hierarchy → TracedOrCycle α} (hq : ∀ h h', h.Alike h' → question h = question h') :
    AgreeOk R (attempt m question) fun a => ∃ h, h.registry = r ∧ Gives (question h) a := by
  rw [AgreeOk, Work.attempt, ExceptT.run_mk]
  have huniform : Uniform fun h => (question h).run := by
    intro h h' hh
    exact congrArg ExceptT.run (hq h h' hh)
  apply agree_bind (hR.ask hm _ huniform)
  intro result hresult
  obtain ⟨h, hr, hvalue⟩ := hresult
  cases result with
  | ok a => exact agreeOk_pure ⟨h, hr, hvalue.symm⟩
  | error e => exact agreeOk_throw

theorem load (name : String) : AgreeOk R (load name) fun d => r.class? name = some d := by
  apply agreeOk_get
  intro s s' hs
  obtain ⟨hr, hr'⟩ := hR.registry s s' hs
  rw [hr, hr', hR.alike.class?_eq]
  refine ⟨rfl, ?_⟩
  cases hd : r'.class? name with
  | none => exact agreeOk_throw
  | some d => exact agreeOk_pure rfl

theorem applySubstitution {o : Override} (ho : (⟨o.method, some o.cls⟩ : Frame).Askable r)
    (rule : SubstitutionRule × Nat) : Agree R (applySubstitution o rule) fun _ => True := by
  obtain ⟨rule, place⟩ := rule
  apply agree_get
  intro s s' hs
  obtain ⟨hrules, hrules'⟩ := hR.substitution s s' hs
  rw [hrules, hrules']
  refine ⟨rfl, ?_⟩
  have hm := hR.picked place
  cases rule with
  | exceptions =>
    apply agree_bind (hR.trace hm ho)
    intro thrown _
    exact (hR.ask hm _ fun h h' hh => by rw [hh.exceptionViolations_eq]).mono fun _ _ => trivial
  | returnType =>
    exact (hR.ask hm _ fun h h' hh => by rw [hh.returnViolations_eq]).mono fun _ _ => trivial
  | parameterTypes =>
    exact (hR.ask hm _ fun h h' hh => by rw [hh.parameterViolations_eq]).mono fun _ _ => trivial

theorem checkContract {name : String} {cls : ClassDecl} (hcls : r.class? name = some cls)
    {own : MethodTable} (hown : Gives (r.ownMethods cls) own) (contract : ClassDecl) :
    AgreeOk R (checkContract cls own contract) fun _ => True := by
  have hwell := Registry.wellNamed_ownMethods hR.wellKeyed hcls hown
  apply agreeOk_bind (hR.attempt hR.session fun h h' hh => by rw [hh.methodsOf_eq])
  intro asked _
  apply agreeOk_get
  intro s s' hs
  obtain ⟨hrules, hrules'⟩ := hR.substitution s s' hs
  rw [hrules, hrules']
  refine ⟨rfl, ?_⟩
  apply agreeOk_gather
  intro o ho
  -- traces are asked for declared methods on a registered class only
  obtain ⟨rfl, rfl, _, hfind, _⟩ := (Hierarchy.mem_overrides_iff _ _ _ _ o).1 ho
  have hf := Frame.declared_of_class? (hwell.of_find? hfind).2 hcls
  apply agreeOk_gather
  intro rule _
  exact agreeOk_lift (hR.applySubstitution hf.askable rule)

/-- The check of a class against its contracts agrees on related sessions. -/
theorem checkSubstitution (name : String) : AgreeOk R (checkSubstitution name) fun _ => True := by
  apply agreeOk_bind (hR.load name)
  intro cls hcls
  apply agreeOk_bind
    (hR.attempt hR.session fun h h' hh => by rw [hh.registry.ownMethods_eq])
  rintro own ⟨h, rfl, hown⟩
  apply agreeOk_bind (agreeOk_lift (hR.ask hR.session _ fun h h' hh => by rw [hh.contracts_eq]))
  intro contracts _
  apply agreeOk_bind (agreeOk_gather fun contract _ => hR.checkContract hcls hown contract)
  intro violations _
  apply agreeOk_bind (agreeOk_lift (hR.report _))
  intro _ _
  exact agreeOk_pure trivial

end Kept

end Work

end ContractCheck
