import ContractCheck.Exceptions.Trace
import ContractCheck.Proofs.Hierarchy.Methods
import ContractCheck.Proofs.Syntax.Walk

/-!
Frames, what they throw by themselves and which frames they call. Both are read off the body of the
method alone, without any analysis.
-/
namespace ContractCheck

open Text

/-- What runs as part of a method is what stands in its body, but in no nested scope. -/
theorem Body.mem_places_iff {body : Syntax.Node} {place : Syntax.Cursor} :
    place ∈ Body.places body ↔
      ∃ p, body.Survives Body.isNestedScope p ∧ Syntax.Cursor.down? ⟨body, []⟩ p = some place :=
  Syntax.Cursor.mem_walk_iff

/-- An exception that a frame throws by itself: one that a throw in its body is known to throw. -/
def Frame.Throws (r : Registry) (f : Frame) (exception : String) : Prop :=
  ∃ body, f.method.body = some body ∧ ∃ place ∈ Body.places body,
    place.node.isThrow = true ∧ exception ∈ Body.thrownAt r (f.scope r) place

theorem Frame.throws_iff {r : Registry} {f : Frame} {body : Syntax.Node}
    (hb : f.method.body = some body) (exception : String) :
    f.Throws r exception ↔ exception ∈ f.thrown r body := by
  simp only [Throws, thrown, hb, Option.some.injEq, exists_eq_left', List.mem_flatMap,
    List.mem_filter, and_assoc]

theorem Frame.not_throws_of_no_body {r : Registry} {f : Frame} (hb : f.method.body = none)
    (exception : String) : ¬ f.Throws r exception := by
  rintro ⟨body, hb', _⟩
  simp [hb] at hb'

namespace Hierarchy

/-- A call in the body of a frame runs another frame: the call names a registered class, the method
is found there and has a body, and it runs on the class that the caller's class and the named one
decide. -/
def Follows (h : Hierarchy) (caller callee : Frame) : Prop :=
  ∃ body, caller.method.body = some body ∧ ∃ edge ∈ caller.calls h.registry body,
    ∃ named, h.registry.class? edge.className = some named ∧
      (h.findMethod named edge.method).value = some callee.method ∧
      callee.method.body.isSome ∧
      callee.context = some (h.calleeContext caller.context named).value

theorem callee?_eq_some_iff (h : Hierarchy) (caller : Frame) (edge : CallEdge) (callee : Frame) :
    (h.callee? caller edge).value = some callee ↔
      ∃ named, h.registry.class? edge.className = some named ∧
        (h.findMethod named edge.method).value = some callee.method ∧
        callee.method.body.isSome ∧
        callee.context = some (h.calleeContext caller.context named).value := by
  rw [callee?]
  cases hc : h.registry.class? edge.className with
  | none => simp
  | some named =>
    simp only [Traced.value_bind]
    cases hm : (h.findMethod named edge.method).value with
    | none => simp [hm]
    | some m =>
      by_cases hb : m.body.isNone
      · simp only [hb, if_true, Traced.value_pure, Option.some.injEq, exists_eq_left', hm]
        constructor
        · simp
        · rintro ⟨rfl, hs, _⟩
          simp [Option.isNone_iff_eq_none.1 hb] at hs
      · have hs : m.body.isSome := Option.isSome_iff_ne_none.2 (by simpa using hb)
        simp only [hb, if_false, Traced.value_bind, Traced.value_pure, Option.some.injEq,
          exists_eq_left', hm, Bool.false_eq_true]
        constructor
        · rintro rfl
          exact ⟨rfl, hs, rfl⟩
        · rintro ⟨rfl, _, hctx⟩
          cases callee
          simp_all

theorem follows_iff {h : Hierarchy} {caller : Frame} {body : Syntax.Node}
    (hb : caller.method.body = some body) (callee : Frame) :
    h.Follows caller callee ↔
      ∃ edge ∈ caller.calls h.registry body, (h.callee? caller edge).value = some callee := by
  simp only [Follows, hb, Option.some.injEq, exists_eq_left', callee?_eq_some_iff]

/-- Letter case of a call does not matter to its callee. -/
theorem callee?_congr (h : Hierarchy) (caller : Frame) {edge edge' : CallEdge}
    (hk : edge.key = edge'.key) :
    (h.callee? caller edge).value = (h.callee? caller edge').value := by
  simp only [CallEdge.key, Prod.mk.injEq] at hk
  apply Option.ext
  intro callee
  simp only [callee?_eq_some_iff, h.registry.class?_congr hk.1,
    fun d => h.findMethod_congr d hk.2]

def methodKeys (h : Hierarchy) : List String :=
  h.registry.declaredMethods.map fun m => lower m.qualifiedName

theorem key_mem_of_callee? {h : Hierarchy} {caller callee : Frame} {edge : CallEdge}
    (hc : (h.callee? caller edge).value = some callee) : callee.key ∈ h.methodKeys := by
  obtain ⟨named, hd, hm, hb, _⟩ := (h.callee?_eq_some_iff caller edge callee).1 hc
  have hmem := (declares_of_findMethod hd hm hb).mem
  exact List.mem_map.2 ⟨callee.method, hmem, rfl⟩

theorem body_of_callee? {h : Hierarchy} {caller callee : Frame} {edge : CallEdge}
    (hc : (h.callee? caller edge).value = some callee) : ∃ body, callee.method.body = some body := by
  obtain ⟨_, _, _, hb, _⟩ := (h.callee?_eq_some_iff caller edge callee).1 hc
  exact Option.isSome_iff_exists.1 hb

end Hierarchy

end ContractCheck
