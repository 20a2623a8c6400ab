import ContractCheck.Proofs.Hierarchy.Methods
import ContractCheck.Proofs.Hierarchy.Subtype
import ContractCheck.Proofs.Session.Keys
import ContractCheck.Proofs.Session.Reports
import ContractCheck.Proofs.Text.Breaks

/-!
Letter case does not matter to questions about names. Names that differ in letter case only resolve
to names that do, and every other question answers them alike and leaves the session behind in the
same state.
-/
namespace ContractCheck

open Text

namespace Text

/-- Names in two letter cases are cut at the same backslash, if there is one. -/
theorem cutFirst_congr {a b : String} (h : lower a = lower b) :
    Option.Rel (fun p q => lower (String.ofList p.1) = lower (String.ofList q.1) ∧
        lower (String.ofList p.2) = lower (String.ofList q.2))
      (cutFirst '\\' a.toList) (cutFirst '\\' b.toList) := by
  have hchars : lowerFrom [] a.toList = lowerFrom [] b.toList := String.ofList_injective h
  have hcut := congrArg (cutFirst '\\') hchars
  rw [cutFirst_lowerFrom, cutFirst_lowerFrom] at hcut
  cases ha : cutFirst '\\' a.toList with
  | none =>
    cases hb : cutFirst '\\' b.toList with
    | none => exact .none
    | some q =>
      rw [ha, hb] at hcut
      cases hcut
  | some p =>
    cases hb : cutFirst '\\' b.toList with
    | none =>
      rw [ha, hb] at hcut
      cases hcut
    | some q =>
      rw [ha, hb, Option.map_some, Option.map_some, Option.some.injEq, Prod.mk.injEq] at hcut
      apply Option.Rel.some
      simp only [lower, String.toList_ofList, hcut, and_self]

end Text

namespace Builtin

theorem name?_congr {a b : String} (h : lower a = lower b) : name? a = name? b := by
  rw [name?, name?, nameKey_congr h]

end Builtin

namespace Registry

variable {a b : String}

theorem importTarget?_congr (scope : Scope) (h : lower a = lower b) :
    importTarget? scope a = importTarget? scope b := by
  simp only [importTarget?, sameName, h]

theorem lower_resolvePlain_congr (r : Registry) (scope : Scope) (h : lower a = lower b) :
    lower (r.resolvePlain scope a) = lower (r.resolvePlain scope b) := by
  by_cases ha : Unslashed a
  · have hb : Unslashed b := unslashed_congr h ha
    rw [resolvePlain, resolvePlain, if_neg ha, if_neg hb]
    have hcut := cutFirst_congr h
    generalize cutFirst '\\' a.toList = cut, cutFirst '\\' b.toList = cut' at hcut ⊢
    cases hcut with
    | @some p q hpq =>
      obtain ⟨hfirst, hrest⟩ := hpq
      simp only [importTarget?_congr scope hfirst]
      cases importTarget? scope (String.ofList q.1) with
      | some target => simp only [lower_qualified, hrest]
      | none => exact h
    | none =>
      have hlocal : r.class? (scope.namespaceName ++ "\\" ++ a) =
          r.class? (scope.namespaceName ++ "\\" ++ b) :=
        r.class?_congr (by rw [lower_qualified, lower_qualified, h])
      simp only [importTarget?_congr scope h, hlocal, r.class?_congr h, Builtin.name?_congr h]
      cases importTarget? scope b with
      | some target => rfl
      | none =>
        dsimp only
        split
        · rfl
        · cases Builtin.name? b with
          | some spelling => rfl
          | none => exact h
  · have hb : ¬ Unslashed b := fun hb => ha (unslashed_congr h.symm hb)
    rw [resolvePlain, resolvePlain, if_pos (not_not.1 ha), if_pos (not_not.1 hb)]
    exact nameKey_congr h

theorem lower_resolve_congr (r : Registry) (scope : Scope) (h : lower a = lower b) :
    lower (r.resolve scope a) = lower (r.resolve scope b) := by
  have hname : lower (dropBackslashes (trimText a)) = lower (dropBackslashes (trimText b)) :=
    nameKey_congr (by rw [lower_trimText, lower_trimText, h])
  have hordinary : lower (if a.toList.head? = some '\\' then dropBackslashes (trimText a)
        else r.resolvePlain scope (dropBackslashes (trimText a))) =
      lower (if b.toList.head? = some '\\' then dropBackslashes (trimText b)
        else r.resolvePlain scope (dropBackslashes (trimText b))) := by
    by_cases ha : Unslashed a
    · rw [if_neg ha, if_neg (unslashed_congr h ha)]
      exact r.lower_resolvePlain_congr scope hname
    · have hb : ¬ Unslashed b := fun hb => ha (unslashed_congr h.symm hb)
      rw [if_pos (not_not.1 ha), if_pos (not_not.1 hb)]
      exact hname
  rw [resolve, resolve, hname]
  generalize (if a.toList.head? = some '\\' then _ else _ : String) = x,
    (if b.toList.head? = some '\\' then _ else _ : String) = y at hordinary ⊢
  split
  · rfl
  · split
    · cases scope.className with
      | some c => rfl
      | none => exact hordinary
    · split
      · cases scope.parentRef with
        | some ref => rfl
        | none => exact hordinary
      · exact hordinary

end Registry

namespace Traced

/-- The same answer, on trails that a session takes over alike. -/
structure Alike {α : Type} (x y : Traced α) : Prop where
  value : x.value = y.value
  absorbed : ∀ m s, x.events.foldl (Session.absorb m) s = y.events.foldl (Session.absorb m) s

theorem Alike.refl {α : Type} (x : Traced α) : x.Alike x :=
  ⟨rfl, fun _ _ => rfl⟩

theorem Alike.bind {α β : Type} {x y : Traced α} (hxy : x.Alike y) {f g : α → Traced β}
    (hfg : ∀ a, (f a).Alike (g a)) : (x >>= f).Alike (y >>= g) := by
  refine ⟨?_, ?_⟩
  · rw [value_bind, value_bind, hxy.value, (hfg y.value).value]
  · intro m s
    show (x.events ++ (f x.value).events).foldl _ s = (y.events ++ (g y.value).events).foldl _ s
    rw [List.foldl_append, List.foldl_append, hxy.absorbed, hxy.value, (hfg y.value).absorbed]

theorem Alike.anyM {α : Type} {R : α → α → Prop} {p q : α → Traced Bool}
    (hpq : ∀ a b, R a b → (p a).Alike (q b)) {as bs : List α} (h : List.Forall₂ R as bs) :
    (as.anyM p).Alike (bs.anyM q) := by
  induction h with
  | nil => exact .refl _
  | cons hab _ ih =>
    rw [List.anyM, List.anyM]
    apply (hpq _ _ hab).bind
    rintro (_ | _)
    · exact ih
    · exact .refl _

end Traced

namespace Session

variable {a b : String}

theorem remember_congr (s : Session) (m : Memory) (h : lower a = lower b) :
    s.remember m a = s.remember m b := by
  rw [remember, remember, nameKey_congr h, s.registry.ancestors_congr (nameKey_congr h)]

theorem ancestorsOf_congr (s : Session) (m : Memory) (h : lower a = lower b) :
    (s.hierarchy m).ancestorsOf a = (s.hierarchy m).ancestorsOf b := by
  simp only [hierarchy, nameKey_congr h, s.registry.ancestors_congr (nameKey_congr h)]

theorem alike_ancestors (s : Session) (m : Memory) (h : lower a = lower b) :
    ((s.hierarchy m).ancestors a).Alike ((s.hierarchy m).ancestors b) := by
  refine ⟨s.ancestorsOf_congr m h, ?_⟩
  intro m' t
  exact t.remember_congr m' h

theorem alike_isDescendant (s : Session) (m : Memory) {c d : String} (hab : lower a = lower b)
    (hcd : lower c = lower d) :
    ((s.hierarchy m).isDescendant a c).Alike ((s.hierarchy m).isDescendant b d) := by
  rw [Hierarchy.isDescendant, Hierarchy.isDescendant]
  have hsame : sameName a c = sameName b d := by rw [sameName, sameName, hab, hcd]
  rw [hsame]
  split
  · exact .refl _
  · apply (s.alike_ancestors m hab).bind
    intro names
    simp only [sameName, hcd]
    exact .refl _

theorem alike_isSubtype (s : Session) (m : Memory) (scope : Scope) (hab : lower a = lower b)
    {as bs : List String} (h : List.Forall₂ (fun c d => lower c = lower d) as bs) :
    ((s.hierarchy m).isSubtype scope a as).Alike ((s.hierarchy m).isSubtype scope b bs) := by
  apply Traced.Alike.anyM _ h
  intro c d hcd
  exact s.alike_isDescendant m (s.registry.lower_resolve_congr scope hab)
    (s.registry.lower_resolve_congr scope hcd)

end Session

namespace Work

theorem run_ask_congr {α : Type} {m : Memory} {q q' : Hierarchy → Traced α} {s : Session}
    (h : (q (s.hierarchy m)).Alike (q' (s.hierarchy m))) : (ask m q).run s = (ask m q').run s :=
  Prod.ext h.value (h.absorbed m s)

end Work

/-- In every session, and whatever it remembers, names that differ in letter case only stand for the
same: they resolve alike, and each question about them has one answer and leaves one session. -/
theorem Session.names_in_any_letter_case (s : Session) (m : Memory) (scope : Scope) {a b : String}
    (hab : sameName a b = true) :
    sameName (s.registry.resolve scope a) (s.registry.resolve scope b) = true ∧
      s.registry.class? a = s.registry.class? b ∧
      s.registry.descriptor? a = s.registry.descriptor? b ∧
      s.registry.isKnown a = s.registry.isKnown b ∧
      (Work.ask m (·.ancestors a)).run s = (Work.ask m (·.ancestors b)).run s ∧
      (∀ d : ClassDecl,
        (Work.ask m (·.findMethod d a)).run s = (Work.ask m (·.findMethod d b)).run s) ∧
      ∀ as bs : List String, List.Forall₂ (sameName · · = true) as bs →
        (Work.ask m (·.isSubtype scope a as)).run s = (Work.ask m (·.isSubtype scope b bs)).run s := by
  simp only [sameName, beq_iff_eq] at hab ⊢
  refine ⟨s.registry.lower_resolve_congr scope hab, s.registry.class?_congr hab,
    s.registry.descriptor?_congr (nameKey_congr hab), s.registry.isKnown_congr hab,
    Work.run_ask_congr (s.alike_ancestors m hab), ?_, ?_⟩
  · intro d
    simp only [fun h => Hierarchy.findMethod_congr h d hab]
  · intro as bs h
    exact Work.run_ask_congr (s.alike_isSubtype m scope hab h)

def Sample.circle : Session :=
  session [
    classLike "interface_declaration" "Shape" [] [] [announcement "draw"],
    classLike "class_declaration" "Circle" [] ["Shape"] [method "draw" []]]

def Sample.gallery : Scope where
  namespaceName := "Gallery"
  imports := ⟨[("Round", "Circle")]⟩

theorem Session.names_in_any_letter_case_circle :
    sameName "Round" "rOUND" = true ∧
      List.Forall₂ (sameName · · = true) ["Countable", "Shape"] ["COUNTABLE", "shape"] ∧
      Sample.circle.registry.resolve Sample.gallery "rOUND" = "Circle" ∧
      sameName (Sample.circle.registry.resolve Sample.gallery "Round") "Circle" = true ∧
      ((Work.ask .session (·.isSubtype Sample.gallery "Round" ["Countable", "Shape"])).run
        Sample.circle).1 = true ∧
      (Work.ask .session (·.isSubtype Sample.gallery "Round" ["Countable", "Shape"])).run
          Sample.circle =
        (Work.ask .session (·.isSubtype Sample.gallery "rOUND" ["COUNTABLE", "shape"])).run
          Sample.circle := by
  have hname : sameName "Round" "rOUND" = true := by decide +kernel
  have hallowed : List.Forall₂ (sameName · · = true) ["Countable", "Shape"] ["COUNTABLE", "shape"] :=
    .cons (by decide +kernel) (.cons (by decide +kernel) .nil)
  have hcircle : Sample.circle.registry.resolve Sample.gallery "rOUND" = "Circle" := by
    decide +kernel
  have hverdict : ((Work.ask .session (·.isSubtype Sample.gallery "Round" ["Countable", "Shape"])).run
      Sample.circle).1 = true := by
    decide +kernel
  obtain ⟨hresolve, -, -, -, -, -, hsubtype⟩ :=
    Session.names_in_any_letter_case Sample.circle .session Sample.gallery hname
  rw [hcircle] at hresolve
  exact ⟨hname, hallowed, hcircle, hresolve, hverdict, hsubtype _ _ hallowed⟩

end ContractCheck
