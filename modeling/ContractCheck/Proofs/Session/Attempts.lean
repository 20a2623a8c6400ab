import ContractCheck.Proofs.Session.Recall

/-!
When attempts succeed, and what they do. An attempt asks one question after another, and fails at
the first one that has no answer.
-/
namespace ContractCheck.Work

open Session TracedOrCycle

theorem exists_yields_of_isSome {α : Type} {x : Attempt α} {s : Session}
    (h : (x.run.run s).1.toOption.isSome = true) : ∃ a t, Yields x s a t := by
  cases hx : x.run.run s with
  | mk result t =>
    rw [hx] at h
    cases result with
    | error e => cases h
    | ok a => exact ⟨a, t, hx⟩

theorem yields_attempt_iff {α : Type} {m : Memory} {question : Hierarchy → TracedOrCycle α}
    {s t : Session} {a : α} :
    Yields (attempt m question) s a t ↔ Gives (question (s.hierarchy m)) a ∧
      ((ask m fun h => (question h).run).run s).2 = t := by
  have hask : (ask m question).run s = ((question (s.hierarchy m)).run.value,
      ((ask m fun h => (question h).run).run s).2) := rfl
  rw [Yields, attempt, ExceptT.run_mk, StateT.run_bind, hask, Gives]
  cases (question (s.hierarchy m)).run.value with
  | error e =>
    cases e
    constructor
    · intro h
      cases h
    · intro h
      cases h.1
  | ok b =>
    constructor
    · intro h
      cases h
      exact ⟨rfl, rfl⟩
    · intro h
      obtain ⟨hvalue, rfl⟩ := h
      cases hvalue
      rfl

theorem preserved_of_attempt {α : Type} {m : Memory} {question : Hierarchy → TracedOrCycle α}
    {s t : Session} {a : α} (h : Yields (attempt m question) s a t) :
    Gives (question (s.hierarchy m)) a ∧ s.Preserved t := by
  obtain ⟨hgives, rfl⟩ := yields_attempt_iff.1 h
  exact ⟨hgives, preserved_ask m _ s⟩

theorem exists_attempt_iff {α : Type} (m : Memory) (question : Hierarchy → TracedOrCycle α)
    (s : Session) : (∃ a t, Yields (attempt m question) s a t) ↔
      ∃ a, Gives (question (s.hierarchy m)) a := by
  simp [yields_attempt_iff]

theorem yields_bind_iff {α β : Type} {x : Attempt α} {f : α → Attempt β} {s u : Session} {b : β} :
    Yields (x >>= f) s b u ↔ ∃ a t, Yields x s a t ∧ Yields (f a) t b u := by
  refine ⟨yields_bind, ?_⟩
  intro h
  obtain ⟨a, t, ha, hb⟩ := h
  rw [Yields] at ha hb ⊢
  rw [ExceptT.run_bind, StateT.run_bind, ha]
  exact hb

theorem yields_get_bind_iff {β : Type} {f : Session → Attempt β} {s t : Session} {b : β} :
    Yields (get >>= f) s b t ↔ Yields (f s) s b t := by
  rw [yields_bind_iff]
  constructor
  · intro h
    obtain ⟨_, _, hget, h⟩ := h
    obtain ⟨rfl, rfl⟩ := yields_get hget
    exact h
  · intro h
    exact ⟨s, s, rfl, h⟩

/-- What each step of a traversal keeps, the traversal keeps. -/
theorem gather_keeps {α β : Type} {f : α → Attempt (List β)} {P : Session → Prop} {l : List α}
    (hkeep : ∀ a ∈ l, ∀ s found t, P s → Yields (f a) s found t → P t) {s t : Session}
    {found : List β} (hs : P s) (h : Yields (gather f l) s found t) : P t := by
  induction l generalizing s found with
  | nil =>
    obtain ⟨rfl, rfl⟩ := yields_pure h
    exact hs
  | cons a l ih =>
    obtain ⟨first, u, hfirst, h⟩ := yields_bind h
    obtain ⟨more, v, hmore, h⟩ := yields_bind h
    obtain ⟨rfl, rfl⟩ := yields_pure h
    exact ih (fun b hb => hkeep b (List.mem_cons_of_mem a hb))
      (hkeep a List.mem_cons_self s first u hs hfirst) hmore

/-- A traversal succeeds if each of its steps does, where what the steps need is kept. -/
theorem exists_gather_iff {α β : Type} {f : α → Attempt (List β)} (P : Session → Prop)
    {A : α → Prop} {l : List α}
    (hstep : ∀ a ∈ l, ∀ s, P s → ((∃ found t, Yields (f a) s found t) ↔ A a))
    (hkeep : ∀ a ∈ l, ∀ s found t, P s → Yields (f a) s found t → P t) {s : Session} (hs : P s) :
    (∃ found t, Yields (gather f l) s found t) ↔ ∀ a ∈ l, A a := by
  induction l generalizing s with
  | nil =>
    have hnone : Yields (gather f []) s [] s := rfl
    exact iff_of_true ⟨[], s, hnone⟩ fun a ha => by cases ha
  | cons a l ih =>
    have htail : ∀ u, P u → ((∃ found t, Yields (gather f l) u found t) ↔ ∀ b ∈ l, A b) :=
      fun u hu => ih (fun b hb => hstep b (List.mem_cons_of_mem a hb))
        (fun b hb => hkeep b (List.mem_cons_of_mem a hb)) hu
    rw [List.forall_mem_cons, ← hstep a List.mem_cons_self s hs]
    constructor
    · intro h
      obtain ⟨_, _, h⟩ := h
      obtain ⟨first, u, hfirst, h⟩ := yields_bind h
      obtain ⟨more, v, hmore, _⟩ := yields_bind h
      have hu := hkeep a List.mem_cons_self s first u hs hfirst
      exact ⟨⟨first, u, hfirst⟩, (htail u hu).1 ⟨more, v, hmore⟩⟩
    · intro h
      obtain ⟨⟨first, u, hfirst⟩, hrest⟩ := h
      have hu := hkeep a List.mem_cons_self s first u hs hfirst
      obtain ⟨more, v, hmore⟩ := (htail u hu).2 hrest
      exact ⟨first ++ more, v, yields_bind_iff.2 ⟨first, u, hfirst,
        yields_bind_iff.2 ⟨more, v, hmore, rfl⟩⟩⟩

end ContractCheck.Work
