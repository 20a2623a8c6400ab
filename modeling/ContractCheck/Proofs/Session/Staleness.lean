import ContractCheck.Proofs.Session.Transparency

/-!
Sources that are indexed after queries. What was asked once is not worked out again, also where a
later source would change it. Main statement: a session that was asked meanwhile answers like one
that was not just when its memory is up to date.
-/
namespace ContractCheck

open Text

inductive Operation where
  | index (x : Source)
  | write (disk : Files.Disk)
  | ask (q : Query)

namespace Operation

def run : Operation → Session → Session
  | .index x, s => (x.index.run s).2
  | .write disk, s => { s with disk := disk }
  | .ask q, s => (q.put.run s).2

def isQuery : Operation → Bool
  | .ask _ => true
  | _ => false

end Operation

def Sample.early : List Operation := [
  .index (source "a.php" [classLike "class_declaration" "A" ["B"] [] []]),
  .ask (.ancestors "A"),
  .index (source "b.php" [classLike "class_declaration" "B" ["Exception"] [] []])]

namespace Session

open Work

def after (s : Session) (ops : List Operation) : Session :=
  ops.foldl (fun s op => op.run s) s

def unquestioned (s : Session) (ops : List Operation) : Session :=
  s.after (ops.filter (!·.isQuery))

theorem after_append (s : Session) (ops ops' : List Operation) :
    s.after (ops ++ ops') = (s.after ops).after ops' := by
  rw [after, List.foldl_append]
  rfl

theorem indexed_after {s : Session} (hs : s.registry.Indexed) (ops : List Operation) :
    (s.after ops).registry.Indexed := by
  induction ops generalizing s with
  | nil => exact hs
  | cons op ops ih =>
    apply ih
    cases op with
    | index x => exact indexed_index hs x
    | write disk => exact hs
    | ask q =>
      have hput := preserved_put hs.wellKeyed q
      show (q.put.run s).2.registry.Indexed
      rw [hput.registry]
      exact hs

theorem indexedOnly_unquestioned {s : Session} (hs : s.IndexedOnly) (ops : List Operation) :
    (s.unquestioned ops).IndexedOnly := by
  induction ops generalizing s with
  | nil => exact hs
  | cons op ops ih =>
    cases op with
    | index x => exact ih (hs.index x)
    | write disk => exact ih (hs.write disk)
    | ask q => exact ih hs

structure SameSources (s t : Session) : Prop where
  disk : s.disk = t.disk
  registry : s.registry = t.registry
  substitution : s.substitution = t.substitution

/-- Queries do not change what is registered, now or later. -/
theorem sameSources_unquestioned {s t : Session} (hs : s.registry.Indexed) (h : s.SameSources t)
    (ops : List Operation) : (s.after ops).SameSources (t.unquestioned ops) := by
  induction ops generalizing s t with
  | nil => exact h
  | cons op ops ih =>
    cases op with
    | index x =>
      apply ih (indexed_index hs x)
      cases x with
      | file path =>
        refine ⟨h.disk, ?_, h.substitution⟩
        show (s.registry.indexFile s.disk path).registry =
          (t.registry.indexFile t.disk path).registry
        rw [h.registry, h.disk]
      | text path source parse =>
        refine ⟨h.disk, ?_, h.substitution⟩
        show (s.registry.indexSource s.disk path source parse).registry =
          (t.registry.indexSource t.disk path source parse).registry
        rw [h.registry, h.disk]
    | write disk => exact ih hs ⟨rfl, h.registry, h.substitution⟩
    | ask q =>
      have hput := preserved_put hs.wellKeyed q
      apply ih
      · show (q.put.run s).2.registry.Indexed
        rw [hput.registry]
        exact hs
      · exact ⟨hput.disk.trans h.disk, hput.registry.trans h.registry,
          hput.substitution.trans h.substitution⟩

/-- What is remembered is never replaced. -/
theorem memo_after {s : Session} (hs : s.registry.Indexed) (ops : List Operation) {m : Memory}
    {key : String} {names : List String} (h : (s.memo m).find? key = some names) :
    ((s.after ops).memo m).find? key = some names := by
  induction ops generalizing s with
  | nil => exact h
  | cons op ops ih =>
    have hnext : (op.run s).registry.Indexed := indexed_after hs [op]
    apply ih hnext
    cases op with
    | index x =>
      cases x with
      | file path => cases m <;> exact h
      | text path source parse => cases m <;> exact h
    | write disk => cases m <;> exact h
    | ask q => exact (preserved_put hs.wellKeyed q).memo m key names h

theorem ancestorsOf_hierarchy (s : Session) (m : Memory) (name : String) :
    (s.hierarchy m).ancestorsOf name =
      ((s.memo m).find? (nameKey name)).getD (s.registry.ancestors name) :=
  rfl

theorem memo_remember (s : Session) (name : String) :
    ((s.remember .session name).memo .session).find? (nameKey name) =
      some ((s.hierarchy .session).ancestorsOf name) := by
  rw [remember]
  cases hf : (s.memo .session).find? (nameKey name) with
  | none =>
    have hkeys : nameKey name ∉ (s.memo .session).keys := (Table.find?_eq_none_iff _ _).1 hf
    have hnew : ¬ (s.memo .session).contains (nameKey name) = true :=
      mt ((s.memo .session).contains_iff_mem_keys _).1 hkeys
    rw [if_neg hnew]
    show ((s.memo .session).insertNew _ _).find? _ = _
    rw [Table.find?_insertNew_self hkeys, ancestorsOf_hierarchy, hf, Option.getD_none]
  | some names =>
    have hold : (s.memo .session).contains (nameKey name) = true := by
      rw [Table.contains_iff_mem_keys]
      by_contra hkeys
      rw [(Table.find?_eq_none_iff _ _).2 hkeys] at hf
      cases hf
    rw [if_pos hold, ancestorsOf_hierarchy, hf, Option.getD_some]

end Session

namespace Work

open Session Sample

theorem answer_ancestors (name : String) (s : Session) :
    answer (.ancestors name) s = .names ((s.hierarchy .session).ancestorsOf name) :=
  rfl

/-- The first answer on the ancestors of a name stands for good. -/
theorem answer_ancestors_after {s : Session} (hs : s.registry.Indexed) (name : String)
    (ops : List Operation) :
    answer (.ancestors name) (s.after (.ask (.ancestors name) :: ops)) =
      answer (.ancestors name) s := by
  have hnext : (s.remember .session name).registry.Indexed := by
    rw [(preserved_remember s .session name).registry]
    exact hs
  have hmemo := memo_after hnext ops (s.memo_remember name)
  have hafter : s.after (.ask (.ancestors name) :: ops) = (s.remember .session name).after ops :=
    rfl
  rw [hafter, answer_ancestors, answer_ancestors, ancestorsOf_hierarchy, hmemo, Option.getD_some]

theorem value_bind {α β : Type} (x : Work α) (f : α → Work β) (s : Session) :
    ((x >>= f).run s).1 = ((f (x.run s).1).run (x.run s).2).1 :=
  rfl

theorem run_descriptor (name : String) (s : Session) :
    (descriptor name).run s = (s.registry.descriptor? name, s) :=
  rfl

theorem run_context {f : Frame} {s : Session} (hr : s.registry.WellKeyed)
    (hf : f.Askable s.registry) :
    (context (f.context.map (·.name))).run s = (.ok f.context, s) := by
  cases hc : f.context with
  | none => rfl
  | some c =>
    obtain ⟨name, hname⟩ := hf.context c hc
    have hfound := Registry.descriptor?_name hr hname
    rw [Option.map_some, context, StateT.run_bind, run_descriptor, hfound]
    rfl

/-- The query for the trace of a frame is answered by the analyst of the session. -/
theorem answer_trace {s : Session} (hr : s.registry.WellKeyed) {f : Frame}
    (hf : f.Askable s.registry) :
    answer (.trace f.method.owner f.method.name (f.context.map (·.name))) s =
      .trace (s.traceOf .session 0 f) := by
  obtain ⟨d, hd, hm⟩ := hf.method.find? hr
  have hfind : ((ask .session (·.findMethod d f.method.name)).run s).1 = some f.method := by
    show ((s.hierarchy .session).findMethod d f.method.name).value = _
    have hown : (s.hierarchy .session).registry.ownMethod? d f.method.name = some f.method := by
      rw [Registry.ownMethod?, hm]
      rfl
    rw [Hierarchy.findMethod, hown]
    rfl
  have hafter := preserved_ask .session (·.findMethod d f.method.name) s
  rw [answer, Query.put, value_bind, run_descriptor, hd]
  simp only [value_bind, hfind]
  rw [run_context (hafter.registry ▸ hr) (hafter.registry ▸ hf)]
  simp only [value_bind]
  show Answer.trace ((trace .session 0 f.method f.context).run _).1 = _
  rw [value_trace, traceOf_ask]

/-- A session that is asked while sources are indexed, and one that is asked afterwards only: they
answer alike if the memory in use is up to date, and only if that of the session itself is. What was
asked of ancestors once keeps its first answer. Queries give class-likes by name, so each session
answers for those that it has registered or built in. -/
theorem interleaved_answers {s : Session} (hs : s.IndexedOnly) (ops : List Operation) :
    ((∀ m analyst, (s.after ops).Uses m analyst → (s.after ops).UpToDate m analyst) →
      ∀ q, answer q (s.after ops) = answer q (s.unquestioned ops)) ∧
    ((∀ q, answer q (s.after ops) = answer q (s.unquestioned ops)) →
      (s.after ops).UpToDate .session 0) ∧
    ∀ before name rest, ops = before ++ .ask (.ancestors name) :: rest →
      answer (.ancestors name) (s.after ops) = answer (.ancestors name) (s.after before) := by
  have hindexed := indexed_after hs.indexed ops
  have hsame := sameSources_unquestioned hs.indexed ⟨rfl, rfl, rfl⟩ ops
  have hfresh : ∀ m analyst, (s.unquestioned ops).UpToDate m analyst :=
    (indexedOnly_unquestioned hs ops).unasked.upToDate
  refine ⟨?_, ?_, ?_⟩
  · intro hup q
    exact answer_eq_of_upToDate hindexed.wellKeyed hsame.registry.symm hsame.substitution.symm hup
      (fun m analyst _ => hfresh m analyst) q
  · -- each remembered list and each remembered trace is itself the answer to a query
    intro hanswers
    have hancestors : (s.after ops).hierarchy .session =
        (s.unquestioned ops).hierarchy .session := by
      have hnames : ((s.after ops).hierarchy .session).ancestorsOf =
          ((s.unquestioned ops).hierarchy .session).ancestorsOf := by
        funext name
        have hname := hanswers (.ancestors name)
        rw [answer_ancestors, answer_ancestors] at hname
        exact Answer.names.inj hname
      rw [Hierarchy.mk.injEq]
      exact ⟨hsame.registry, hnames⟩
    refine ⟨?_, ?_⟩
    · rw [hancestors, (hfresh .session 0).ancestors, hsame.registry]
    · intro f hf
      have htrace := hanswers (.trace f.method.owner f.method.name (f.context.map (·.name)))
      rw [answer_trace hindexed.wellKeyed hf] at htrace
      rw [hsame.registry] at hf hindexed ⊢
      rw [answer_trace hindexed.wellKeyed hf, (hfresh .session 0).traces f hf] at htrace
      exact Answer.trace.inj htrace
  · rintro before name rest rfl
    rw [after_append]
    exact answer_ancestors_after (indexed_after hs.indexed before) name rest

theorem early_ancestors :
    ((opened.after early).hierarchy .session).ancestorsOf "A" = ["B"] ∧
      ((opened.unquestioned early).hierarchy .session).ancestorsOf "A" =
        ["B", "Exception", "Throwable", "Stringable"] := by
  decide +kernel

/-- The early answer stands, and the memory is out of date. -/
theorem interleaved_answers_early :
    let s := opened.after early
    answer (.ancestors "A") s = answer (.ancestors "A") (opened.after (early.take 1)) ∧
      ¬ ∀ m analyst, s.Uses m analyst → s.UpToDate m analyst := by
  intro s
  have hanswers := interleaved_answers (.start start_opened) early
  refine ⟨hanswers.2.2 _ _ _ rfl, ?_⟩
  intro hup
  have hancestors := hanswers.1 hup (.ancestors "A")
  rw [answer_ancestors, answer_ancestors, early_ancestors.1, early_ancestors.2] at hancestors
  cases hancestors

/-- The answer on the ancestors lacks those that the parent class brings. -/
theorem ancestors_answer_stale :
    answer (.ancestors "A") (opened.after early) = .names ["B"] ∧
      answer (.ancestors "A") (opened.unquestioned early) =
        .names ["B", "Exception", "Throwable", "Stringable"] :=
  ⟨congrArg Answer.names early_ancestors.1, congrArg Answer.names early_ancestors.2⟩

end Work

end ContractCheck
