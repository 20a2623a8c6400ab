import ContractCheck.Proofs.Docblock
import ContractCheck.Proofs.Exceptions.Names
import ContractCheck.Proofs.Sample
import ContractCheck.Proofs.Text.Spacing

/-!
Names in docblocks and names in code. A docblock is read without the backslash that marks a full
name, so such a name is resolved like any other there, while a throw takes it as it is. Main
statement: a docblock with one tag announces what is thrown under the same name, unless that name is
a full one that an import, a class of the namespace or another spelling takes away.
-/
namespace ContractCheck

open Text

namespace Text

theorem trimText_of_visible {name : String} (h : name.toList.all (!isSpace ·) = true) :
    trimText name = name := by
  have hcollapse : collapse name.toList = name.toList := by
    apply collapse_self
    simpa using h
  have htrim := trim_collapse name.toList
  rw [hcollapse] at htrim
  rw [trimText, htrim, String.ofList_toList]

theorem eq_append_of_cutFirst {sep : Char} {cs a b : List Char} (h : cutFirst sep cs = some (a, b)) :
    cs = a ++ sep :: b := by
  induction cs generalizing a with
  | nil => cases h
  | cons c cs ih =>
    rw [cutFirst] at h
    by_cases hc : c = sep
    · rw [if_pos hc] at h
      cases h
      rw [hc, List.nil_append]
    · rw [if_neg hc] at h
      obtain ⟨⟨front, back⟩, hcut, heq⟩ := Option.map_eq_some_iff.1 h
      cases heq
      rw [ih hcut, List.cons_append]

end Text

namespace Registry

variable {r : Registry} {scope : Scope} {name : String}

/-- A word that stands for the same in every namespace, with a backslash in front or without. -/
def IsKeyword (scope : Scope) (name : String) : Prop :=
  TypeExpr.isScalarName (lower name) = true ∨ lower name = "self" ∨ lower name = "static" ∨
    (lower name = "parent" ∧ scope.parentRef.isSome = true)

/-- A full name that is taken for another one where it is written without its backslash. -/
inductive Misread (r : Registry) (scope : Scope) (name : String) : Prop
  | segment {first rest : List Char} {target : String}
      (hcut : cutFirst '\\' name.toList = some (first, rest))
      (himport : importTarget? scope (String.ofList first) = some target)
      (hne : target ≠ String.ofList first)
  | imported {target : String} (hcut : cutFirst '\\' name.toList = none)
      (himport : importTarget? scope name = some target) (hne : target ≠ name)
  | inNamespace {d : ClassDecl} (hcut : cutFirst '\\' name.toList = none)
      (himport : importTarget? scope name = none) (hnamespace : scope.namespaceName ≠ "")
      (hd : r.class? (scope.namespaceName ++ "\\" ++ name) = some d) (hne : d.name ≠ name)
  | respelt {spelling : String} (hcut : cutFirst '\\' name.toList = none)
      (himport : importTarget? scope name = none)
      (hlocal : scope.namespaceName ≠ "" → r.class? (scope.namespaceName ++ "\\" ++ name) = none)
      (hknown : ((r.class? name).map (·.name)).orElse (fun _ => Builtin.name? name) = some spelling)
      (hne : spelling ≠ name)

theorem eq_of_cutFirst {first rest : List Char}
    (hcut : cutFirst '\\' name.toList = some (first, rest)) :
    name = String.ofList first ++ "\\" ++ String.ofList rest := by
  apply String.toList_injective
  simp [eq_append_of_cutFirst hcut]

theorem local_eq_none
    (h : scope.namespaceName ≠ "" → r.class? (scope.namespaceName ++ "\\" ++ name) = none) :
    (if scope.namespaceName = "" then none
      else r.class? (scope.namespaceName ++ "\\" ++ name)) = none := by
  by_cases hne : scope.namespaceName = ""
  · rw [if_pos hne]
  · rw [if_neg hne, h hne]

theorem resolvePlain_ne_of_misread (hname : Unslashed name) (h : r.Misread scope name) :
    r.resolvePlain scope name ≠ name := by
  rw [resolvePlain, if_neg hname]
  cases h with
  | @segment first rest target hcut himport hne =>
    simp only [hcut, himport]
    intro heq
    have happend := heq.trans (eq_of_cutFirst hcut)
    rw [String.append_left_inj, String.append_left_inj] at happend
    exact hne happend
  | imported hcut himport hne =>
    simp only [hcut, himport]
    exact hne
  | inNamespace hcut himport hnamespace hd hne =>
    simp only [hcut, himport, hnamespace, if_false, hd, Option.orElse_some]
    exact hne
  | @respelt spelling hcut himport hlocal hknown hne =>
    simp only [hcut, himport, local_eq_none hlocal, Option.orElse_none]
    cases hd : r.class? name with
    | some d =>
      simp only [hd, Option.map_some, Option.orElse_some, Option.some.injEq] at hknown
      simpa [hknown] using hne
    | none =>
      simp only [hd, Option.map_none, Option.orElse_none] at hknown
      simpa [hknown] using hne

/-- A name is resolved to another one for one of four reasons only. -/
theorem misread_of_resolvePlain_ne (hname : Unslashed name)
    (h : r.resolvePlain scope name ≠ name) : r.Misread scope name := by
  rw [resolvePlain, if_neg hname] at h
  cases hcut : cutFirst '\\' name.toList with
  | some parts =>
    simp only [hcut] at h
    cases himport : importTarget? scope (String.ofList parts.1) with
    | none => simp [himport] at h
    | some target =>
      simp only [himport] at h
      refine .segment hcut himport fun heq => h ?_
      rw [heq]
      exact (eq_of_cutFirst hcut).symm
  | none =>
    simp only [hcut] at h
    cases himport : importTarget? scope name with
    | some target =>
      simp only [himport] at h
      exact .imported hcut himport h
    | none =>
      simp only [himport] at h
      by_cases hhere : scope.namespaceName ≠ "" ∧
          (r.class? (scope.namespaceName ++ "\\" ++ name)).isSome = true
      · obtain ⟨d, hd⟩ := Option.isSome_iff_exists.1 hhere.2
        simp only [hhere.1, if_false, hd, Option.orElse_some] at h
        exact .inNamespace hcut himport hhere.1 hd h
      · have hlocal : scope.namespaceName ≠ "" →
            r.class? (scope.namespaceName ++ "\\" ++ name) = none := by
          intro hne
          simpa [hne] using hhere
        simp only [local_eq_none hlocal, Option.orElse_none] at h
        cases hd : r.class? name with
        | some d =>
          simp only [hd] at h
          exact .respelt hcut himport hlocal (by simp [hd]) h
        | none =>
          simp only [hd] at h
          cases hbuiltin : Builtin.name? name with
          | none => simp [hbuiltin] at h
          | some spelling =>
            simp only [hbuiltin, Option.getD_some] at h
            exact .respelt hcut himport hlocal (by simp [hd, hbuiltin]) h

/-- Without its backslash a full name is resolved alike, unless it is misread. -/
theorem resolve_dropBackslashes_iff {className : String} (hclass : scope.className = some className)
    (hvisible : name.toList.all (!isSpace ·) = true) (hslash : ¬ Unslashed name) :
    r.resolve scope (dropBackslashes name) = r.resolve scope name ↔
      IsKeyword scope (dropBackslashes name) ∨ ¬ r.Misread scope (dropBackslashes name) := by
  have hhead : name.toList.head? = some '\\' := by simpa [Unslashed] using hslash
  have hbare := unslashed_dropBackslashes name
  have hvisible' : (dropBackslashes name).toList.all (!isSpace ·) = true := by
    rw [dropBackslashes, String.toList_ofList, List.all_eq_true]
    intro c hc
    exact List.all_eq_true.1 hvisible c ((List.dropWhile_suffix _).subset hc)
  have hplain : r.Misread scope (dropBackslashes name) ↔
      r.resolvePlain scope (dropBackslashes name) ≠ dropBackslashes name :=
    ⟨resolvePlain_ne_of_misread hbare, misread_of_resolvePlain_ne hbare⟩
  rw [hplain, not_not, resolve, resolve, trimText_of_visible hvisible, trimText_of_visible hvisible',
    dropBackslashes_of_unslashed hbare, IsKeyword]
  simp only [hhead, if_true, if_neg hbare, hclass, Option.getD_some]
  by_cases hscalar : TypeExpr.isScalarName (lower (dropBackslashes name)) = true
  · simp [hscalar]
  by_cases hself : lower (dropBackslashes name) = "self" ∨ lower (dropBackslashes name) = "static"
  · simp only [hscalar, if_false, Bool.or_eq_true, decide_eq_true_eq, if_pos hself, true_iff,
      Bool.false_eq_true]
    exact .inl (.inr (hself.imp_right .inl))
  rw [not_or] at hself
  by_cases hparent : lower (dropBackslashes name) = "parent"
  · rw [hparent] at hscalar
    cases href : scope.parentRef with
    | some ref => simp [hparent]
    | none => simp [hscalar, hparent]
  · simp [hscalar, hself, hparent]

end Registry

namespace Syntax.Node

def ThrowsNew (name : String) (n : Node) : Prop :=
  ∃ e, n.thrown = some e ∧ e.isCreation = true ∧ e.createdClass = some name

end Syntax.Node

namespace Registry

open Docblock

variable {r : Registry}

theorem class?_owner (hr : r.WellKeyed) {key : String} {d : ClassDecl}
    (hd : r.class? key = some d) {m : Method} (hm : m ∈ d.methods.values) :
    r.class? m.owner = some d := by
  obtain ⟨k, hk⟩ := (d.methods.mem_values_iff m).1 hm
  rw [((hr.read_of_find? hd).methods _ hk).2]
  exact class?_name hr hd

/-- The names in a method stand for what they do in the class-like that declares it. -/
theorem methodScope_of_declared (hr : r.WellKeyed) {key : String} {d : ClassDecl}
    (hd : r.class? key = some d) {m : Method} (hm : m ∈ d.methods.values)
    {context : Option ClassDecl} (hcontext : d.kind = .trait → context = none) :
    r.methodScope m context = d.scope := by
  rw [methodScope, class?_owner hr hd hm]
  by_cases hkind : d.kind = .trait
  · rw [hcontext hkind]
    simp only [hkind]
  · simp only
    split
    · exact absurd ‹d.kind = .trait› hkind
    · rfl

/-- A name in a method stands for what it does in the class-like that declares the method, whatever
the method runs on, but for the relative names in a trait. -/
theorem resolve_methodScope (hr : r.WellKeyed) {key : String} {d : ClassDecl}
    (hd : r.class? key = some d) {m : Method} (hm : m ∈ d.methods.values) {written : String}
    (hwritten : d.kind = .trait → ¬ IsRelative written) (context : Option ClassDecl) :
    r.resolve (r.methodScope m context) written = r.resolve d.scope written := by
  by_cases hkind : d.kind = .trait
  · cases context with
    | none => rw [methodScope_of_declared hr hd hm fun _ => rfl]
    | some c =>
      rw [methodScope_of_trait (class?_owner hr hd hm) hkind c]
      refine resolve_congr ?_ ?_ (hwritten hkind)
      · rfl
      · rfl
  · rw [methodScope_of_declared hr hd hm fun h => absurd h hkind]

/-- What a name in a method of a class-like stands for, given the class that the method runs on. The
relative names in a trait are about that class, and all others about the class-like itself. -/
inductive Denotes (r : Registry) (d : ClassDecl) : Option ClassDecl → String → String → Prop
  | declared {context : Option ClassDecl} {written : String}
      (h : d.kind = .trait → context = none ∨ ¬ IsRelative written) :
      Denotes r d context written (r.resolve d.scope written)
  | running {c : ClassDecl} {written : String} (hkind : d.kind = .trait)
      (hword : bareWord written ∈ ["self", "static"]) : Denotes r d (some c) written c.name
  | parent {c : ClassDecl} {written p : String} (hkind : d.kind = .trait)
      (hword : bareWord written = "parent") (hp : r.parentOf c = some p) :
      Denotes r d (some c) written p
  | orphan {c : ClassDecl} {written : String} (hkind : d.kind = .trait)
      (hword : bareWord written = "parent") (hp : r.parentOf c = none) :
      Denotes r d (some c) written (r.resolve { d.scope with parentRef := none } written)

theorem denotes_resolve_methodScope (hr : r.WellKeyed) {key : String} {d : ClassDecl}
    (hd : r.class? key = some d) {m : Method} (hm : m ∈ d.methods.values)
    {context : Option ClassDecl} (hcontext : ∀ c ∈ context, ∃ n, r.class? n = some c)
    (written : String) :
    r.Denotes d context written (r.resolve (r.methodScope m context) written) := by
  by_cases hplain : d.kind = .trait → context = none ∨ ¬ IsRelative written
  · have hresolve : r.resolve (r.methodScope m context) written = r.resolve d.scope written := by
      by_cases hnone : context = none
      · rw [methodScope_of_declared hr hd hm fun _ => hnone]
      · exact resolve_methodScope hr hd hm (fun hkind => (hplain hkind).resolve_left hnone) context
    rw [hresolve]
    exact .declared hplain
  · obtain ⟨hkind, hrelative⟩ := Classical.not_imp.1 hplain
    rw [not_or, not_not] at hrelative
    obtain ⟨c, rfl⟩ := Option.ne_none_iff_exists'.1 hrelative.1
    have hscope := methodScope_of_trait (class?_owner hr hd hm) hkind c
    by_cases hself : bareWord written ∈ ["self", "static"]
    · rw [hscope, resolve_self hself rfl]
      exact .running hkind hself
    · have hword : bareWord written = "parent" := by
        have hmem := hrelative.2
        simp only [IsRelative, List.mem_cons, List.not_mem_nil, or_false, not_or] at hmem hself
        exact (hmem.resolve_left hself.1).resolve_left hself.2
      cases hp : r.parentOf c with
      | some p =>
        obtain ⟨n, hn⟩ := hcontext c rfl
        rw [hscope, resolve_parent hword (by simp [hp]) (unslashed_of_parentOf hr hn hp)]
        exact .parent hkind hword hp
      | none =>
        have horphan : r.resolve (r.methodScope m (some c)) written =
            r.resolve { d.scope with parentRef := none } written := by
          rw [hscope]
          exact resolve_orphan hword rfl rfl (by simp [hp]) rfl
        rw [horphan]
        exact .orphan hkind hword hp

/-- A docblock with one tag announces what the name in it stands for without its backslashes. A new
object is thrown under what the name stands for as it is written, where the relative names in a trait
are about the class that the method runs on. Of a name without white space the docblock announces what
it stands for in the class-like, unless it is a full one and misread. -/
theorem announced_singleTag (hr : r.Indexed) {key : String} {d : ClassDecl}
    (hd : r.class? key = some d) {m : Method} (hm : m ∈ d.methods.values) {name doc : String}
    (hname : IsClassName name) (hdoc : m.doc = some doc) (htag : SingleTag name.toList doc) :
    r.announced m = ((readName name.toList).map (r.resolve d.scope)).toList ∧
    (∀ f : Frame, f.method ∈ d.methods.values → (∀ c ∈ f.context, ∃ n, r.class? n = some c) →
      ∀ place : Syntax.Cursor, place.node.ThrowsNew name →
        ∃ e, Body.thrownAt r (f.scope r) place = [e] ∧ r.Denotes d f.context name e) ∧
    (name.toList.all (!isSpace ·) = true →
      (r.announced m = [r.resolve d.scope name] ↔
        Unslashed name ∨ IsKeyword d.scope (dropBackslashes name) ∨
          ¬ r.Misread d.scope (dropBackslashes name))) := by
  have hannounced : r.announced m = ((readName name.toList).map (r.resolve d.scope)).toList := by
    rw [announced, methodScope_of_declared hr.wellKeyed hd hm fun _ => rfl, announcedIn, hdoc,
      Option.getD_some, thrownNames_of_singleTag hname htag]
    cases readName name.toList <;> rfl
  refine ⟨hannounced, ?_, ?_⟩
  · intro f hf hcontext place hthrow
    obtain ⟨e, hthrown, hnew, hclass⟩ := hthrow
    refine ⟨r.resolve (f.scope r) name, ?_, ?_⟩
    · rw [Body.thrownAt, hthrown]
      simp [hnew, hclass]
    · exact denotes_resolve_methodScope hr.wellKeyed hd hf hcontext name
  · intro hvisible
    have hread : readName name.toList = some (dropBackslashes name) := by
      have hall : name.toList.takeWhile (!isSpace ·) = name.toList := by
        simpa using hvisible
      have hne : name.toList.dropWhile (· = '\\') ≠ [] := by
        obtain ⟨c, hc, hcne⟩ := hname.named
        intro hnil
        exact hcne (by simpa using List.dropWhile_eq_nil_iff.1 hnil c hc)
      simp only [readName, hall, hne, if_false]
      rfl
    rw [hannounced, hread, Option.map_some, Option.toList_some, List.cons.injEq]
    by_cases hslash : Unslashed name
    · simp [hslash, dropBackslashes_of_unslashed hslash]
    · simp only [and_true, hslash, false_or]
      exact resolve_dropBackslashes_iff rfl hvisible hslash

/-- A class that announces and throws the exception of a full name, whose first segment is also the
alias of an import. -/
def aliased : Registry :=
  Sample.registry [
    Sample.node "namespace_definition" "" "" [Sample.node "namespace_name" "name" "App" []],
    Sample.node "namespace_use_declaration" "" "use Lib\\A;" [],
    Sample.classLike "class_declaration" "C" [] []
      [Sample.docblock "/** @throws \\A\\B */", Sample.method "f" [Sample.throwNew "\\A\\B"]]]

theorem announced_singleTag_aliased :
    ∃ d, aliased.class? "App\\C" = some d ∧ ∃ m ∈ d.methods.values,
      aliased.announced m = ["Lib\\A\\B"] ∧ aliased.Misread d.scope "A\\B" ∧
      ∀ place : Syntax.Cursor, place.node.ThrowsNew "\\A\\B" →
        Body.thrownAt aliased ((⟨m, some d⟩ : Frame).scope aliased) place = ["A\\B"] := by
  have hread : (aliased.class? "App\\C").any (fun d =>
      d.kind == .cls && aliased.resolve d.scope "A\\B" == "Lib\\A\\B" &&
      aliased.resolve d.scope "\\A\\B" == "A\\B" &&
      d.methods.values.any (·.doc == some "/** @throws \\A\\B */")) = true := by
    decide +kernel
  cases hd : aliased.class? "App\\C" with
  | none =>
    rw [hd] at hread
    cases hread
  | some d =>
    rw [hd, Option.any_some] at hread
    simp only [Bool.and_eq_true, beq_iff_eq, List.any_eq_true] at hread
    obtain ⟨⟨⟨hkind, hbare⟩, hfull⟩, m, hm, hdoc⟩ := hread
    have hname : IsClassName "\\A\\B" := by
      have hchars : "\\A\\B".toList.all (fun c => isIdentifierChar c || c == '\\') = true := by
        decide
      exact ⟨fun c hc => by simpa using List.all_eq_true.1 hchars c hc, 'A', by decide, by decide⟩
    have htag : SingleTag "\\A\\B".toList "/** @throws \\A\\B */" := by
      have hline : TagLine "\\A\\B".toList "/** @throws \\A\\B */".toList :=
        ⟨[], "/**".toList, [' '], [' '], " */".toList, by decide, by simp, by simp, by simp [isBlank],
          by simp [isBlank], by simp, by simp [isSpace]⟩
      exact @SingleTag.lines _ [] [] _ hline (by decide) (by simp)
    have hindexed : aliased.Indexed := Sample.indexed_registry _
    obtain ⟨hannounced, hthrown, hagree⟩ := announced_singleTag hindexed hd hm hname hdoc htag
    have hannounced' : aliased.announced m = ["Lib\\A\\B"] := by
      rw [← hbare]
      exact hannounced
    refine ⟨d, rfl, m, hm, hannounced', ?_, ?_⟩
    · by_contra hmisread
      have h := (hagree (by decide)).2 (.inr (.inr hmisread))
      rw [hannounced', hfull] at h
      exact absurd h (by decide)
    · intro place hplace
      have hcontext : ∀ c ∈ some d, ∃ n, aliased.class? n = some c := by
        intro c hc
        cases hc
        exact ⟨_, hd⟩
      obtain ⟨e, he, hdenotes⟩ := hthrown ⟨m, some d⟩ hm hcontext place hplace
      rw [he, ← hfull]
      cases hdenotes with
      | declared _ => rfl
      | running htrait _ | parent htrait _ _ | orphan htrait _ _ =>
        rw [hkind] at htrait
        cases htrait

/-- The full name denotes another exception in the docblock than in the code. -/
theorem full_name_announced_as_alias :
    ∃ d ∈ aliased.class? "App\\C", ∃ m ∈ d.method? "f",
      m.doc = some "/** @throws \\A\\B */" ∧ aliased.resolve d.scope "\\A\\B" = "A\\B" ∧
      aliased.announced m = ["Lib\\A\\B"] ∧
      ∃ body ∈ m.body, (⟨m, some d⟩ : Frame).thrown aliased body = ["A\\B"] := by
  decide +kernel

end Registry

end ContractCheck
