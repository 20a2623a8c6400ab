import ContractCheck.Proofs.Exceptions.Announcements
import ContractCheck.Proofs.Exceptions.Contexts
import ContractCheck.Proofs.Hierarchy.NearestMethod
import ContractCheck.Proofs.Lists
import ContractCheck.Proofs.Session.Keys
import ContractCheck.Proofs.Session.Variance

/-!
Methods that do nothing but call another one. What they throw is what the callee throws, also where
the callee comes back to them. Main statement: a call on a new object runs on the class that is named,
unless the caller's class descends from it; then it runs on the caller's class.
-/
namespace ContractCheck

open Text Syntax

namespace Hierarchy

variable {h : Hierarchy}

structure Relays (h : Hierarchy) (f : Frame) (target : String) : Prop where
  silent : ∀ e, ¬ f.Throws h.registry e
  calls : ∀ g, h.Follows f g → g.key = target

theorem thrownHere_of_silent {f : Frame} (hf : ∀ e, ¬ f.Throws h.registry e) {body : Node}
    (hb : f.method.body = some body) : h.thrownHere f body = {} := by
  have hnone : f.thrown h.registry body = [] := by
    rw [List.eq_nil_iff_forall_not_mem]
    exact fun e he => hf e ((Frame.throws_iff hb e).2 he)
  rw [thrownHere, hnone]
  rfl

/-- A run whose callees were all entered before finds and enters nothing. -/
theorem idle_of_explores {f : Frame} {edges : List CallEdge} {s t : Tracing}
    {arrivals : List Frame} (run : Explores h f edges s arrivals t)
    (hknown : ∀ edge ∈ edges, ∀ g, (h.callee? f edge).value = some g → g.key ∈ s.entered.keys) :
    t.found = s.found ∧ t.entered = s.entered := by
  induction run with
  | done => exact ⟨rfl, rfl⟩
  | repeated _ _ ih => exact ih fun edge he => hknown edge (List.mem_cons_of_mem _ he)
  | unknown _ _ _ ih => exact ih fun edge he => hknown edge (List.mem_cons_of_mem _ he)
  | known _ _ _ _ ih => exact ih fun edge he => hknown edge (List.mem_cons_of_mem _ he)
  | entered _ hc hg => exact absurd (hknown _ List.mem_cons_self _ hc) hg

structure OneMore (key : String) (s s' : Tracing) : Prop where
  found : s'.found = s.found
  followed : s'.followed = s.followed
  entered : ∀ k, k ∈ s'.entered.keys ↔ k ∈ s.entered.keys ∨ k = key

theorem OneMore.follow {key : String} {s s' : Tracing} (hs : OneMore key s s') (edge : CallEdge) :
    OneMore key { s with followed := edge.key :: s.followed }
      { s' with followed := edge.key :: s'.followed } :=
  ⟨hs.found, by rw [hs.followed], hs.entered⟩

theorem OneMore.enter {key : String} {s s' : Tracing} (hs : OneMore key s s') (g : Frame)
    (found : Trace) :
    OneMore key { found, entered := s.entered.insertNew g.key g }
      { found, entered := s'.entered.insertNew g.key g } := by
  refine ⟨rfl, rfl, fun k => ?_⟩
  simp only [Table.mem_keys_insertNew, hs.entered]
  exact or_right_comm

/-- A run goes the same way where a method counts as entered from the start that only calls another
entered one: the run that does enter it leaves it with nothing. -/
theorem explores_oneMore {key target : String} {f : Frame} {edges : List CallEdge} {s t : Tracing}
    {arrivals : List Frame} (run : Explores h f edges s arrivals t)
    (hrelays : ∀ x edge g, (h.callee? x edge).value = some g → g.key = key → h.Relays g target)
    (htarget : target ∈ s.entered.keys) {s' : Tracing} (hs : OneMore key s s') :
    ∃ arrivals' t', Explores h f edges s' arrivals' t' ∧ OneMore key t t' := by
  induction run generalizing s' with
  | done => exact ⟨[], s', .done _ s', hs⟩
  | repeated hk _ ih =>
    obtain ⟨arrivals', t', run', ht⟩ := ih htarget hs
    exact ⟨arrivals', t', .repeated (hs.followed ▸ hk) run', ht⟩
  | @unknown f edge edges s t arrivals hk hc _ ih =>
    obtain ⟨arrivals', t', run', ht⟩ := ih htarget (hs.follow edge)
    exact ⟨arrivals', t', .unknown (hs.followed ▸ hk) hc run', ht⟩
  | @known f g edge edges s t arrivals hk hc hg _ ih =>
    obtain ⟨arrivals', t', run', ht⟩ := ih htarget (hs.follow edge)
    exact ⟨_, t', .known (hs.followed ▸ hk) hc ((hs.entered _).2 (Or.inl hg)) run', ht⟩
  | @entered f g edge edges s t u body inner arrivals hk hc hg hb callee _ ihCallee ih =>
    have htarget' : target ∈ u.entered.keys := by
      apply keys_subset_of_explores callee
      exact (Table.mem_keys_insertNew s.entered g.key target g).2 (Or.inl htarget)
    by_cases hkey : g.key = key
    · -- the callee only calls the entered method, so that its own run is an idle one
      have hrelay := hrelays f edge g hc hkey
      obtain ⟨hfound, hentered⟩ := idle_of_explores callee (by
        intro edge' he' z hz
        rw [hrelay.calls z ((follows_iff hb z).2 ⟨edge', he', hz⟩)]
        exact (Table.mem_keys_insertNew s.entered g.key target g).2 (Or.inl htarget))
      have hempty : u.found = {} := hfound.trans (thrownHere_of_silent hrelay.silent hb)
      have hs' : OneMore key
          ⟨s.found.addCallee f.method.qualifiedName u.found, edge.key :: s.followed, u.entered⟩
          { s' with followed := edge.key :: s'.followed } := by
        refine ⟨?_, by rw [hs.followed], fun k => ?_⟩
        · rw [hempty, hs.found]
          rfl
        · rw [hs.entered, hentered, Table.mem_keys_insertNew, hkey, or_assoc, or_self]
      obtain ⟨arrivals', t', run', ht⟩ := ih htarget' hs'
      exact ⟨_, t', .known (hs.followed ▸ hk) hc ((hs.entered _).2 (Or.inr hkey)) run', ht⟩
    · have hg' : g.key ∉ s'.entered.keys := by
        rw [hs.entered, not_or]
        exact ⟨hg, hkey⟩
      obtain ⟨inner', u', callee', hu⟩ := ihCallee
        ((Table.mem_keys_insertNew s.entered g.key target g).2 (Or.inl htarget))
        (hs.enter g (h.thrownHere g body))
      have hs' : OneMore key
          ⟨s.found.addCallee f.method.qualifiedName u.found, edge.key :: s.followed, u.entered⟩
          ⟨s'.found.addCallee f.method.qualifiedName u'.found, edge.key :: s'.followed,
            u'.entered⟩ :=
        ⟨by rw [hs.found, hu.found], by rw [hs.followed], hu.entered⟩
      obtain ⟨arrivals', t', run', ht⟩ := ih htarget' hs'
      exact ⟨_, t', .entered (hs.followed ▸ hk) hc hg' hb callee' run', ht⟩

/-- The trace of a frame is what a run over its calls finds. -/
theorem explores_of_trace (h : Hierarchy) {f : Frame} {body : Node}
    (hb : f.method.body = some body) :
    ∃ arrivals t, Explores h f (f.calls h.registry body)
      { found := h.thrownHere f body, entered := Table.insertNew {} f.key f } arrivals t ∧
      (h.trace f).value = t.found := by
  obtain ⟨arrivals, run⟩ := h.analyzes_of_depth f h.length_methodKeys_lt_maxDepth
  change Analyzes h f arrivals (h.trace f).value _ at run
  generalize (h.trace f).value = found at run ⊢
  generalize (h.analyze h.maxDepth f {}).value.2 = entered at run
  cases run with
  | announced hnone => simp [hb] at hnone
  | @defined body' arrivals t hb' run =>
    obtain rfl : body = body' := Option.some.inj (hb.symm.trans hb')
    exact ⟨arrivals, t, run, rfl⟩

theorem mem_keys_root (f : Frame) (k : String) :
    k ∈ (Table.insertNew {} f.key f : Entered).keys ↔ k = f.key := by
  rw [Table.mem_keys_insertNew]
  exact or_iff_right (List.not_mem_nil (a := k))

theorem trace_eq_of_explores {f : Frame} {body : Node} {arrivals : List Frame} {t : Tracing}
    (hb : f.method.body = some body)
    (run : Explores h f (f.calls h.registry body)
      { found := h.thrownHere f body, entered := Table.insertNew {} f.key f } arrivals t) :
    (h.trace f).value = t.found := by
  obtain ⟨arrivals', t', run', htrace⟩ := h.explores_of_trace hb
  rw [htrace, (explores_unique run' run).2]

/-- The analysis of a frame that only calls another one is the analysis of that one, led by the
caller, also where the callee comes back to the method of the caller. -/
theorem trace_of_relay {f g : Frame} {body : Node} {edge : CallEdge}
    (hbody : f.method.body = some body) (hsilent : ∀ e, ¬ f.Throws h.registry e)
    (hcalls : f.calls h.registry body = [edge]) (hcallee : (h.callee? f edge).value = some g)
    (hrelays : ∀ x edge y, (h.callee? x edge).value = some y → y.key = f.key →
      h.Relays y g.key) :
    (h.trace f).value = Trace.addCallee {} f.method.qualifiedName (h.trace g).value := by
  have hstart : h.thrownHere f body = {} := thrownHere_of_silent hsilent hbody
  obtain ⟨gbody, hg⟩ := body_of_callee? hcallee
  obtain ⟨_, t, run, htrace⟩ := h.explores_of_trace hg
  rw [htrace]
  have hentered : g.key ∈ (Table.insertNew {} g.key g : Entered).keys :=
    (mem_keys_root g g.key).2 rfl
  by_cases hkey : g.key = f.key
  · -- the method calls itself: neither analysis gets beyond it
    have hrelay := hrelays f edge g hcallee hkey
    obtain ⟨hfound, _⟩ := idle_of_explores run (by
      intro edge' he' z hz
      rw [hrelay.calls z ((follows_iff hg z).2 ⟨edge', he', hz⟩)]
      exact hentered)
    have hrun : Explores h f (f.calls h.registry body)
        { found := h.thrownHere f body, entered := Table.insertNew {} f.key f } [g]
        { followed := [edge.key], entered := Table.insertNew {} f.key f } := by
      rw [hcalls, hstart]
      exact .known (by simp) hcallee ((mem_keys_root f _).2 hkey) (.done f _)
    rw [trace_eq_of_explores hbody hrun, hfound, thrownHere_of_silent hrelay.silent hg]
    rfl
  · have hmore : OneMore f.key
        { found := h.thrownHere g gbody, entered := Table.insertNew {} g.key g }
        { found := h.thrownHere g gbody,
          entered := (Table.insertNew {} f.key f : Entered).insertNew g.key g } := by
      refine ⟨rfl, rfl, fun k => ?_⟩
      rw [Table.mem_keys_insertNew, mem_keys_root, mem_keys_root]
      exact or_comm
    obtain ⟨inner, t', run', ht⟩ := explores_oneMore run hrelays hentered hmore
    have hrun : Explores h f (f.calls h.registry body)
        { found := h.thrownHere f body, entered := Table.insertNew {} f.key f }
        ((g :: inner) ++ [])
        ⟨Trace.addCallee {} f.method.qualifiedName t'.found, [edge.key], t'.entered⟩ := by
      rw [hcalls, hstart]
      exact .entered (by simp) hcallee (mt (mem_keys_root f _).1 hkey) hg run' (.done f _)
    rw [trace_eq_of_explores hbody hrun, ht.found]

theorem tidy_trace (h : Hierarchy) {f : Frame} {body : Node} (hb : f.method.body = some body) :
    (h.trace f).value.Tidy := by
  obtain ⟨arrivals, t, run, htrace⟩ := h.explores_of_trace hb
  obtain ⟨_, new, hadds⟩ := adds_of_explores run hb (List.Subset.refl _)
    (h.tidy_thrownHere f body) (by intro edge hk; simp at hk)
  rw [htrace]
  exact hadds.tidy

theorem reports_iff_of_trace {f g : Frame} {body : Node} (hg : g.method.body = some body)
    (htrace : (h.trace f).value = Trace.addCallee {} f.method.qualifiedName (h.trace g).value)
    (e : String) : h.Reports f e ↔ h.Reports g e := by
  have hraised : lower e ∈ (h.trace f).value.raised ↔ lower e ∈ (h.trace g).value.raised := by
    rw [htrace, Trace.mem_raised_addCallee Trace.tidy_empty (h.tidy_trace hg)]
    exact or_iff_right (List.not_mem_nil (a := lower e))
  simpa only [Reports, Trace.raised, List.mem_map] using hraised

end Hierarchy

namespace Body

def acts (n : Node) : Bool :=
  n.isThrow || n.kind == "member_call_expression" || n.kind == "nullsafe_member_call_expression" ||
    n.kind == "scoped_call_expression"

def actions (body : Node) : List Node :=
  ((places body).map (·.node)).filter acts

/-- The call `(new X())->m()`, by the names as they are written. -/
structure CallsOnNew (written method : String) (n : Node) : Prop where
  kind : n.kind = "member_call_expression"
  name : ∃ name ∈ n.field? "name", name.kind = "name" ∧ name.text = method
  object : ∃ e ∈ (n.field? "object").bind Node.unwrap,
    e.isCreation = true ∧ e.createdClass = some written

instance (written method : String) (n : Node) : Decidable (CallsOnNew written method n) :=
  decidable_of_iff
    (n.kind = "member_call_expression" ∧
      (∃ name ∈ n.field? "name", name.kind = "name" ∧ name.text = method) ∧
      ∃ e ∈ (n.field? "object").bind Node.unwrap,
        e.isCreation = true ∧ e.createdClass = some written)
    ⟨fun h => ⟨h.1, h.2.1, h.2.2⟩, fun h => ⟨h.kind, h.name, h.object⟩⟩

variable {r : Registry} {body call : Node} {written method : String}

theorem CallsOnNew.not_isThrow (hcall : CallsOnNew written method call) : call.isThrow = false := by
  rw [Node.isThrow, hcall.kind]
  decide

theorem callsAt_of_not_acts {scope : Scope} {context : Option ClassDecl}
    {known : Table String (List String)} {place : Cursor} (hacts : acts place.node = false) :
    callsAt r scope context known place = [] := by
  simp only [acts, Bool.or_eq_false_iff] at hacts
  simp [callsAt, hacts]

theorem callsAt_of_callsOnNew (hcall : CallsOnNew written method call) (scope : Scope)
    (context : Option ClassDecl) (known : Table String (List String)) {place : Cursor}
    (hplace : place.node = call) :
    callsAt r scope context known place =
      [⟨r.resolve scope written, method, .newInstance, call.startLine⟩] := by
  obtain ⟨name, hname, hkind, rfl⟩ := hcall.name
  obtain ⟨e, hobject, hnew, hclass⟩ := hcall.object
  have hvariable : e.isVariable = false := by
    rw [Node.isCreation, beq_iff_eq] at hnew
    rw [Node.isVariable, hnew]
    decide
  rw [Option.mem_def] at hname hobject
  simp [callsAt, hplace, hcall.not_isThrow, hcall.kind, memberCalls, hname, hobject, hkind,
    hvariable, hnew, hclass]

/-- A body whose only action is a call on a new object makes that call, in whatever frame. -/
theorem calls_of_callsOnNew {f : Frame} (hactions : actions body = [call])
    (hcall : CallsOnNew written method call) :
    f.calls r body =
      [⟨r.resolve (f.scope r) written, method, .newInstance, call.startLine⟩] := by
  obtain ⟨place, hplace, hnode⟩ : ∃ place,
      (places body).filter (acts ·.node) = [place] ∧ place.node = call := by
    rw [actions, List.filter_map, List.map_eq_singleton_iff] at hactions
    exact hactions
  have hnil : ∀ known (p : Cursor), acts p.node = false →
      callsAt r (f.scope r) f.context known p = [] :=
    fun _ _ hp => callsAt_of_not_acts hp
  rw [Frame.calls, ← flatMap_filter_of_nil _ (hnil _), hplace, List.flatMap_singleton]
  exact callsAt_of_callsOnNew hcall _ _ _ hnode

theorem not_throws_of_callsOnNew {f : Frame} (hbody : f.method.body = some body)
    (hactions : actions body = [call]) (hcall : CallsOnNew written method call) (e : String) :
    ¬ f.Throws r e := by
  rintro ⟨body', hbody', place, hplace, hthrow, _⟩
  obtain rfl : body = body' := Option.some.inj (hbody.symm.trans hbody')
  have hmem : place.node ∈ actions body := by
    rw [actions, List.mem_filter, acts, hthrow]
    exact ⟨List.mem_map_of_mem hplace, rfl⟩
  rw [hactions, List.mem_singleton] at hmem
  rw [hmem, hcall.not_isThrow] at hthrow
  cases hthrow

end Body

namespace Registry

variable {r : Registry}

structure CallsNew (r : Registry) (d : ClassDecl) (m : Method) (created : ClassDecl)
    (method : String) : Prop where
  declared : m ∈ d.methods.values
  action : ∃ body call written, m.body = some body ∧ Body.actions body = [call] ∧
    Body.CallsOnNew written method call ∧ r.lookup d.scope written = some created ∧
    (d.kind = .trait → ¬ IsRelative written)

theorem callsNew_of_actions {d created : ClassDecl} {m : Method} {written method : String}
    (hm : m ∈ d.methods.values) (hkind : d.kind ≠ .trait)
    (hcreated : r.lookup d.scope written = some created)
    (haction : ∃ body ∈ m.body, (Body.actions body).length = 1 ∧
      ∀ call ∈ Body.actions body, Body.CallsOnNew written method call) :
    r.CallsNew d m created method := by
  obtain ⟨body, hbody, hlength, hcall⟩ := haction
  obtain ⟨call, hactions⟩ := List.length_eq_one_iff.1 hlength
  rw [hactions] at hcall
  exact ⟨hm, body, call, written, hbody, hactions, hcall call (List.mem_singleton_self call),
    hcreated, fun h => absurd h hkind⟩

theorem CallsNew.silent {d created : ClassDecl} {m : Method} {method : String}
    (hm : r.CallsNew d m created method) {f : Frame} (hf : f.method = m) (e : String) :
    ¬ f.Throws r e := by
  obtain ⟨body, call, written, hbody, hactions, hcall, _⟩ := hm.action
  exact Body.not_throws_of_callsOnNew (by rw [hf, hbody]) hactions hcall e

/-- Whatever the method runs on, it makes the same call. -/
theorem CallsNew.calls (hr : r.WellKeyed) {key : String} {d created : ClassDecl}
    (hd : r.class? key = some d) {m : Method} {method : String}
    (hm : r.CallsNew d m created method) :
    ∃ body edge, m.body = some body ∧ r.class? edge.className = some created ∧
      edge.method = method ∧ ∀ f : Frame, f.method = m → f.calls r body = [edge] := by
  obtain ⟨body, call, written, hbody, hactions, hcall, hcreated, hwritten⟩ := hm.action
  refine ⟨body, ⟨r.resolve d.scope written, method, .newInstance, call.startLine⟩, hbody,
    by rw [← hcreated, lookup], rfl, fun f hf => ?_⟩
  have hresolve : r.resolve (f.scope r) written = r.resolve d.scope written := by
    rw [Frame.scope, hf]
    exact resolve_methodScope hr hd hm.declared hwritten f.context
  rw [Body.calls_of_callsOnNew hactions hcall, hresolve]

/-- No other method of the program is entered under the key of a method. -/
def Sole (r : Registry) (m : Method) : Prop :=
  ∀ m', r.Declares m' → lower m'.qualifiedName = lower m.qualifiedName → m' = m

theorem sole_of_asciiNames (hr : r.WellKeyed) (ha : r.AsciiNames) {m : Method} (hm : r.Declares m) :
    r.Sole m := by
  intro m' hm' hkey
  have hascii : ∀ {m}, r.Declares m → Ascii m.owner ∧ Ascii m.name := by
    rintro m ⟨name, d, hd, hin⟩
    obtain ⟨hname, hmethods⟩ := ha.of_descriptor? (Hierarchy.descriptor?_of_class? hd)
    rw [(wellNamed_descriptor? hr (Hierarchy.descriptor?_of_class? hd)).of_mem_values hin]
    exact ⟨hname, hmethods m hin⟩
  obtain ⟨howner, hname⟩ := Ascii.qualified_inj (hascii hm').1 (hascii hm).1 (hascii hm').2
    (hascii hm).2 hkey
  exact hm'.provides.unique hr hm.provides howner hname

end Registry

namespace Hierarchy

variable {r : Registry}

theorem value_calleeContext (h : Hierarchy) (c named : ClassDecl) :
    (h.calleeContext (some c) named).value =
      if (h.isDescendant c.name named.name).value then c else named := by
  rw [calleeContext, Traced.value_bind]
  split <;> rfl

/-- A method that calls another one on a new object throws what that one throws when it runs on the
class that the analysis takes the object to be of. -/
theorem reports_of_callsNew {h : Hierarchy} (hr : h.registry.WellKeyed) {key method : String}
    {c created : ClassDecl} (hc : h.registry.class? key = some c) {m target : Method}
    (hm : h.registry.CallsNew c m created method) (hsole : h.registry.Sole m)
    (htarget : (h.findMethod created method).value = some target) (hbody : target.body.isSome)
    (e : String) :
    h.Reports ⟨m, some c⟩ e ↔
      h.Reports ⟨target, some (h.calleeContext (some c) created).value⟩ e := by
  obtain ⟨body, edge, hmbody, hclass, rfl, hcalls⟩ := hm.calls hr hc
  obtain ⟨tbody, htbody⟩ := Option.isSome_iff_exists.1 hbody
  have hcallee : (h.callee? ⟨m, some c⟩ edge).value =
      some ⟨target, some (h.calleeContext (some c) created).value⟩ :=
    (callee?_eq_some_iff _ _ _ _).2 ⟨created, hclass, htarget, hbody, rfl⟩
  refine reports_iff_of_trace htbody
    (trace_of_relay hmbody (hm.silent rfl) (hcalls _ rfl) hcallee ?_) e
  -- a frame under the key of the caller is one of the caller's method, and makes the same call
  intro x edge' y hy hkey
  obtain ⟨named, hnamed, hfind, hy', _⟩ := (callee?_eq_some_iff _ _ _ _).1 hy
  have hym : y.method = m := hsole y.method (declares_of_findMethod hnamed hfind hy') hkey
  refine ⟨hm.silent hym, fun z hz => ?_⟩
  obtain ⟨edge'', hin, hz⟩ := (follows_iff (by rw [hym, hmbody]) z).1 hz
  obtain rfl : edge'' = edge := by simpa [hcalls y hym] using hin
  obtain ⟨named', hnamed', hfind', _⟩ := (callee?_eq_some_iff _ _ _ _).1 hz
  obtain rfl : created = named' := Option.some.inj (hclass.symm.trans hnamed')
  have hzm : z.method = target := Option.some.inj (hfind'.symm.trans htarget)
  rw [Frame.key, hzm, Frame.key]

/-- A call on a new object runs on the class that is named, whatever is below, the caller itself
included. Where the caller's class descends from the named one, however, the call runs on the
caller's class. -/
theorem call_on_new_object_runs_on (hr : r.Indexed) {key method : String}
    {c created : ClassDecl} (hc : r.class? key = some c) {m target : Method}
    (hm : r.CallsNew c m created method) (hsole : r.Sole m)
    (htarget : ((ofRegistry r).findMethod created method).value = some target)
    (hbody : target.body.isSome) :
    (¬ Relation.ReflTransGen r.Extends (lower c.name) (lower created.name) →
      ∀ e, (ofRegistry r).Reports ⟨m, some c⟩ e ↔ (ofRegistry r).Reports ⟨target, some created⟩ e) ∧
    (Relation.ReflTransGen r.Extends (lower c.name) (lower created.name) →
      ∀ e, (ofRegistry r).Reports ⟨m, some c⟩ e ↔ (ofRegistry r).Reports ⟨target, some c⟩ e) := by
  have hkeyed := hr.wellKeyed
  have hreports := reports_of_callsNew hkeyed hc hm hsole htarget hbody
  rw [value_calleeContext] at hreports
  rw [← isDescendant_iff hkeyed (hkeyed.unslashed_of_class? hc)]
  constructor
  · intro hdesc
    simpa [hdesc] using hreports
  · intro hdesc
    simpa [hdesc] using hreports

/-- A class whose method runs a hook on `$this`, and another one that calls the method on a new
object of it. -/
def hooked (run hook : List Node) (parents : List String) (members : List Node) : Registry :=
  Sample.registry [
    Sample.classLike "class_declaration" "X" [] []
      [Sample.method "n" run, Sample.method "h" hook],
    Sample.classLike "class_declaration" "C" parents []
      (Sample.method "f" [Sample.callOnNew "X" "n"] :: members)]

def hookedCycle : Registry :=
  hooked [Sample.callOnThis "h", Sample.callOnNew "C" "f"] [Sample.throwNew "LogicException"] [] []

def hookedChild : Registry :=
  hooked [Sample.callOnThis "h"] [] ["X"] [Sample.method "h" [Sample.throwNew "LogicException"]]

theorem call_on_new_object_runs_on_cycle :
    ∃ c x m target, hookedCycle.class? "C" = some c ∧ hookedCycle.class? "X" = some x ∧
      c.method? "f" = some m ∧ ((ofRegistry hookedCycle).findMethod x "n").value = some target ∧
      hookedCycle.CallsNew c m x "n" ∧ hookedCycle.Sole m ∧
      ¬ Relation.ReflTransGen hookedCycle.Extends (lower c.name) (lower x.name) ∧
      (ofRegistry hookedCycle).Reports ⟨m, some c⟩ "LogicException" ∧
      ∀ e, (ofRegistry hookedCycle).Reports ⟨m, some c⟩ e ↔
        (ofRegistry hookedCycle).Reports ⟨target, some x⟩ e := by
  have hindexed : hookedCycle.Indexed := Sample.indexed_registry _
  have hkeyed := hindexed.wellKeyed
  obtain ⟨c, hc, x, hx, m, hm, target, htarget, hbody, hkind, hname, haction, hdesc, htrace⟩ :
      ∃ c ∈ hookedCycle.class? "C", ∃ x ∈ hookedCycle.class? "X", ∃ m ∈ c.method? "f",
        ∃ target ∈ ((ofRegistry hookedCycle).findMethod x "n").value, target.body.isSome ∧
          c.kind ≠ .trait ∧ hookedCycle.resolve c.scope "X" = "X" ∧
          (∃ body ∈ m.body, (Body.actions body).length = 1 ∧
            ∀ call ∈ Body.actions body, Body.CallsOnNew "X" "n" call) ∧
          ((ofRegistry hookedCycle).isDescendant c.name x.name).value = false ∧
          ((ofRegistry hookedCycle).trace ⟨m, some c⟩).value.keys = ["LogicException"] := by
    decide +kernel
  have hdeclared : m ∈ c.methods.values := Table.mem_values_of_find? hm
  have hcalls : hookedCycle.CallsNew c m x "n" :=
    Registry.callsNew_of_actions hdeclared hkind (by rw [Registry.lookup, hname]; exact hx) haction
  have hsole : hookedCycle.Sole m :=
    Registry.sole_of_asciiNames hkeyed (by decide +kernel) ⟨"C", c, hc, hdeclared⟩
  have hfar : ¬ Relation.ReflTransGen hookedCycle.Extends (lower c.name) (lower x.name) := by
    rw [← isDescendant_iff hkeyed (hkeyed.unslashed_of_class? hc), hdesc]
    exact Bool.false_ne_true
  refine ⟨c, x, m, target, hc, hx, hm, htarget, hcalls, hsole, hfar, ?_, ?_⟩
  · exact ⟨"LogicException", by rw [htrace]; exact List.mem_singleton_self _, rfl⟩
  · exact (call_on_new_object_runs_on hindexed hc hcalls hsole htarget hbody).1 hfar

/-- On a new object of the parent, the hook of the child is run. -/
theorem hook_of_child_run_on_new_parent :
    ∃ c x m target, hookedChild.class? "C" = some c ∧ hookedChild.class? "X" = some x ∧
      ((ofRegistry hookedChild).findMethod x "n").value = some target ∧ target.body.isSome ∧
      hookedChild.CallsNew c m x "n" ∧
      ((ofRegistry hookedChild).trace ⟨m, some c⟩).value.keys = ["LogicException"] ∧
      ((ofRegistry hookedChild).trace ⟨target, some x⟩).value.keys = [] := by
  obtain ⟨c, hc, x, hx, m, hm, target, htarget, hbody, hkind, hname, haction, htrace, htrace'⟩ :
      ∃ c ∈ hookedChild.class? "C", ∃ x ∈ hookedChild.class? "X", ∃ m ∈ c.method? "f",
        ∃ target ∈ ((ofRegistry hookedChild).findMethod x "n").value, target.body.isSome ∧
          c.kind ≠ .trait ∧ hookedChild.resolve c.scope "X" = "X" ∧
          (∃ body ∈ m.body, (Body.actions body).length = 1 ∧
            ∀ call ∈ Body.actions body, Body.CallsOnNew "X" "n" call) ∧
          ((ofRegistry hookedChild).trace ⟨m, some c⟩).value.keys = ["LogicException"] ∧
          ((ofRegistry hookedChild).trace ⟨target, some x⟩).value.keys = [] := by
    decide +kernel
  have hcalls : hookedChild.CallsNew c m x "n" :=
    Registry.callsNew_of_actions (Table.mem_values_of_find? hm) hkind
      (by rw [Registry.lookup, hname]; exact hx) haction
  exact ⟨c, x, m, target, hc, hx, htarget, hbody, hcalls, htrace, htrace'⟩

end Hierarchy

end ContractCheck
