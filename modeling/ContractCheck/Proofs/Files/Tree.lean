import ContractCheck.Proofs.Files.Paths

/-!
What stands where on a disk. Main statement: a path that is followed segment by segment, as the disk
has them, leads to what its folded form leads to.
-/
namespace ContractCheck.Files

open Text

def IsEntryName (s : String) : Prop :=
  IsName s ∧ s.utf8ByteSize ≤ maxNameSize

instance (s : String) : Decidable (IsEntryName s) :=
  inferInstanceAs (Decidable (_ ∧ _))

namespace Entry

mutual

def isProper : Entry → Bool
  | .file _ | .closed => true
  | .folder entries => areProper entries

def areProper : List (String × Entry) → Bool
  | [] => true
  | (name, e) :: rest =>
    decide (IsEntryName name) && decide (name ∉ rest.map (·.1)) && e.isProper && areProper rest

end

theorem areProper_iff (entries : List (String × Entry)) :
    areProper entries = true ↔ (entries.map (·.1)).Nodup ∧
      ∀ x ∈ entries, IsEntryName x.1 ∧ x.2.isProper = true := by
  induction entries with
  | nil => simp [areProper]
  | cons x rest ih =>
    simp only [areProper, Bool.and_eq_true, decide_eq_true_eq, ih, List.map_cons, List.nodup_cons,
      List.forall_mem_cons]
    tauto

inductive Has : Entry → List String → Entry → Prop
  | here (e : Entry) : Has e [] e
  | inside {entries : List (String × Entry)} {name : String} {e x : Entry} {rest : List String}
      (hmem : (name, e) ∈ entries) (h : Has e rest x) : Has (.folder entries) (name :: rest) x

theorem has_append_iff {e x : Entry} {front back : List String} :
    e.Has (front ++ back) x ↔ ∃ y, e.Has front y ∧ y.Has back x := by
  induction front generalizing e with
  | nil =>
    constructor
    · intro h
      exact ⟨e, .here e, h⟩
    · rintro ⟨y, hy, h⟩
      cases hy
      exact h
  | cons name front ih =>
    constructor
    · intro h
      cases h with
      | inside hmem h =>
        obtain ⟨y, hy, hx⟩ := ih.1 h
        exact ⟨y, .inside hmem hy, hx⟩
    · rintro ⟨y, hy, hx⟩
      cases hy with
      | inside hmem hy => exact .inside hmem (ih.2 ⟨y, hy, hx⟩)

theorem Has.isName {e x : Entry} {names : List String} (h : e.Has names x)
    (he : e.isProper = true) : ∀ s ∈ names, IsName s := by
  induction h with
  | here => simp
  | inside hmem _ ih =>
    obtain ⟨hname, hproper⟩ := ((areProper_iff _).1 he).2 _ hmem
    exact List.forall_mem_cons.2 ⟨hname.1, ih hproper⟩

theorem lookup_eq_some_iff {entries : List (String × Entry)} (hdistinct : (entries.map (·.1)).Nodup)
    (name : String) (e : Entry) : entries.lookup name = some e ↔ (name, e) ∈ entries := by
  induction entries with
  | nil => simp
  | cons x rest ih =>
    obtain ⟨n, old⟩ := x
    rw [List.map_cons, List.nodup_cons] at hdistinct
    rw [List.lookup_cons, List.mem_cons, Prod.mk.injEq]
    by_cases hn : name = n
    · subst hn
      have hrest : (name, e) ∉ rest := fun hmem => hdistinct.1 (List.mem_map.2 ⟨_, hmem, rfl⟩)
      simp [hrest, eq_comm]
    · have hb : (name == n) = false := beq_eq_false_iff_ne.2 hn
      simp [hn, hb, ih hdistinct.2]

/-- Going down finds what there is. -/
theorem descend_eq_entry_iff {e x : Entry} {names : List String} (he : e.isProper = true) :
    e.descend names = .entry x ↔ e.Has names x := by
  induction names generalizing e with
  | nil =>
    have hnil : e.descend [] = .entry e := by cases e <;> rfl
    rw [hnil, Found.entry.injEq]
    constructor
    · rintro rfl
      exact .here e
    · intro h
      cases h
      rfl
  | cons name rest ih =>
    cases e with
    | file _ | closed =>
      constructor
      · intro h
        cases h
      · intro h
        cases h
    | folder entries =>
      obtain ⟨hdistinct, hentries⟩ := (areProper_iff entries).1 he
      have hhas : (folder entries).Has (name :: rest) x ↔
          ∃ e, entries.lookup name = some e ∧ e.Has rest x := by
        constructor
        · intro h
          cases h with
          | inside hmem h => exact ⟨_, (lookup_eq_some_iff hdistinct name _).2 hmem, h⟩
        · rintro ⟨e, hfind, h⟩
          exact .inside ((lookup_eq_some_iff hdistinct name e).1 hfind) h
      rw [hhas, descend]
      cases hfind : entries.lookup name with
      | none => by_cases hlong : name.utf8ByteSize > maxNameSize <;> simp [hlong]
      | some next =>
        obtain ⟨hname, hnext⟩ :=
          hentries _ ((lookup_eq_some_iff hdistinct name next).1 hfind)
        rw [if_neg (Nat.not_lt.2 hname.2)]
        simp [ih hnext]

theorem Has.unique {e x y : Entry} {names : List String} (he : e.isProper = true)
    (hx : e.Has names x) (hy : e.Has names y) : x = y := by
  rw [← descend_eq_entry_iff he] at hx hy
  exact Found.entry.inj (hx.symm.trans hy)

mutual

def folders : Entry → List (List String)
  | .file _ => []
  | .closed => [[]]
  | .folder entries => [] :: foldersIn entries

def foldersIn : List (String × Entry) → List (List String)
  | [] => []
  | (name, e) :: rest => e.folders.map (name :: ·) ++ foldersIn rest

end

theorem mem_foldersIn {entries : List (String × Entry)} {name : String} {e : Entry}
    {names : List String} (hmem : (name, e) ∈ entries) (h : names ∈ e.folders) :
    name :: names ∈ foldersIn entries := by
  induction entries with
  | nil => cases hmem
  | cons x rest ih =>
    rw [foldersIn, List.mem_append]
    cases List.mem_cons.1 hmem with
    | inl heq =>
      cases heq
      exact Or.inl (List.mem_map_of_mem h)
    | inr hmem => exact Or.inr (ih hmem)

theorem Has.mem_folders {e x : Entry} {names : List String} (h : e.Has names x)
    (hx : x.isFolder = true) : names ∈ e.folders := by
  induction h with
  | here e =>
    cases e with
    | file f => cases hx
    | folder _ | closed => exact List.mem_cons_self
  | inside hmem _ ih => exact List.mem_cons_of_mem _ (mem_foldersIn hmem (ih hx))

end Entry

namespace Disk

structure Proper (d : Disk) : Prop where
  folder : d.root.isFolder = true
  root : d.root.isProper = true
  workingDirectory : d.workingDirectory.Proper

variable {d : Disk}

/-- Every segment leads where the fold leads: one that is left out stays at a folder, and a `..`
goes back from one. -/
theorem descend_of_follow {here segments : List String} {e : Entry}
    (h : d.follow here segments = .entry e) :
    d.root.descend ((segments.filter fun s => s != "" && s != ".").foldl Path.stepDots
      here.reverse).reverse = .entry e := by
  induction segments generalizing here with
  | nil => simpa [follow] using h
  | cons s rest ih =>
    rw [follow] at h
    split at h
    · by_cases hskip : (s = "" || s = ".") = true
      · rw [if_pos hskip] at h
        have hdrop : ¬ (s != "" && s != ".") = true := by
          simpa [or_iff_not_imp_left] using hskip
        rw [List.filter_cons, if_neg hdrop]
        exact ih h
      · rw [if_neg hskip] at h
        have hkeep : (s != "" && s != ".") = true := by simpa using hskip
        rw [List.filter_cons, if_pos hkeep, List.foldl_cons, Path.stepDots]
        by_cases hdots : s = ".."
        · -- at the root both stay: there is no last name to drop
          rw [if_pos hdots] at h ⊢
          rw [List.tail_reverse]
          exact ih h
        · rw [if_neg hdots] at h ⊢
          have happend : s :: here.reverse = (here ++ [s]).reverse := by simp
          rw [happend]
          exact ih h
    · cases h
    · by_cases hempty : s = ""
      · rw [if_pos hempty] at h
        rw [List.filter_cons, if_neg (by simp [hempty])]
        exact ih h
      · rw [if_neg hempty] at h
        cases h
    · rename_i hfolder hfile hclosed
      cases e with
      | file f => exact absurd h (hfile f)
      | folder entries => exact absurd h (hfolder entries)
      | closed => exact absurd h hclosed

/-- A list of names leads to what stands at its end. -/
theorem follow_of_has (hd : d.Proper) {here names : List String} {e : Entry}
    (hnames : ∀ s ∈ names, IsName s) (h : d.root.Has (here ++ names) e) :
    d.follow here names = .entry e := by
  induction names generalizing here with
  | nil =>
    rw [List.append_nil] at h
    exact (Entry.descend_eq_entry_iff hd.root).2 h
  | cons s rest ih =>
    obtain ⟨hempty, hdot, hdots, _⟩ := hnames s List.mem_cons_self
    obtain ⟨y, hy, hrest⟩ := Entry.has_append_iff.1 h
    cases hrest with
    | inside hmem hrest =>
      rw [follow, (Entry.descend_eq_entry_iff hd.root).2 hy]
      simp only [hempty, hdot, hdots, decide_false, Bool.or_self, if_false, Bool.false_eq_true]
      apply ih fun x hx => hnames x (List.mem_cons_of_mem s hx)
      rwa [List.append_assoc, List.singleton_append]

def start (d : Disk) (text : String) : List String :=
  if (Path.ofString text).isAbsolute then [] else d.workingDirectory.parts

theorem find?_eq_some_iff (d : Disk) (text : String) (e : Entry) :
    d.find? text = some e ↔ text ≠ "" ∧ text.utf8ByteSize ≤ maxPathSize ∧
      d.follow (d.start text) (splitText '/' text) = .entry e := by
  have hfind : d.find? text = some e ↔ d.locate text = .entry e := by
    rw [find?]
    cases d.locate text <;> simp
  rw [hfind, locate]
  by_cases hempty : text = ""
  · simp [hempty]
  · rw [if_neg hempty]
    by_cases hlong : text.utf8ByteSize > maxPathSize
    · simp [hlong, Nat.not_le.2 hlong]
    · rw [if_neg hlong]
      simp [hempty, Nat.not_lt.1 hlong, start]

/-- What a text leads to stands at the folded path of the text. -/
theorem has_absolute_of_find? (hd : d.Proper) {text : String} {e : Entry}
    (h : d.find? text = some e) :
    d.root.Has (Path.absolute d.workingDirectory text).parts e := by
  obtain ⟨_, _, hfollow⟩ := (find?_eq_some_iff d text e).1 h
  have hstart : ∀ s ∈ d.start text, s ≠ ".." := by
    intro s hs
    rw [start] at hs
    split at hs
    · cases hs
    · exact (hd.workingDirectory.names s hs).2.2.1
  rw [← Entry.descend_eq_entry_iff hd.root, Path.parts_absolute, ← start, Path.foldDots_eq,
    List.foldl_append, Path.foldl_stepDots_of_names hstart, List.append_nil]
  exact descend_of_follow hfollow

/-- A folded path leads to what stands there, unless it is too long. -/
theorem find?_render_iff (hd : d.Proper) {p : Path} (hp : p.Proper) (e : Entry) :
    d.find? p.render = some e ↔ p.render.utf8ByteSize ≤ maxPathSize ∧ d.root.Has p.parts e := by
  constructor
  · intro h
    have hhas := has_absolute_of_find? hd h
    rw [Path.parts_absolute_render _ hp] at hhas
    exact ⟨((find?_eq_some_iff d _ e).1 h).2.1, hhas⟩
  · rintro ⟨hsize, hhas⟩
    have hskip : ∀ rest, d.follow [] ("" :: rest) = d.follow [] rest := by
      intro rest
      have hfolder := hd.folder
      rw [follow]
      cases hr : d.root with
      | file f => simp [hr, Entry.isFolder] at hfolder
      | folder _ | closed => rfl
    refine (find?_eq_some_iff d _ e).2 ⟨?_, hsize, ?_⟩
    · intro hempty
      obtain ⟨cs, hcs⟩ := Path.exists_toList_render hp
      simp [hempty] at hcs
    · rw [start, Path.isAbsolute_ofString_render hp, if_pos rfl, Path.splitText_render hp, hskip]
      by_cases hnil : p.parts = []
      · rw [if_pos hnil, hskip]
        exact follow_of_has hd (by simp) (by simpa [hnil] using hhas)
      · rw [if_neg hnil]
        exact follow_of_has hd hp.names hhas

end Disk

end ContractCheck.Files
