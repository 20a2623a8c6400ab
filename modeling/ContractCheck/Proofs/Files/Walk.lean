import ContractCheck.Proofs.Files.Tree

/-!
The walk below a directory. It leaves out a folder that is excluded or cannot be opened, with all
that is in it, and asks again for each file. Main statement: it lists the PHP files for which
nothing on the way to them is left out.
-/
namespace ContractCheck.Files

open Text

def Path.down (p : Path) (names : List String) : Path :=
  { p with parts := p.parts ++ names }

theorem Path.down_nil (p : Path) : p.down [] = p := by
  rw [down, List.append_nil]

theorem Path.down_child (p : Path) (name : String) (names : List String) :
    (p.child name).down names = p.down (name :: names) := by
  simp [down, child]

theorem Path.Proper.of_prefix {p : Path} {names front : List String} (hp : (p.down names).Proper)
    (hfront : front <+: names) : (p.down front).Proper :=
  ⟨hp.anchor, fun s hs => hp.names s (((List.prefix_append_right_inj p.parts).2 hfront).subset hs)⟩

def Path.downText (text : String) (names : List String) : String :=
  names.foldl childText text

theorem Path.size_childText_ge (text name : String) :
    text.utf8ByteSize + name.utf8ByteSize ≤ (childText text name).utf8ByteSize := by
  rw [childText]
  split <;> simp only [String.utf8ByteSize_append] <;> omega

theorem Path.size_downText_le (text : String) {front names : List String} (h : front <+: names) :
    (downText text front).utf8ByteSize ≤ (downText text names).utf8ByteSize := by
  obtain ⟨back, rfl⟩ := h
  rw [downText, downText, List.foldl_append]
  generalize front.foldl childText text = start
  induction back generalizing start with
  | nil => exact le_rfl
  | cons name back ih =>
    have hstep := size_childText_ge start name
    exact (Nat.le_of_add_right_le hstep).trans (ih (childText start name))

def FitsPath (text : String) (folders : List String) : Prop :=
  (Path.downText text folders).utf8ByteSize ≤ maxPathSize

instance (text : String) (folders : List String) : Decidable (FitsPath text folders) :=
  inferInstanceAs (Decidable (_ ≤ _))

def EndsPhp (names : List String) : Prop :=
  ∃ name ∈ names.getLast?, name.endsWith ".php" = true

/-- A PHP file below an entry at a path. All on the way to it are kept, and the folders among them
can be opened. -/
structure Walked (ex : Exclusion) (path : Path) (text name : String) (e : Entry)
    (below : List String) : Prop where
  file : ∃ f, e.Has below (.file f)
  php : EndsPhp (name :: below)
  kept : ∀ front, front <+: below → ex.keeps (path.down front).render = true
  opened : ∀ front, front <+: below → front ≠ below → FitsPath text front

section Walk

variable (ex : Exclusion)

theorem walked_file_iff (path : Path) (text name : String) (f : File) (below : List String) :
    Walked ex path text name (.file f) below ↔
      below = [] ∧ name.endsWith ".php" = true ∧ ex.keeps path.render = true := by
  constructor
  · rintro ⟨⟨f', hf⟩, hphp, hkept, _⟩
    cases hf
    refine ⟨rfl, by simpa [EndsPhp] using hphp, ?_⟩
    simpa only [Path.down_nil] using hkept [] List.nil_prefix
  · rintro ⟨rfl, hphp, hkept⟩
    refine ⟨⟨f, .here _⟩, by simpa [EndsPhp] using hphp, fun front hfront => ?_, ?_⟩
    · rw [List.prefix_nil.1 hfront, Path.down_nil]
      exact hkept
    · intro front hfront hne
      exact absurd (List.prefix_nil.1 hfront) hne

theorem walked_folder_iff (path : Path) (text name : String) (entries : List (String × Entry))
    (below : List String) :
    Walked ex path text name (.folder entries) below ↔
      (ex.keeps path.render = true ∧ text.utf8ByteSize ≤ maxPathSize) ∧
      ∃ x ∈ entries, ∃ rest, below = x.1 :: rest ∧
        Walked ex (path.child x.1) (Path.childText text x.1) x.1 x.2 rest := by
  constructor
  · rintro ⟨⟨f, hf⟩, hphp, hkept, hopened⟩
    cases hf with
    | @inside _ n e _ rest hmem hf =>
      have hpath := hkept [] List.nil_prefix
      rw [Path.down_nil] at hpath
      refine ⟨⟨hpath, hopened [] List.nil_prefix (List.cons_ne_nil n rest).symm⟩,
        (n, e), hmem, rest, rfl, ⟨f, hf⟩, ?_, fun front hfront => ?_, fun front hfront hne => ?_⟩
      · simpa only [EndsPhp, List.getLast?_cons_cons] using hphp
      · rw [Path.down_child]
        exact hkept _ ((List.prefix_cons_inj n).2 hfront)
      · exact hopened (n :: front) ((List.prefix_cons_inj n).2 hfront) (by simpa using hne)
  · rintro ⟨⟨hpath, hsize⟩, ⟨n, e⟩, hmem, rest, rfl, ⟨f, hf⟩, hphp, hkept, hopened⟩
    refine ⟨⟨f, .inside hmem hf⟩, ?_, fun front hfront => ?_, fun front hfront hne => ?_⟩
    · simpa only [EndsPhp, List.getLast?_cons_cons] using hphp
    · cases front with
      | nil => simpa only [Path.down_nil] using hpath
      | cons m front =>
        obtain ⟨rfl, hrest⟩ := List.cons_prefix_cons.1 hfront
        rw [← Path.down_child]
        exact hkept front hrest
    · cases front with
      | nil => exact hsize
      | cons m front =>
        obtain ⟨rfl, hrest⟩ := List.cons_prefix_cons.1 hfront
        exact hopened front hrest (by simpa using hne)

/-- Nothing below a closed folder is seen. -/
theorem not_walked_closed (path : Path) (text name : String) (below : List String) :
    ¬ Walked ex path text name .closed below := by
  rintro ⟨⟨f, hf⟩, -⟩
  cases hf

mutual

theorem mem_phpFilesAt_iff (path : Path) (text name file : String) : (e : Entry) →
    (file ∈ phpFilesAt ex path text name e ↔
      ∃ below, Walked ex path text name e below ∧ (path.down below).render = file)
  | .file f => by
    simp only [walked_file_iff, phpFilesAt]
    by_cases hkept : (name.endsWith ".php" && ex.keeps path.render) = true
    · rw [if_pos hkept, List.mem_singleton]
      rw [Bool.and_eq_true] at hkept
      simp [hkept, Path.down_nil, eq_comm]
    · rw [if_neg hkept]
      rw [Bool.and_eq_true] at hkept
      simp [hkept]
  | .folder entries => by
    simp only [walked_folder_iff, phpFilesAt, Bool.and_eq_true, decide_eq_true_eq]
    by_cases hopened : ex.keeps path.render = true ∧ text.utf8ByteSize ≤ maxPathSize
    · rw [if_pos hopened, mem_phpFilesIn_iff path text file entries]
      constructor
      · rintro ⟨x, hx, rest, hwalked, hfile⟩
        exact ⟨x.1 :: rest, ⟨hopened, x, hx, rest, rfl, hwalked⟩,
          by rw [← Path.down_child, hfile]⟩
      · rintro ⟨below, ⟨_, x, hx, rest, rfl, hwalked⟩, hfile⟩
        exact ⟨x, hx, rest, hwalked, by rw [Path.down_child, hfile]⟩
    · simp [hopened]
  | .closed => by simp [phpFilesAt, not_walked_closed]

theorem mem_phpFilesIn_iff (path : Path) (text file : String) :
    (entries : List (String × Entry)) →
    (file ∈ phpFilesIn ex path text entries ↔ ∃ x ∈ entries, ∃ below,
      Walked ex (path.child x.1) (Path.childText text x.1) x.1 x.2 below ∧
        ((path.child x.1).down below).render = file)
  | [] => by simp [phpFilesIn]
  | (name, e) :: rest => by
    rw [phpFilesIn, List.mem_append, mem_phpFilesAt_iff (path.child name) _ name file e,
      mem_phpFilesIn_iff path text file rest]
    simp

end

end Walk

end ContractCheck.Files
