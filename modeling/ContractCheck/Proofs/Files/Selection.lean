import ContractCheck.Proofs.Files.Walk
import ContractCheck.Proofs.Run.Scan

/-!
Which files are selected. Main statement: leaving out excluded folders changes nothing, so that a
file is selected just if it is asked for and not excluded; but a directory that is spelled out at
length hides what is far below it.
-/
namespace ContractCheck.Files

open Text

def Disk.HasFile (d : Disk) (p : Path) : Prop :=
  ∃ f, d.root.Has p.parts (.file f)

/-- A PHP file on a disk, at any depth below a directory, where a condition holds of the folders
between. -/
def Disk.HasPhpFile (d : Disk) (directory : Path) (condition : List String → Prop) (p : Path) :
    Prop :=
  ∃ folders name, p = directory.down (folders ++ [name]) ∧ name.endsWith ".php" = true ∧
    d.HasFile p ∧ condition folders

variable (d : Disk) (s : Settings)

/-- A file that settings ask for: a PHP file below a directory, where a condition holds of the
directory and the folders between, or a file that is given. -/
def Asks (condition : String → List String → Prop) (p : Path) : Prop :=
  (∃ text ∈ s.directories, d.isFolder text = true ∧
    d.HasPhpFile (Path.absolute d.workingDirectory text) (condition text) p) ∨
  ∃ text ∈ s.files, p = Path.absolute d.workingDirectory text ∧ d.isFile p.render = true

/-- A path that settings exclude: a file that they name, or what is at or below a directory. -/
def Excludes (p : Path) : Prop :=
  (∃ text ∈ s.excludedFiles, p = Path.absolute d.workingDirectory text) ∨
    ∃ text ∈ s.excludedDirectories, (Path.absolute d.workingDirectory text).parts <+: p.parts

/-- Settings in which no path has exactly two slashes in front. -/
def OneRooted : Prop :=
  ∀ text ∈ s.directories ++ s.files ++ s.excludedDirectories ++ s.excludedFiles,
    Path.anchorOf text ≠ "//"

instance : Decidable (OneRooted s) :=
  inferInstanceAs (Decidable (∀ _ ∈ _, _))

def ExcludesNoFolderAsFile : Prop :=
  ∀ text ∈ s.excludedFiles, ∀ entries,
    ¬ d.root.Has (Path.absolute d.workingDirectory text).parts (.folder entries)

variable {d s}

theorem keeps_render_iff (hd : d.Proper) (hs : OneRooted s) {p : Path} (hp : p.Proper) :
    (Exclusion.ofSettings d s).keeps p.render = true ↔ ¬ Excludes d s p := by
  have hproper : ∀ text ∈ s.excludedDirectories ++ s.excludedFiles,
      (Path.absolute d.workingDirectory text).Proper := by
    intro text htext
    exact Path.proper_absolute hd.workingDirectory (hs text (by simp_all))
  have hfiles : (Exclusion.ofSettings d s).files.contains p.render = true ↔
      ∃ text ∈ s.excludedFiles, p = Path.absolute d.workingDirectory text := by
    rw [List.contains_iff_mem, Exclusion.ofSettings, List.mem_map]
    apply exists_congr
    intro text
    apply and_congr_right
    intro htext
    rw [Disk.absolute, Path.render_inj (hproper text (by simp [htext])) hp, eq_comm]
  have hdirectories : (Exclusion.ofSettings d s).directories.any (isUnder p.render) = true ↔
      ∃ text ∈ s.excludedDirectories,
        (Path.absolute d.workingDirectory text).parts <+: p.parts := by
    rw [Exclusion.ofSettings, List.any_map, List.any_eq_true]
    apply exists_congr
    intro text
    apply and_congr_right
    intro htext
    exact Path.isUnder_render_iff hp (hproper text (by simp [htext]))
  rw [Exclusion.keeps, Bool.and_eq_true, Bool.not_eq_true', Bool.not_eq_true', ← Bool.not_eq_true,
    ← Bool.not_eq_true, hfiles, hdirectories, Excludes, not_or]

/-- What is excluded above a file is excluded at the file. -/
theorem not_excludes_of_prefix (hfolders : ExcludesNoFolderAsFile d s) {p : Path} {e : Entry}
    (he : d.root.Has p.parts e) {below front : List String} {f : File}
    (hfile : e.Has below (.file f)) (hfront : front <+: below)
    (hkept : ¬ Excludes d s (p.down below)) : ¬ Excludes d s (p.down front) := by
  obtain ⟨back, rfl⟩ := hfront
  intro hexcluded
  cases hexcluded with
  | inl hfiles =>
    obtain ⟨text, htext, hpath⟩ := hfiles
    -- what is named lies above the file, so that it is the file itself or a folder
    obtain ⟨y, hy, hback⟩ := Entry.has_append_iff.1 hfile
    have hroot : d.root.Has (p.down front).parts y := Entry.has_append_iff.2 ⟨e, he, hy⟩
    cases hback with
    | here =>
      rw [List.append_nil] at hkept
      exact hkept (Or.inl ⟨text, htext, hpath⟩)
    | inside _ _ => exact hfolders text htext _ (hpath ▸ hroot)
  | inr hdirectories =>
    obtain ⟨text, htext, hprefix⟩ := hdirectories
    refine hkept (Or.inr ⟨text, htext, hprefix.trans ⟨back, ?_⟩⟩)
    exact List.append_assoc p.parts front back

/-- A walk lists all PHP files below a directory that are not excluded, as far as it can open the
folders. -/
theorem mem_phpFilesIn_absolute_iff (hd : d.Proper) (hs : OneRooted s)
    (hfolders : ExcludesNoFolderAsFile d s) {directory : Path} (hproper : directory.Proper)
    {entries : List (String × Entry)} (hdirectory : d.root.Has directory.parts (.folder entries))
    {text : String} (htext : text.utf8ByteSize ≤ maxPathSize) (file : String) :
    file ∈ phpFilesIn (Exclusion.ofSettings d s) directory text entries ↔
      ∃ p, d.HasPhpFile directory (FitsPath text) p ∧ ¬ Excludes d s p ∧ p.render = file := by
  rw [mem_phpFilesIn_iff]
  constructor
  · rintro ⟨⟨name, e⟩, hmem, below, ⟨⟨f, hf⟩, hphp, hkept, hopened⟩, rfl⟩
    have hfile : d.root.Has (directory.down (name :: below)).parts (.file f) :=
      Entry.has_append_iff.2 ⟨_, hdirectory, .inside hmem hf⟩
    have hpath : (directory.down (name :: below)).Proper :=
      ⟨hproper.anchor, hfile.isName hd.root⟩
    obtain ⟨last, hlast, hphp⟩ := hphp
    obtain ⟨folders, hnames⟩ := List.getLast?_eq_some_iff.1 hlast
    rw [Path.down_child]
    refine ⟨_, ⟨folders, last, by rw [hnames], hphp, ⟨f, hfile⟩, ?_⟩, ?_, rfl⟩
    · cases folders with
      | nil => exact htext
      | cons n folders =>
        obtain ⟨rfl, rfl⟩ := List.cons.inj hnames
        exact hopened folders (List.prefix_append folders [last]) (by simp)
    · rw [← keeps_render_iff hd hs hpath, ← Path.down_child]
      exact hkept below List.prefix_rfl
  · rintro ⟨p, ⟨folders, last, rfl, hphp, ⟨f, hfile⟩, hfits⟩, hkept, rfl⟩
    obtain ⟨y, hy, hf⟩ := Entry.has_append_iff.1 hfile
    obtain rfl := hy.unique hd.root hdirectory
    generalize hnames : folders ++ [last] = names at hf hfile hkept ⊢
    cases hf with
    | @inside _ name e _ below hmem hf =>
      have he : d.root.Has (directory.child name).parts e :=
        Entry.has_append_iff.2 ⟨_, hdirectory, .inside hmem (.here e)⟩
      rw [← Path.down_child] at hkept hfile ⊢
      have hpath : ((directory.child name).down below).Proper :=
        ⟨hproper.anchor, hfile.isName hd.root⟩
      refine ⟨(name, e), hmem, below, ⟨⟨f, hf⟩, ?_, ?_, ?_⟩, rfl⟩
      · exact ⟨last, by simp [← hnames], hphp⟩
      · intro front hfront
        rw [keeps_render_iff hd hs (hpath.of_prefix hfront)]
        exact not_excludes_of_prefix hfolders he hf hfront hkept
      · -- the texts of the folders on the way are no longer than that of the last one
        intro front hfront hne
        have hprefix : name :: front <+: folders := by
          have hcons := (List.prefix_cons_inj name).2 hfront
          rw [← hnames, List.prefix_concat_iff] at hcons
          exact hcons.resolve_left fun heq => hne (List.cons.inj (heq.trans hnames)).2
        exact (Path.size_downText_le text hprefix).trans hfits

/-- The files of one directory. -/
theorem mem_filesBelow_iff (hd : d.Proper) (hs : OneRooted s)
    (hfolders : ExcludesNoFolderAsFile d s) {text : String} (hmem : text ∈ s.directories)
    (file : String) :
    file ∈ (filesBelow d (Exclusion.ofSettings d s) text).toOption.getD [] ↔
      d.isFolder text = true ∧ ∃ p,
        d.HasPhpFile (Path.absolute d.workingDirectory text) (FitsPath text) p ∧
          ¬ Excludes d s p ∧ p.render = file := by
  have hproper := Path.proper_absolute hd.workingDirectory (hs text (by simp [hmem]))
  rw [filesBelow, Disk.isFolder]
  cases hfind : d.find? text with
  | none => simp [Except.toOption]
  | some e =>
    cases e with
    | file f => simp [Except.toOption, Entry.isFolder]
    | closed =>
      -- a folder that cannot be listed has no file as far as the disk shows
      have hnone : ∀ p, ¬ d.HasPhpFile (Path.absolute d.workingDirectory text) (FitsPath text) p := by
        rintro p ⟨folders, name, rfl, _, ⟨f, hf⟩, _⟩
        obtain ⟨y, hy, hinside⟩ := Entry.has_append_iff.1 hf
        cases hy.unique hd.root (Disk.has_absolute_of_find? hd hfind)
        cases folders <;> cases hinside
      simp [Except.toOption, hnone]
    | folder entries =>
      have hwalk := mem_phpFilesIn_absolute_iff hd hs hfolders hproper
        (Disk.has_absolute_of_find? hd hfind) ((Disk.find?_eq_some_iff d text _).1 hfind).2.1 file
      simpa only [Except.toOption, Option.getD_some, Option.any_some, Entry.isFolder,
        true_and] using hwalk

/-- A file that is given by itself. -/
theorem mem_givenFile_iff (hd : d.Proper) (hs : OneRooted s) {text : String}
    (hmem : text ∈ s.files) (file : String) :
    file ∈ (givenFile d (Exclusion.ofSettings d s) text).toOption.getD [] ↔
      ∃ p, (p = Path.absolute d.workingDirectory text ∧ d.isFile p.render = true) ∧
        ¬ Excludes d s p ∧ p.render = file := by
  have hproper := Path.proper_absolute hd.workingDirectory (hs text (by simp [hmem]))
  have hkeeps := keeps_render_iff hd hs hproper
  simp only [and_assoc, exists_eq_left, givenFile, Disk.absolute, ← hkeeps]
  by_cases hfile : d.isFile (Path.absolute d.workingDirectory text).render = true
  · by_cases hkept : (Exclusion.ofSettings d s).keeps
        (Path.absolute d.workingDirectory text).render = true
    · simp [Except.toOption, hkept, hfile, eq_comm]
    · simp [Except.toOption, hkept, hfile]
  · simp [Except.toOption, hfile]

theorem mem_select_iff (hd : d.Proper) (hs : OneRooted s) (hfolders : ExcludesNoFolderAsFile d s)
    (file : String) :
    file ∈ select d s ↔ ∃ p, Asks d s FitsPath p ∧ ¬ Excludes d s p ∧ p.render = file := by
  have hcandidates : file ∈ select d s ↔
      (∃ text ∈ s.directories,
        file ∈ (filesBelow d (Exclusion.ofSettings d s) text).toOption.getD []) ∨
      ∃ text ∈ s.files, file ∈ (givenFile d (Exclusion.ofSettings d s) text).toOption.getD [] := by
    rw [select, (sorted_perm _).mem_iff, List.mem_eraseDups]
    simp [candidates]
  rw [hcandidates]
  constructor
  · intro h
    cases h with
    | inl h =>
      obtain ⟨text, hmem, h⟩ := h
      obtain ⟨hfolder, p, hp, hkept⟩ := (mem_filesBelow_iff hd hs hfolders hmem file).1 h
      exact ⟨p, Or.inl ⟨text, hmem, hfolder, hp⟩, hkept⟩
    | inr h =>
      obtain ⟨text, hmem, h⟩ := h
      obtain ⟨p, hp, hkept⟩ := (mem_givenFile_iff hd hs hmem file).1 h
      exact ⟨p, Or.inr ⟨text, hmem, hp⟩, hkept⟩
  · rintro ⟨p, hasked, hkept⟩
    cases hasked with
    | inl h =>
      obtain ⟨text, hmem, hfolder, hp⟩ := h
      exact Or.inl ⟨text, hmem,
        (mem_filesBelow_iff hd hs hfolders hmem file).2 ⟨hfolder, p, hp, hkept⟩⟩
    | inr h =>
      obtain ⟨text, hmem, hp⟩ := h
      exact Or.inr ⟨text, hmem, (mem_givenFile_iff hd hs hmem file).2 ⟨p, hp, hkept⟩⟩

theorem pairwise_lt_select (d : Disk) (s : Settings) : (select d s).Pairwise (· < ·) := by
  have hle : (select d s).Pairwise (· ≤ ·) := by
    rw [select, sorted_eq_insertionSort]
    exact List.pairwise_insertionSort _ _
  exact hle.imp₂ (fun _ _ hab hne => lt_of_le_of_ne hab hne) (nodup_select d s)

/-- The selected files in order, each once: the PHP files at any depth below the directories and the
files given one by one, without those that are excluded by name or by a directory above them. Below
a directory a file is missing just if the folder around it is too far down for a path that begins
with the directory as it is written. -/
theorem select_is_plain_selection (hd : d.Proper) (hs : OneRooted s)
    (hfolders : ExcludesNoFolderAsFile d s) :
    (select d s).Pairwise (· < ·) ∧
    (∀ file, file ∈ select d s ↔
      ∃ p, Asks d s FitsPath p ∧ ¬ Excludes d s p ∧ p.render = file) ∧
    ((∀ text ∈ s.directories, ∀ folders entries, d.root.Has
        ((Path.absolute d.workingDirectory text).down folders).parts (.folder entries) →
        FitsPath text folders) →
      ∀ file, file ∈ select d s ↔
        ∃ p, Asks d s (fun _ _ => True) p ∧ ¬ Excludes d s p ∧ p.render = file) := by
  refine ⟨pairwise_lt_select d s, mem_select_iff hd hs hfolders, fun hshort file => ?_⟩
  rw [mem_select_iff hd hs hfolders]
  apply exists_congr
  intro p
  apply and_congr_left'
  apply or_congr_left
  constructor
  · rintro ⟨text, hmem, hfolder, folders, name, hp, hphp, hfile, _⟩
    exact ⟨text, hmem, hfolder, folders, name, hp, hphp, hfile, trivial⟩
  · rintro ⟨text, hmem, hfolder, folders, name, rfl, hphp, ⟨f, hfile⟩, _⟩
    refine ⟨text, hmem, hfolder, folders, name, rfl, hphp, ⟨f, hfile⟩, ?_⟩
    -- the file stands in a folder, which is the one that is opened last
    rw [Path.down, ← List.append_assoc] at hfile
    obtain ⟨y, hy, hname⟩ := Entry.has_append_iff.1 hfile
    cases hname with
    | inside _ _ => exact hshort text hmem folders _ hy

theorem excludesNoFolderAsFile_of_folders
    (h : ∀ text ∈ s.excludedFiles,
      (Path.absolute d.workingDirectory text).parts ∉ d.root.folders) :
    ExcludesNoFolderAsFile d s :=
  fun text htext _ hfolder => h text htext (hfolder.mem_folders rfl)

theorem fitsPath_of_folders
    (h : ∀ text ∈ s.directories, ∀ names ∈ d.root.folders,
      FitsPath text (names.drop (Path.absolute d.workingDirectory text).parts.length))
    {text : String} (htext : text ∈ s.directories) {folders : List String}
    {entries : List (String × Entry)} (hfolder : d.root.Has
      ((Path.absolute d.workingDirectory text).down folders).parts (.folder entries)) :
    FitsPath text folders := by
  have hfits := h text htext _ (hfolder.mem_folders rfl)
  rwa [Path.down, List.drop_left] at hfits

def siblings : Disk :=
  ((((((Disk.blank "/w").write "src/lib/a.php" {}).write "src/lib2/b.php" {}).write
    "src/old/new/c.php" {}).write "src/d.php" {}).write "src/e.php" {}).write "notes.txt" {}

theorem siblings_proper : siblings.Proper := by
  refine ⟨?_, ?_, ?_, ?_⟩ <;> decide +kernel

def nested : Settings where
  directories := ["src/lib/..", "src/lib2", "/w/src/old/new", "missing"]
  files := ["notes.txt", "src/lib/a.php"]
  excludedDirectories := ["./src/lib/", "src/old"]
  excludedFiles := ["src/../src/e.php"]

theorem select_is_plain_selection_nested :
    siblings.Proper ∧ OneRooted nested ∧ ExcludesNoFolderAsFile siblings nested ∧
      select siblings nested = ["/w/notes.txt", "/w/src/d.php", "/w/src/lib2/b.php"] ∧
      (select siblings nested).Pairwise (· < ·) ∧
      ∀ file, file ∈ select siblings nested ↔
        ∃ p, Asks siblings nested (fun _ _ => True) p ∧ ¬ Excludes siblings nested p ∧
          p.render = file := by
  have hd := siblings_proper
  have hs : OneRooted nested := by decide
  have hfolders : ExcludesNoFolderAsFile siblings nested :=
    excludesNoFolderAsFile_of_folders (by decide +kernel)
  have hselect : select siblings nested = ["/w/notes.txt", "/w/src/d.php", "/w/src/lib2/b.php"] := by
    rw [select, sorted_eq_insertionSort]
    decide +kernel
  obtain ⟨hsorted, _, hplain⟩ := select_is_plain_selection hd hs hfolders
  refine ⟨hd, hs, hfolders, hselect, hsorted, hplain fun text htext folders entries hfolder => ?_⟩
  exact fitsPath_of_folders (by decide +kernel) htext hfolder

def dotted : Nat → String → String
  | 0, text => text
  | n + 1, text => "./" ++ dotted n text

theorem splitText_dotted (n : Nat) (text : String) :
    splitText '/' (dotted n text) = List.replicate n "." ++ splitText '/' text := by
  induction n with
  | zero => rfl
  | succ n ih =>
    have hdot : '/' ∉ ['.'] := by decide
    have hpieces := pieces_append_cons hdot (dotted n text).toList
    rw [splitText] at ih
    rw [dotted, splitText, String.toList_append, List.replicate_succ, List.cons_append, ← ih]
    exact congrArg (List.map String.ofList) hpieces

theorem size_dotted (n : Nat) (text : String) :
    (dotted n text).utf8ByteSize = 2 * n + text.utf8ByteSize := by
  induction n with
  | zero => simp [dotted]
  | succ n ih =>
    have htwo : "./".utf8ByteSize = 2 := rfl
    rw [dotted, String.utf8ByteSize_append, ih, htwo]
    omega

theorem ofString_dotted (n : Nat) {text : String} (htext : Path.anchorOf text = "") :
    Path.ofString (dotted n text) = Path.ofString text := by
  rw [Path.ofString, Path.ofString, Path.mk.injEq]
  constructor
  · cases n with
    | zero => rfl
    | succ n =>
      rw [htext]
      simp [dotted, Path.anchorOf]
  · rw [splitText_dotted, List.filter_append]
    simp

theorem Disk.follow_dots {d : Disk} {here : List String} {entries : List (String × Entry)}
    (hhere : d.root.descend here = .entry (.folder entries)) (n : Nat) (rest : List String) :
    d.follow here (List.replicate n "." ++ rest) = d.follow here rest := by
  induction n with
  | zero => rfl
  | succ n ih =>
    rw [List.replicate_succ, List.cons_append, follow, hhere]
    exact ih

/-- What is put in front leads to the same, if the text does not become too long by it. -/
theorem find?_dotted {n : Nat} {text : String} {entries : List (String × Entry)}
    (hstart : d.root.descend (d.start text) = .entry (.folder entries))
    (htext : Path.anchorOf text = "") (hempty : text ≠ "")
    (hsize : (dotted n text).utf8ByteSize ≤ maxPathSize) :
    d.find? (dotted n text) = d.find? text := by
  apply Option.ext
  intro e
  have hdotted : dotted n text ≠ "" := by
    cases n with
    | zero => exact hempty
    | succ n => simp [dotted]
  have hsmall : text.utf8ByteSize ≤ maxPathSize := by
    rw [size_dotted] at hsize
    omega
  have hfollow : d.follow (d.start (dotted n text)) (splitText '/' (dotted n text)) =
      d.follow (d.start text) (splitText '/' text) := by
    rw [Disk.start, ofString_dotted n htext, ← Disk.start, splitText_dotted,
      Disk.follow_dots hstart]
  simp only [Disk.find?_eq_some_iff, hfollow, ne_eq, hempty, hdotted, hsize, hsmall]

theorem hasFile_of_isFile (hd : d.Proper) {p : Path} (hp : p.Proper)
    (h : d.isFile p.render = true) : d.HasFile p := by
  obtain ⟨e, he, hfile⟩ := (Option.any_eq_true _ _).1 h
  cases e with
  | file f => exact ⟨f, ((Disk.find?_render_iff hd hp _).1 he).2⟩
  | folder _ | closed => cases hfile

def spelledOut (n : Nat) : Settings where
  directories := [dotted n "src"]

def innerFile : Path :=
  ⟨"/", ["w", "src"] ++ (["lib"] ++ ["a.php"])⟩

/-- A spelling of a directory that just fits misses what is in the folders below it. -/
theorem missed_of_long_spelling {n : Nat} (hfits : (dotted n "src").utf8ByteSize ≤ maxPathSize)
    (hlong : maxPathSize < (dotted n "src").utf8ByteSize + 3) :
    OneRooted (spelledOut n) ∧ ExcludesNoFolderAsFile siblings (spelledOut n) ∧
      Asks siblings (spelledOut n) (fun _ _ => True) innerFile ∧
      ¬ Excludes siblings (spelledOut n) innerFile ∧
      innerFile.render ∉ select siblings (spelledOut n) := by
  have hanchor : Path.anchorOf "src" = "" := by decide
  have hof := ofString_dotted n hanchor
  have habsolute : Path.absolute siblings.workingDirectory (dotted n "src") =
      ⟨"/", ["w", "src"]⟩ := by
    rw [Path.absolute, hof]
    decide +kernel
  have hs : OneRooted (spelledOut n) := by
    intro text htext
    obtain rfl : text = dotted n "src" := by simpa [spelledOut] using htext
    have hdotted : Path.anchorOf (dotted n "src") = "" := congrArg Path.anchor hof
    rw [hdotted]
    decide
  have hfolders : ExcludesNoFolderAsFile siblings (spelledOut n) := by
    intro text htext
    cases htext
  have hkept : ¬ Excludes siblings (spelledOut n) innerFile := by
    simp [Excludes, spelledOut]
  have hinner : innerFile.Proper := by
    refine ⟨?_, ?_⟩ <;> decide
  have hfile : siblings.HasFile innerFile :=
    hasFile_of_isFile siblings_proper hinner (by decide +kernel)
  have hfolder : siblings.isFolder (dotted n "src") = true := by
    rw [Disk.isFolder, find?_dotted rfl hanchor (by decide) hfits]
    decide +kernel
  refine ⟨hs, hfolders, Or.inl ⟨_, List.mem_singleton_self _, hfolder, ["lib"], "a.php", ?_,
    by decide +kernel, hfile, trivial⟩, hkept, ?_⟩
  · rw [habsolute]
    rfl
  · rw [mem_select_iff siblings_proper hs hfolders]
    rintro ⟨p, hasked, _, hrender⟩
    cases hasked with
    | inr h =>
      obtain ⟨text, htext, _⟩ := h
      cases htext
    | inl h =>
      obtain ⟨text, htext, _, folders, name, rfl, _, ⟨f, hf⟩, hopened⟩ := h
      obtain rfl : text = dotted n "src" := by simpa [spelledOut] using htext
      rw [habsolute] at hrender hf
      have hp := (Path.render_inj ⟨rfl, hf.isName siblings_proper.root⟩ hinner).1 hrender
      have hnames : folders ++ [name] = ["lib"] ++ ["a.php"] :=
        List.append_cancel_left (congrArg Path.parts hp)
      obtain rfl : folders = ["lib"] := (List.append_inj' hnames rfl).1
      have hsize := Path.size_childText_ge (dotted n "src") "lib"
      exact absurd (hsize.trans hopened) (Nat.not_le.2 hlong)

/-- The directory is there and a PHP file stands below it, but the file is not selected. -/
theorem file_missed_below_long_spelling :
    siblings.Proper ∧ OneRooted (spelledOut 2045) ∧
      ExcludesNoFolderAsFile siblings (spelledOut 2045) ∧
      Asks siblings (spelledOut 2045) (fun _ _ => True) innerFile ∧
      ¬ Excludes siblings (spelledOut 2045) innerFile ∧
      innerFile.render ∉ select siblings (spelledOut 2045) := by
  have hsize : (dotted 2045 "src").utf8ByteSize = 4093 := size_dotted 2045 "src"
  refine ⟨siblings_proper, @missed_of_long_spelling 2045 ?_ ?_⟩
  · rw [hsize]
    decide
  · rw [hsize]
    decide

end ContractCheck.Files
