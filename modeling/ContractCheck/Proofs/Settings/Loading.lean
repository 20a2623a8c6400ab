import ContractCheck.CommandLine.Execute
import ContractCheck.Proofs.Text.Utf8

/-!
How the loading of settings ends. Main statement: settings that are loaded have no threshold below one,
and a fault is told as one of the settings unless the path is too long or leads through a closed
folder, the reader of the document comes to bytes that are no UTF-8, or some key of its mapping is no
text. Those faults get out and end the program.
-/
namespace ContractCheck.Settings

open CommandLine (Request loadEnding)
open Files (Disk Path File)
open Text.Utf8 (decodeStream isValidUTF8_of_decodeStream not_isValidUTF8_of_decodeStream)

def LoadFault.isTold : LoadFault → Bool
  | .missing _ | .unreadable _ | .notMapping _ | .invalid .. => true
  | .undecodable _ | .keyNotText | .nameTooLong _ | .denied _ => false

/-- A file that can be opened, and in which the reader of documents meets no error. -/
def IsRead (f : File) : Prop :=
  f.readable = true ∧ f.document ≠ .invalid

/-- The faults that are not told as faults of the settings, and when they arise. -/
inductive Escapes (disk : Disk) (path : Path) : LoadFault → Prop
  | nameTooLong (hpath : disk.locate path.render = .tooLong) :
      Escapes disk path (.nameTooLong path.render)
  | denied (hpath : disk.locate path.render = .denied) : Escapes disk path (.denied path.render)
  | undecodable {f : File} {fault : Text.Utf8.Fault}
      (hfile : disk.locate path.render = .entry (.file f)) (hread : IsRead f)
      (hbytes : ¬ f.bytes.toByteArray.IsValidUTF8) (hfault : decodeStream f.bytes = .error fault) :
      Escapes disk path (.undecodable fault)
  | keyNotText {f : File} (hfile : disk.locate path.render = .entry (.file f))
      (hread : f.readable = true) (hbytes : f.bytes.toByteArray.IsValidUTF8)
      (hkey : f.document = .value .mixedMapping) : Escapes disk path .keyNotText

theorem le_of_readThreshold {field : String} {v : Option Value} {threshold : Option Int}
    (h : readThreshold field v = .ok threshold) : ∀ n ∈ threshold, 1 ≤ n := by
  intro n hn
  unfold readThreshold at h
  split at h
  · cases h
    cases hn
  · cases h
    cases hn
  · split at h
    · cases h
    · split_ifs at h with hlow
      cases h
      cases hn
      omega

theorem le_of_ofEntries {entries : List (String × Value)} {s : Settings}
    (h : ofEntries entries = .ok s) : ∀ n ∈ s.threshold, 1 ≤ n := by
  unfold ofEntries at h
  dsimp only at h
  split at h
  · rename_i hthreshold
    cases h
    exact le_of_readThreshold hthreshold
  · cases h

/-- Of all values only a mapping with a key that is no text makes a fault that is not told. -/
theorem ofValue_cases (path : String) (v : Value) :
    (∃ s, ofValue path v = .ok s ∧ ∀ n ∈ s.threshold, 1 ≤ n) ∨
      (∃ fault, ofValue path v = .error fault ∧ fault.isTold = true) ∨
      (ofValue path v = .error .keyNotText ∧ v = .mixedMapping) := by
  unfold ofValue
  split_ifs with hvoid
  · exact .inl ⟨{}, rfl, by simp⟩
  · cases v with
    | mapping entries =>
      dsimp only
      cases hread : ofEntries entries with
      | ok s => exact .inl ⟨s, rfl, le_of_ofEntries hread⟩
      | error faults => exact .inr (.inl ⟨_, rfl, rfl⟩)
    | mixedMapping => exact .inr (.inr ⟨rfl, rfl⟩)
    | _ => exact .inr (.inl ⟨_, rfl, rfl⟩)

theorem Escapes.isTold_eq_false {disk : Disk} {path : Path} {fault : LoadFault}
    (h : Escapes disk path fault) : fault.isTold = false := by
  cases h <;> rfl

theorem ofFile_of_not_isRead {f : File} (h : ¬ IsRead f) (path : String) :
    ofFile path f = .error (.unreadable path) := by
  rw [ofFile]
  by_cases hopen : f.readable = true
  · cases hdocument : f.document with
    | invalid => simp [hopen]
    | value v => exact absurd ⟨hopen, by simp [hdocument]⟩ h
  · simp [hopen]

/-- Where the reader meets no error, the bytes decide, and then the value. -/
theorem ofFile_of_isRead {f : File} (h : IsRead f) (path : String) : ∃ v, f.document = .value v ∧
    (∀ fault, decodeStream f.bytes = .error fault → ofFile path f = .error (.undecodable fault)) ∧
    ∀ text, decodeStream f.bytes = .ok text → ofFile path f = ofValue path v := by
  obtain ⟨hopen, hdocument⟩ := h
  cases hvalue : f.document with
  | invalid => exact absurd hvalue hdocument
  | value v =>
    refine ⟨v, rfl, ?_, ?_⟩
    · intro fault hfault
      simp [ofFile, hopen, hvalue, hfault]
    · intro text htext
      simp [ofFile, hopen, hvalue, htext]

theorem load_of_file {disk : Disk} {path : Path} {f : File}
    (hfile : disk.locate path.render = .entry (.file f)) :
    (load disk path).1 = (ofFile path.render f).map (·.anchored path.parent) := by
  rw [load, hfile]
  dsimp only
  cases ofFile path.render f <;> rfl

theorem Escapes.load_eq {disk : Disk} {path : Path} {fault : LoadFault}
    (h : Escapes disk path fault) : (load disk path).1 = .error fault := by
  cases h with
  | nameTooLong hpath => simp only [load, hpath]
  | denied hpath => simp only [load, hpath]
  | undecodable hfile hread _ hfault =>
    obtain ⟨v, _, hstray, _⟩ := ofFile_of_isRead hread path.render
    rw [load_of_file hfile, hstray _ hfault]
    rfl
  | keyNotText hfile hread hbytes hkey =>
    obtain ⟨v, hv, _, hvalue⟩ := ofFile_of_isRead ⟨hread, by simp [hkey]⟩ path.render
    cases hkey.symm.trans hv
    cases hdecoded : decodeStream _ with
    | error fault => exact absurd hbytes (not_isValidUTF8_of_decodeStream hdecoded)
    | ok text =>
      rw [load_of_file hfile, hvalue text hdecoded]
      rfl

theorem load_cases (disk : Disk) (path : Path) :
    (∃ s, (load disk path).1 = .ok s ∧ ∀ n ∈ s.threshold, 1 ≤ n) ∨
      (∃ fault, (load disk path).1 = .error fault ∧ fault.isTold = true) ∨
      ∃ fault, Escapes disk path fault := by
  have hmissing : (load disk path).1 = .error (.missing path.render) →
      ∃ fault, (load disk path).1 = .error fault ∧ fault.isTold = true :=
    fun h => ⟨_, h, rfl⟩
  cases hfound : disk.locate path.render with
  | tooLong => exact .inr (.inr ⟨_, .nameTooLong hfound⟩)
  | denied => exact .inr (.inr ⟨_, .denied hfound⟩)
  | nothing => exact .inr (.inl (hmissing (by simp only [load, hfound])))
  | throughFile => exact .inr (.inl (hmissing (by simp only [load, hfound])))
  | entry e =>
    cases e with
    | folder entries => exact .inr (.inl (hmissing (by simp only [load, hfound])))
    | closed => exact .inr (.inl (hmissing (by simp only [load, hfound])))
    | file f =>
      by_cases hread : IsRead f
      · obtain ⟨v, hv, _, hvalue⟩ := ofFile_of_isRead hread path.render
        cases hdecoded : decodeStream f.bytes with
        | error fault =>
          have hbytes := not_isValidUTF8_of_decodeStream hdecoded
          exact .inr (.inr ⟨_, .undecodable hfound hread hbytes hdecoded⟩)
        | ok text =>
          have hload : (load disk path).1 =
              (ofValue path.render v).map (·.anchored path.parent) := by
            rw [load_of_file hfound, hvalue text hdecoded]
          obtain ⟨s, hs, hlow⟩ | ⟨fault, hfault, htold⟩ | ⟨-, rfl⟩ := ofValue_cases path.render v
          · exact .inl ⟨s.anchored path.parent, by rw [hload, hs]; rfl, hlow⟩
          · exact .inr (.inl ⟨fault, by rw [hload, hfault]; rfl, htold⟩)
          · have hbytes := isValidUTF8_of_decodeStream hdecoded
            exact .inr (.inr ⟨_, .keyNotText hfound hread.1 hbytes hv⟩)
      · refine .inr (.inl ⟨.unreadable path.render, ?_, rfl⟩)
        rw [load_of_file hfound, ofFile_of_not_isRead hread]
        rfl

theorem escapes_iff (disk : Disk) (path : Path) (fault : LoadFault) :
    Escapes disk path fault ↔ (load disk path).1 = .error fault ∧ fault.isTold = false := by
  constructor
  · intro h
    exact ⟨h.load_eq, h.isTold_eq_false⟩
  · rintro ⟨hload, htold⟩
    obtain ⟨s, hok, -⟩ | ⟨other, hother, htold'⟩ | ⟨other, hother⟩ := load_cases disk path
    · rw [hload] at hok
      cases hok
    · rw [hload] at hother
      cases hother
      rw [htold] at htold'
      cases htold'
    · have heq := hother.load_eq
      rw [hload] at heq
      cases heq
      exact hother

theorem exists_escapes_iff (disk : Disk) (path : Path) :
    (∃ fault, Escapes disk path fault) ↔ disk.locate path.render = .tooLong ∨
      disk.locate path.render = .denied ∨
      ∃ f, disk.locate path.render = .entry (.file f) ∧ IsRead f ∧
        (¬ f.bytes.toByteArray.IsValidUTF8 ∨ f.document = .value .mixedMapping) := by
  constructor
  · rintro ⟨fault, h⟩
    cases h with
    | nameTooLong hpath => exact .inl hpath
    | denied hpath => exact .inr (.inl hpath)
    | undecodable hfile hread hbytes _ => exact .inr (.inr ⟨_, hfile, hread, .inl hbytes⟩)
    | keyNotText hfile hread _ hkey =>
      exact .inr (.inr ⟨_, hfile, ⟨hread, by simp [hkey]⟩, .inr hkey⟩)
  · rintro (hpath | hpath | ⟨f, hfile, hread, hfault⟩)
    · exact ⟨_, .nameTooLong hpath⟩
    · exact ⟨_, .denied hpath⟩
    · cases hdecoded : decodeStream f.bytes with
      | error fault =>
        exact ⟨_, .undecodable hfile hread (not_isValidUTF8_of_decodeStream hdecoded) hdecoded⟩
      | ok text =>
        have hbytes := isValidUTF8_of_decodeStream hdecoded
        exact ⟨_, .keyNotText hfile hread.1 hbytes (hfault.resolve_left fun h => h hbytes)⟩

theorem exitCode_loadEnding (fault : LoadFault) :
    (loadEnding fault).exitCode = (if fault.isTold then 2 else 1) ∧
      (loadEnding fault).crash.isSome = !fault.isTold := by
  cases fault <;> exact ⟨rfl, rfl⟩

/-- A command ends as the fault of its settings says. -/
theorem execute_of_load_error {r : Request} {disk : Disk} {text : String} {fault : LoadFault}
    (hconfig : r.config = some text) (hload : (load disk (.ofString text)).1 = .error fault) :
    (r.execute disk).exitCode = (if fault.isTold then 2 else 1) ∧
      (r.execute disk).crash.isSome = !fault.isTold := by
  obtain ⟨notices, hnotices⟩ : ∃ notices, load disk (.ofString text) = (.error fault, notices) :=
    ⟨_, Prod.ext hload rfl⟩
  have hending : r.ending disk = (loadEnding fault).after notices := by
    simp only [Request.ending, Request.baseSettings, hconfig, hnotices, Option.isNone_some,
      Bool.and_false, Bool.false_eq_true, if_false]
  rw [Request.execute, hending]
  exact exitCode_loadEnding fault

theorem sound_or_told_iff (disk : Disk) (path : Path) :
    ((∃ s, (load disk path).1 = .ok s ∧ ∀ n ∈ s.threshold, 1 ≤ n) ∨
      ∃ fault, (load disk path).1 = .error fault ∧ fault.isTold = true) ↔
      ¬ ∃ fault, Escapes disk path fault := by
  constructor
  · rintro (⟨s, hok, -⟩ | ⟨fault, hload, htold⟩) ⟨other, hother⟩
    · rw [hother.load_eq] at hok
      cases hok
    · rw [hother.load_eq] at hload
      cases hload
      rw [hother.isTold_eq_false] at htold
      cases htold
  · intro hnone
    obtain hok | htold | hescapes := load_cases disk path
    · exact .inl hok
    · exact .inr htold
    · exact absurd hescapes hnone

/-- Loading ends with sound settings or with a fault that is told, exactly if the path can be looked
up and the file, if there is one, cannot be opened, or is in error as a document, or is UTF-8 and has
no mapping with other keys than texts at its top. The faults that are not told are those of
`Escapes`; on the command line they end the program with a crash, and the others with the exit code
of a bad command. -/
theorem load_tells_unless_escapes (disk : Disk) (path : Path) :
    (((∃ s, (load disk path).1 = .ok s ∧ ∀ n ∈ s.threshold, 1 ≤ n) ∨
        ∃ fault, (load disk path).1 = .error fault ∧ fault.isTold = true) ↔
      disk.locate path.render ≠ .tooLong ∧ disk.locate path.render ≠ .denied ∧
        ∀ f, disk.locate path.render = .entry (.file f) → IsRead f →
          f.bytes.toByteArray.IsValidUTF8 ∧ f.document ≠ .value .mixedMapping) ∧
    (∀ s, (load disk path).1 = .ok s → ∀ n ∈ s.threshold, 1 ≤ n) ∧
    (∀ fault, (load disk path).1 = .error fault ∧ fault.isTold = false ↔ Escapes disk path fault) ∧
    ∀ (r : Request) (text : String), r.config = some text → path = .ofString text →
      ∀ fault, (load disk path).1 = .error fault →
        (r.execute disk).exitCode = (if fault.isTold then 2 else 1) ∧
          (r.execute disk).crash.isSome = !fault.isTold := by
  refine ⟨?_, ?_, fun fault => (escapes_iff disk path fault).symm, ?_⟩
  · rw [sound_or_told_iff, exists_escapes_iff]
    simp only [not_or, not_exists, not_and, not_not, ne_eq]
  · intro s hok
    obtain ⟨s', hok', hs⟩ | ⟨fault, hload, -⟩ | ⟨fault, hfault⟩ := load_cases disk path
    · rw [hok] at hok'
      cases hok'
      exact hs
    · rw [hok] at hload
      cases hload
    · rw [hfault.load_eq] at hok
      cases hok
  · rintro r text hconfig rfl fault hload
    exact execute_of_load_error hconfig hload

def diskWithSettings (f : File) : Disk :=
  ⟨⟨"/", []⟩, .folder [("solid.yaml", .file f)]⟩

def thresholdFile : File where
  bytes := [105, 115, 112, 95, 116, 104, 114, 101, 115, 104, 111, 108, 100, 58, 32, 51, 10]
  document := .value (.mapping [("isp_threshold", .int 3)])

/-- The mapping `1: 2`, the key of which is no text. -/
def numberKeyFile : File where
  bytes := [49, 58, 32, 50, 10]
  document := .value .mixedMapping

/-- A byte that starts no character. -/
def strayByteFile : File where
  bytes := [0xFF]
  document := .value .null

theorem locate_diskWithSettings (f : File) :
    (diskWithSettings f).locate (Path.ofString "solid.yaml").render = .entry (.file f) :=
  rfl

/-- A threshold of three is loaded, and is at least one. -/
theorem load_tells_unless_escapes_threshold :
    ∃ s, (load (diskWithSettings thresholdFile) (.ofString "solid.yaml")).1 = .ok s ∧
      s.threshold = some 3 ∧ ∀ n ∈ s.threshold, 1 ≤ n := by
  have hdecoded : decodeStream thresholdFile.bytes = .ok "isp_threshold: 3\n" :=
    (Text.Utf8.decodeStream_eq_ok_iff _ _).2 rfl
  have hload : (load (diskWithSettings thresholdFile) (.ofString "solid.yaml")).1 =
      .ok { threshold := some 3 } := by
    simp only [load, locate_diskWithSettings, ofFile, hdecoded]
    rfl
  exact ⟨_, hload, rfl, (load_tells_unless_escapes _ _).2.1 _ hload⟩

/-- Neither of two broken files is told as a fault of the settings. -/
theorem broken_files_not_told :
    (load (diskWithSettings numberKeyFile) (.ofString "solid.yaml")).1 = .error .keyNotText ∧
      (load (diskWithSettings strayByteFile) (.ofString "solid.yaml")).1 =
        .error (.undecodable ⟨0xFF, 0, 0, .invalidStart⟩) ∧
      LoadFault.keyNotText.isTold = false ∧
      (LoadFault.undecodable ⟨0xFF, 0, 0, .invalidStart⟩).isTold = false := by
  have hkey : decodeStream numberKeyFile.bytes = .ok "1: 2\n" :=
    (Text.Utf8.decodeStream_eq_ok_iff _ _).2 rfl
  have hbyte : decodeStream strayByteFile.bytes = .error ⟨0xFF, 0, 0, .invalidStart⟩ := by
    rw [decodeStream, Text.Utf8.decodeBlocks]
    rfl
  refine ⟨?_, ?_, rfl, rfl⟩
  · simp only [load, locate_diskWithSettings, ofFile, hkey]
    rfl
  · simp only [load, locate_diskWithSettings, ofFile, hbyte]
    rfl

end ContractCheck.Settings
