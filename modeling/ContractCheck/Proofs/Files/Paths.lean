import ContractCheck.Files.Selection
import ContractCheck.Proofs.Text.Cutting
import Mathlib.Data.List.Basic

/-!
Folded absolute paths. They are known by their names alone, and their written forms say the same.
Main statement: a path is under a directory, by a test on the texts, just if the names of the
directory are the first of its own.
-/
namespace ContractCheck

open Text

namespace Files

def IsName (s : String) : Prop :=
  s ≠ "" ∧ s ≠ "." ∧ s ≠ ".." ∧ '/' ∉ s.toList

instance (s : String) : Decidable (IsName s) :=
  inferInstanceAs (Decidable (_ ∧ _))

theorem IsName.toList_ne_nil {s : String} (hs : IsName s) : s.toList ≠ [] :=
  fun h => hs.1 (String.toList_inj.1 h)

def trailed (names : List String) : List Char :=
  names.flatMap fun s => s.toList ++ ['/']

theorem trailed_append (as bs : List String) : trailed (as ++ bs) = trailed as ++ trailed bs :=
  List.flatMap_append

theorem pieces_trailed {names : List String} (hnames : ∀ s ∈ names, IsName s) (rest : List Char) :
    pieces '/' (trailed names ++ rest) = names.map String.toList ++ pieces '/' rest := by
  induction names with
  | nil => rfl
  | cons s names ih =>
    have hs := hnames s List.mem_cons_self
    have hrest : trailed (s :: names) ++ rest = s.toList ++ '/' :: (trailed names ++ rest) := by
      simp [trailed]
    rw [hrest, pieces_append_cons hs.2.2.2, ih fun x hx => hnames x (List.mem_cons_of_mem s hx),
      List.map_cons, List.cons_append]

theorem toList_joinWith_concat (names : List String) (last : String) :
    (joinWith "/" (names ++ [last])).toList = trailed names ++ last.toList := by
  induction names with
  | nil => rfl
  | cons s names ih =>
    obtain ⟨next, rest, hrest⟩ := List.exists_cons_of_ne_nil
      (List.append_ne_nil_of_right_ne_nil names (List.cons_ne_nil last []))
    rw [List.cons_append, hrest, joinWith, ← hrest, String.toList_append, String.toList_append, ih]
    simp [trailed]

namespace Path

structure Proper (p : Path) : Prop where
  anchor : p.anchor = "/"
  names : ∀ s ∈ p.parts, IsName s

theorem Proper.ext {p q : Path} (hp : p.Proper) (hq : q.Proper) (h : p.parts = q.parts) : p = q := by
  rw [Path.mk.injEq]
  exact ⟨hp.anchor.trans hq.anchor.symm, h⟩

theorem splitText_trailed {names : List String} (hnames : ∀ s ∈ names, IsName s)
    (rest : List Char) :
    splitText '/' (String.ofList ('/' :: trailed names ++ rest)) =
      "" :: (names ++ splitText '/' (String.ofList rest)) := by
  rw [splitText, String.toList_ofList, List.cons_append, pieces, if_pos rfl, pieces_trailed hnames,
    splitText, String.toList_ofList]
  simp

/-- The parts of a path that begins with some names. -/
theorem parts_ofString_trailed {names : List String} (hnames : ∀ s ∈ names, IsName s)
    (rest : List Char) :
    (ofString (String.ofList ('/' :: trailed names ++ rest))).parts =
      names ++ (ofString (String.ofList rest)).parts := by
  have hkept : names.filter (fun s => s != "" && s != ".") = names := by
    rw [List.filter_eq_self]
    intro s hs
    simp [(hnames s hs).1, (hnames s hs).2.1]
  rw [ofString, splitText_trailed hnames, List.filter_cons_of_neg (by simp), List.filter_append,
    hkept, ofString]

theorem toList_render_root {p : Path} (hp : p.Proper) (hparts : p.parts = []) :
    p.render.toList = ['/'] := by
  simp [render, hp.anchor, hparts, joinWith]

theorem toList_render_concat {p : Path} (hp : p.Proper) {names : List String} {last : String}
    (hparts : p.parts = names ++ [last]) :
    p.render.toList = '/' :: trailed names ++ last.toList := by
  simp [render, hp.anchor, hparts, toList_joinWith_concat]

theorem splitText_render {p : Path} (hp : p.Proper) :
    splitText '/' p.render = "" :: if p.parts = [] then [""] else p.parts := by
  rw [← String.ofList_toList (s := p.render)]
  cases List.eq_nil_or_concat' p.parts with
  | inl hnil =>
    rw [toList_render_root hp hnil, if_pos hnil]
    rfl
  | inr hconcat =>
    obtain ⟨names, last, hparts⟩ := hconcat
    have hall := hp.names
    rw [hparts] at hall
    rw [toList_render_concat hp hparts, splitText_trailed fun s hs => hall s (by simp [hs]),
      String.ofList_toList, splitText, pieces_of_not_mem (hall last (by simp)).2.2.2, hparts]
    simp

/-- The written form of a folded path is read as that path. -/
theorem parts_ofString_render {p : Path} (hp : p.Proper) : (ofString p.render).parts = p.parts := by
  rw [ofString, splitText_render hp]
  by_cases hnil : p.parts = []
  · simp [hnil]
  · rw [if_neg hnil, List.filter_cons_of_neg (by simp), List.filter_eq_self]
    intro s hs
    simp [(hp.names s hs).1, (hp.names s hs).2.1]

theorem exists_toList_render {p : Path} (hp : p.Proper) : ∃ cs, p.render.toList = '/' :: cs := by
  cases List.eq_nil_or_concat' p.parts with
  | inl hnil => exact ⟨[], toList_render_root hp hnil⟩
  | inr hconcat =>
    obtain ⟨names, last, hparts⟩ := hconcat
    exact ⟨trailed names ++ last.toList, toList_render_concat hp hparts⟩

theorem isAbsolute_ofString_render {p : Path} (hp : p.Proper) :
    (ofString p.render).isAbsolute = true := by
  obtain ⟨cs, hcs⟩ := exists_toList_render hp
  have hanchor : anchorOf p.render ≠ "" := by
    rw [anchorOf, hcs]
    split <;> simp_all
  exact bne_iff_ne.2 hanchor

theorem render_inj {p q : Path} (hp : p.Proper) (hq : q.Proper) : p.render = q.render ↔ p = q := by
  constructor
  · intro h
    apply hp.ext hq
    rw [← parts_ofString_render hp, h, parts_ofString_render hq]
  · intro h
    rw [h]

/-- What the written forms of all paths below a path begin with. -/
theorem dropEndWhile_render {p : Path} (hp : p.Proper) :
    (String.ofList (dropEndWhile (· = '/') p.render.toList) ++ "/").toList =
      '/' :: trailed p.parts := by
  cases List.eq_nil_or_concat' p.parts with
  | inl hnil =>
    rw [toList_render_root hp hnil, hnil]
    rfl
  | inr hconcat =>
    obtain ⟨names, last, hparts⟩ := hconcat
    have hlast : IsName last := hp.names last (by simp [hparts])
    rw [toList_render_concat hp hparts, dropEndWhile_append hlast.toList_ne_nil, hparts,
      trailed_append]
    · simp [trailed]
    · intro c hc
      exact decide_eq_false fun h => hlast.2.2.2 (h ▸ hc)

/-- The test on the texts is one on the names: a sibling whose name begins like that of the
directory is not taken for a path below it. -/
theorem isUnder_render_iff {p q : Path} (hp : p.Proper) (hq : q.Proper) :
    isUnder p.render q.render = true ↔ q.parts <+: p.parts := by
  rw [isUnder, Bool.or_eq_true, beq_iff_eq, render_inj hp hq, String.startsWith_string_iff,
    dropEndWhile_render hq]
  constructor
  · intro h
    cases h with
    | inl h => exact h ▸ List.prefix_refl _
    | inr h =>
      -- the text of the directory ends in a slash, so that no name of the path is cut in two
      obtain ⟨rest, hrest⟩ := h
      refine ⟨_, (parts_ofString_trailed hq.names rest).symm.trans ?_⟩
      rw [hrest, String.ofList_toList, parts_ofString_render hp]
  · rintro ⟨below, hbelow⟩
    cases List.eq_nil_or_concat' below with
    | inl hnil =>
      rw [hnil, List.append_nil] at hbelow
      exact Or.inl (hp.ext hq hbelow.symm)
    | inr hconcat =>
      obtain ⟨names, last, rfl⟩ := hconcat
      right
      rw [← List.append_assoc] at hbelow
      rw [toList_render_concat hp hbelow.symm, trailed_append]
      simp

/-- Takes one segment: a `..` takes back the name before it. The names are held in reverse. -/
def stepDots (done : List String) (s : String) : List String :=
  if s = ".." then done.tail else s :: done

theorem foldDots_eq (parts : List String) : foldDots parts = (parts.foldl stepDots []).reverse :=
  rfl

theorem foldl_stepDots_of_names {names : List String} (hnames : ∀ s ∈ names, s ≠ "..")
    (done : List String) : names.foldl stepDots done = names.reverse ++ done := by
  induction names generalizing done with
  | nil => rfl
  | cons s names ih =>
    rw [List.foldl_cons, stepDots, if_neg (hnames s List.mem_cons_self),
      ih fun x hx => hnames x (List.mem_cons_of_mem s hx), List.reverse_cons, List.append_assoc,
      List.singleton_append]

theorem mem_foldl_stepDots {parts done : List String} {s : String}
    (h : s ∈ parts.foldl stepDots done) : s ∈ done ∨ (s ∈ parts ∧ s ≠ "..") := by
  induction parts generalizing done with
  | nil => exact Or.inl h
  | cons x parts ih =>
    cases ih h with
    | inl hstep =>
      rw [stepDots] at hstep
      by_cases hx : x = ".."
      · rw [if_pos hx] at hstep
        exact Or.inl (List.mem_of_mem_tail hstep)
      · rw [if_neg hx] at hstep
        cases List.mem_cons.1 hstep with
        | inl heq => exact Or.inr ⟨heq ▸ List.mem_cons_self, heq ▸ hx⟩
        | inr hdone => exact Or.inl hdone
    | inr hrest => exact Or.inr ⟨List.mem_cons_of_mem x hrest.1, hrest.2⟩

theorem mem_parts_ofString {text s : String} (h : s ∈ (ofString text).parts) :
    s ≠ "" ∧ s ≠ "." ∧ '/' ∉ s.toList := by
  obtain ⟨hsplit, hkept⟩ := List.mem_filter.1 h
  obtain ⟨piece, hpiece, rfl⟩ := List.mem_map.1 hsplit
  rw [Bool.and_eq_true, bne_iff_ne, bne_iff_ne] at hkept
  rw [String.toList_ofList]
  exact ⟨hkept.1, hkept.2, not_mem_of_mem_pieces hpiece⟩

theorem parts_absolute (base : Path) (text : String) :
    (absolute base text).parts =
      foldDots ((if (ofString text).isAbsolute then [] else base.parts) ++ (ofString text).parts) := by
  rw [absolute, under]
  split <;> rfl

theorem parts_absolute_render (base : Path) {p : Path} (hp : p.Proper) :
    (absolute base p.render).parts = p.parts := by
  rw [parts_absolute, isAbsolute_ofString_render hp, if_pos rfl, List.nil_append,
    parts_ofString_render hp, foldDots_eq, foldl_stepDots_of_names fun s hs => (hp.names s hs).2.2.1,
    List.append_nil, List.reverse_reverse]

theorem anchorOf_cases (text : String) :
    anchorOf text = "" ∨ anchorOf text = "/" ∨ anchorOf text = "//" := by
  rw [anchorOf]
  split <;> simp

/-- What a text stands for is a folded path, unless it has exactly two slashes in front. -/
theorem proper_absolute {base : Path} (hbase : base.Proper) {text : String}
    (htext : anchorOf text ≠ "//") : (absolute base text).Proper := by
  constructor
  · have hanchor : (ofString text).anchor = anchorOf text := rfl
    rw [absolute, under, isAbsolute, hanchor]
    rcases anchorOf_cases text with h | h | h
    · simp [h, hbase.anchor]
    · simp [h, hanchor]
    · exact absurd h htext
  · intro s hs
    rw [parts_absolute, foldDots_eq, List.mem_reverse] at hs
    obtain ⟨hmem, hdots⟩ := (mem_foldl_stepDots hs).resolve_left (List.not_mem_nil)
    cases List.mem_append.1 hmem with
    | inl hmem =>
      split at hmem
      · cases hmem
      · exact hbase.names s hmem
    | inr hmem =>
      obtain ⟨hne, hdot, hslash⟩ := mem_parts_ofString hmem
      exact ⟨hne, hdot, hdots, hslash⟩

end Path

end Files

end ContractCheck
