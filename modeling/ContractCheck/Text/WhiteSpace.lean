/-!
Two classes of white space and the functions that cut text at them. Text is handled as a list of
characters, so that each function is a recursion on the text.
-/
namespace ContractCheck.Text

/-- White space of source text: the Unicode white space together with the four separators
U+001C to U+001F. -/
def isSpace (c : Char) : Bool :=
  let n := c.toNat
  (9 ≤ n && n ≤ 13) || (28 ≤ n && n ≤ 32) || n == 0x85 || n == 0xA0 || n == 0x1680 ||
    (0x2000 ≤ n && n ≤ 0x200A) || n == 0x2028 || n == 0x2029 || n == 0x202F || n == 0x205F ||
    n == 0x3000

def isUnicodeSpace (c : Char) : Bool :=
  isSpace c && !(28 ≤ c.toNat && c.toNat ≤ 31)

def dropEndWhile (p : Char → Bool) (cs : List Char) : List Char :=
  (cs.reverse.dropWhile p).reverse

def trimWhile (p : Char → Bool) (cs : List Char) : List Char :=
  dropEndWhile p (cs.dropWhile p)

def trim (cs : List Char) : List Char :=
  trimWhile isSpace cs

theorem length_dropWhile_le (p : Char → Bool) (cs : List Char) :
    (cs.dropWhile p).length ≤ cs.length :=
  (List.dropWhile_sublist p).length_le

theorem length_dropEndWhile_le (p : Char → Bool) (cs : List Char) :
    (dropEndWhile p cs).length ≤ cs.length := by
  have h := length_dropWhile_le p cs.reverse
  simpa [dropEndWhile] using h

theorem length_trim_le (cs : List Char) : (trim cs).length ≤ cs.length :=
  Nat.le_trans (length_dropEndWhile_le _ _) (length_dropWhile_le _ _)

/-- Every run of white space becomes one blank, and none is left at the ends. The flags say
whether a character has been written and whether white space was passed since. -/
def collapseFrom (started owed : Bool) : List Char → List Char
  | [] => []
  | c :: cs =>
    if isSpace c then collapseFrom started true cs
    else if started && owed then ' ' :: c :: collapseFrom true false cs
    else c :: collapseFrom true false cs

def collapse (cs : List Char) : List Char :=
  collapseFrom false false cs

theorem length_collapseFrom_le (started owed : Bool) (cs : List Char) :
    (collapseFrom started owed cs).length ≤ cs.length + (started && owed).toNat := by
  induction cs generalizing started owed with
  | nil => simp [collapseFrom]
  | cons c cs ih =>
    have h₁ := ih started true
    have h₂ := ih true false
    cases started <;> cases owed <;> simp [collapseFrom] at * <;> split <;>
      (try simp only [List.length_cons]) <;> omega

theorem length_collapse_le (cs : List Char) : (collapse cs).length ≤ cs.length := by
  simpa [collapse] using length_collapseFrom_le false false cs

end ContractCheck.Text
