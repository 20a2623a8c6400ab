import ContractCheck.Text.Split

/-!
Paths as text. Exactly two slashes in front are kept apart from one.
-/
namespace ContractCheck.Files

open Text (splitText joinWith)

/-- A path without empty segments and without `.`; a `..` stays. The anchor is empty for a relative
path, else one slash or two. -/
structure Path where
  anchor : String
  parts : List String
deriving DecidableEq

namespace Path

/-- One or more slashes in front count as one, but for exactly two. -/
def anchorOf (text : String) : String :=
  match text.toList with
  | '/' :: '/' :: '/' :: _ => "/"
  | '/' :: '/' :: _ => "//"
  | '/' :: _ => "/"
  | _ => ""

def ofString (text : String) : Path where
  anchor := anchorOf text
  parts := (splitText '/' text).filter fun s => s != "" && s != "."

def render (p : Path) : String :=
  if p.anchor = "" && p.parts.isEmpty then "." else p.anchor ++ joinWith "/" p.parts

def isAbsolute (p : Path) : Bool :=
  p.anchor != ""

def parent (p : Path) : Path :=
  { p with parts := p.parts.dropLast }

def under (base p : Path) : Path :=
  if p.isAbsolute then p else { base with parts := base.parts ++ p.parts }

/-- Takes back one segment for each `..`, and never goes above the root. -/
def foldDots (parts : List String) : List String :=
  (parts.foldl (fun done s => if s = ".." then done.tail else s :: done) []).reverse

def absolute (workingDirectory : Path) (text : String) : Path :=
  let p := workingDirectory.under (ofString text)
  { p with parts := foldDots p.parts }

def child (p : Path) (name : String) : Path :=
  { p with parts := p.parts ++ [name] }

def childText (text name : String) : String :=
  if text = "" || text.endsWith "/" then text ++ name else text ++ "/" ++ name

end Path

end ContractCheck.Files
