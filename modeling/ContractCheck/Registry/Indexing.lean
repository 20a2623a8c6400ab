import ContractCheck.Declaration.Reader
import ContractCheck.Registry.Basic
import ContractCheck.Syntax.Walk

/-!
Indexing of sources. A source is kept under a key, its absolute path, and is read only once; files
that failed are remembered too.
-/
namespace ContractCheck

structure Indexing where
  registry : Registry
  outcome : Except IndexFault (List ClassDecl)
  notices : List Notice := []

namespace Registry

def fail (r : Registry) (key : String) (fault : IndexFault) : Indexing where
  registry := { r with failed := r.failed.set key fault }
  outcome := .error fault

/-- Indexes a parsed source under a key. A key that is taken keeps its first source. -/
def indexTree (r : Registry) (key : String) (tree : Syntax.Tree) : Indexing :=
  match r.files.find? key with
  | some classes => ⟨r, .ok classes, []⟩
  | none =>
    if tree.hasError then
      r.fail key (.syntaxError key ((tree.root.map (·.faultLine)).getD 1))
    else
      let classes := (tree.root.map (Declaration.classesOf key)).getD []
      let namespaces := (tree.root.map Declaration.namespacesOf).getD []
      let registered := (r.registerAll classes).addNamespaces namespaces
      { registry := { registered with files := r.files.set key classes }
        outcome := .ok classes
        notices := r.registerAllNotices classes ++ [.parsedFile key classes.length] }

def sourceKey (disk : Files.Disk) (path : String) : String :=
  if path = "" then "<memory>" else disk.absolute path

def indexSource (r : Registry) (disk : Files.Disk) (path source : String) (parse : Files.Parse) :
    Indexing :=
  r.indexTree (sourceKey disk path) (parse.tree source)

/-- Indexes a file. Its first outcome, also a failure, stands for good; a path with a null byte is
refused each time anew. -/
def indexFile (r : Registry) (disk : Files.Disk) (path : String) : Indexing :=
  let location := Files.Path.absolute disk.workingDirectory path
  let key := location.render
  match r.files.find? key, r.failed.find? key with
  | some classes, _ => ⟨r, .ok classes, [.reusedFile key]⟩
  | none, some fault => ⟨r, .error fault, []⟩
  | none, none =>
    if key.toList.contains '\x00' then ⟨r, .error (.nullByte key), []⟩
    else
      match disk.open? location with
      | .error fault => r.fail key (.unreadable key fault)
      | .ok file =>
        match file.text with
        | .error fault => r.fail key (.unreadable key fault)
        | .ok source => r.indexTree key (file.parse.tree source)

end Registry

end ContractCheck
