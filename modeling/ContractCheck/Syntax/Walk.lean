import ContractCheck.Syntax.Node

/-!
Walking a tree in document order. The walk keeps a stack of the nodes still to be visited; beside
it stands the recursive traversal that says what it yields.
-/
namespace ContractCheck.Syntax

structure Cursor where
  node : Node
  above : List Node := []

namespace Cursor

def children (c : Cursor) : List Cursor :=
  c.node.children.map fun n => ⟨n, c.node :: c.above⟩

def weight (stack : List Cursor) : Nat :=
  Node.sizeAll (stack.map (·.node))

theorem weight_children_append (c : Cursor) (stack : List Cursor) :
    weight (c.children ++ stack) < weight (c :: stack) := by
  simp only [weight, children, List.map_append, List.map_map, Node.sizeAll_append, List.map_cons,
    Node.sizeAll, Node.size_eq c.node]
  have h : (c.node.children.map ((·.node) ∘ fun n => (⟨n, c.node :: c.above⟩ : Cursor))) =
      c.node.children := by simp [Function.comp_def]
  rw [h]
  omega

def walkStack (skip : String → Bool) : List Cursor → List Cursor
  | [] => []
  | c :: stack =>
    if skip c.node.kind then walkStack skip stack
    else c :: walkStack skip (c.children ++ stack)
termination_by stack => weight stack
decreasing_by
  · have := Node.size_pos c.node
    simp only [weight, List.map_cons, Node.sizeAll]
    omega
  · exact weight_children_append c stack

/-- Visits a node, whatever its kind, and all below it that is not skipped. -/
def walk (skip : String → Bool) (c : Cursor) : List Cursor :=
  c :: walkStack skip c.children

end Cursor

namespace Node

def walk (skip : String → Bool) (n : Node) : List Node :=
  (Cursor.walk skip ⟨n, []⟩).map (·.node)

mutual

def preorder (skip : String → Bool) : Node → List Node
  | mk info children => mk info children :: preorderAll skip children

def preorderAll (skip : String → Bool) : List Node → List Node
  | [] => []
  | n :: ns => (if skip n.kind then [] else preorder skip n) ++ preorderAll skip ns

end

def searchStack (p : Node → Bool) : List Node → Option Node
  | [] => none
  | n :: stack => if p n then some n else searchStack p (n.children ++ stack)
termination_by stack => sizeAll stack
decreasing_by
  simp only [sizeAll_append, sizeAll, size_eq n]
  omega

def isFault (n : Node) : Bool :=
  n.kind == "ERROR" || n.info.missing

def faultLine (n : Node) : Nat :=
  ((searchStack isFault [n]).getD n).startLine

end Node

end ContractCheck.Syntax
