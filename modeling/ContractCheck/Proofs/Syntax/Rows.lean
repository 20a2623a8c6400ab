import ContractCheck.Syntax.Walk
import Mathlib.Data.List.Basic

/-!
Trees that are handed over as rows. Main statements: the rows of a tree, in pre-order and with the
number of children, are read back as that tree, and the line kept for an offset is the number of line
feeds before it.
-/
namespace ContractCheck.Syntax

section Lines

/-- The line of an offset, counted from zero: the number of line feeds before it. -/
def lineAt (source : String) (offset : Nat) : Nat :=
  (source.toUTF8.data.toList.take offset).count 10

theorem lineAt_mono {source : String} {a b : Nat} (h : a ≤ b) :
    lineAt source a ≤ lineAt source b :=
  (List.take_sublist_take_left h).count_le 10

def feedTable (bytes : List UInt8) : Array Nat :=
  ((List.range (bytes.length + 1)).map fun i => (bytes.take i).count 10).toArray

theorem back?_feedTable (bytes : List UInt8) :
    (feedTable bytes).back? = some (bytes.count 10) := by
  simp [feedTable, List.range_succ]

theorem push_feedTable (bytes : List UInt8) (b : UInt8) :
    (feedTable bytes).push ((feedTable bytes).back?.getD 0 + if b == 10 then 1 else 0) =
      feedTable (bytes ++ [b]) := by
  have hfront : ((List.range (bytes.length + 1)).map fun i => ((bytes ++ [b]).take i).count 10) =
      (List.range (bytes.length + 1)).map fun i => (bytes.take i).count 10 := by
    apply List.map_congr_left
    intro i hi
    have hle : i ≤ bytes.length := Nat.le_of_lt_succ (List.mem_range.1 hi)
    rw [List.take_append_of_le_length hle]
  have hlast : ((bytes ++ [b]).take (bytes.length + 1)).count 10 =
      bytes.count 10 + if b == 10 then 1 else 0 := by
    rw [List.take_of_length_le (by simp), List.count_append, List.count_singleton]
  rw [back?_feedTable, Option.getD_some, feedTable, feedTable, List.push_toArray, List.length_append,
    List.length_singleton, List.range_succ (n := bytes.length + 1), List.map_append, hfront,
    List.map_singleton, hlast]

theorem foldl_feedTable (front rest : List UInt8) :
    rest.foldl (fun acc b => acc.push (acc.back?.getD 0 + if b == 10 then 1 else 0))
      (feedTable front) = feedTable (front ++ rest) := by
  induction rest generalizing front with
  | nil => rw [List.foldl_nil, List.append_nil]
  | cons b rest ih =>
    rw [List.foldl_cons, push_feedTable, ih, List.append_assoc, List.singleton_append]

/-- A loop over the bytes from an index on, with as many turns left as there are bytes. -/
theorem foldlM_loop_eq {β : Type} (f : β → UInt8 → β) (bytes : ByteArray) {left i : Nat} (acc : β)
    (h : left + i = bytes.size) :
    ByteArray.foldlM.loop (fun acc b => (pure (f acc b) : Id β)) bytes bytes.size (Nat.le_refl _)
      left i acc = pure ((bytes.data.toList.drop i).foldl f acc) := by
  have hlength : bytes.data.toList.length = bytes.size := by
    rw [Array.length_toList, ByteArray.size_data]
  induction left generalizing i acc with
  | zero =>
    rw [List.drop_of_length_le (by omega), ByteArray.foldlM.loop, dif_neg (by omega)]
    rfl
  | succ left ih =>
    have hi : i < bytes.data.toList.length := by omega
    rw [ByteArray.foldlM.loop, dif_pos (by omega), List.drop_eq_getElem_cons hi, List.foldl_cons]
    exact ih _ (by omega)

theorem foldl_bytes_eq {β : Type} (f : β → UInt8 → β) (acc : β) (bytes : ByteArray) :
    bytes.foldl f acc = bytes.data.toList.foldl f acc := by
  rw [ByteArray.foldl, ByteArray.foldlM, dif_pos (Nat.le_refl _)]
  exact congrArg Id.run (foldlM_loop_eq f bytes acc (Nat.add_zero bytes.size))

theorem lineFeedsBefore_eq (bytes : ByteArray) :
    lineFeedsBefore bytes = feedTable bytes.data.toList := by
  rw [lineFeedsBefore, foldl_bytes_eq]
  exact foldl_feedTable [] bytes.data.toList

theorem lineFeedsBefore_getD {source : String} {offset : Nat} (h : offset ≤ source.utf8ByteSize) :
    (lineFeedsBefore source.toUTF8).getD offset 0 = lineAt source offset := by
  have hlt : offset < source.toUTF8.data.toList.length + 1 := by
    rw [Array.length_toList]
    exact Nat.lt_succ_of_le h
  rw [lineFeedsBefore_eq, feedTable, Array.getD_eq_getD_getElem?, List.getElem?_toArray,
    List.getElem?_map, List.getElem?_range hlt]
  rfl

end Lines

inductive RowTree where
  | mk (row : Row) (children : List RowTree)

namespace RowTree

def row : RowTree → Row
  | mk row _ => row

def children : RowTree → List RowTree
  | mk _ children => children

def start (t : RowTree) : Nat := t.row.start

def stop (t : RowTree) : Nat := t.row.stop

def isFault (t : RowTree) : Bool :=
  t.row.kind == "ERROR" || t.row.missing

mutual

def nodes : RowTree → List RowTree
  | mk row children => mk row children :: nodesIn children

def nodesIn : List RowTree → List RowTree
  | [] => []
  | t :: ts => nodes t ++ nodesIn ts

end

mutual

def rows : RowTree → List Row
  | mk row children => { row with childCount := children.length } :: rowsIn children

def rowsIn : List RowTree → List Row
  | [] => []
  | t :: ts => rows t ++ rowsIn ts

end

mutual

def node (source : String) : RowTree → Node
  | mk row children =>
    .mk (row.info source (lineFeedsBefore source.toUTF8)) (nodeIn source children)

def nodeIn (source : String) : List RowTree → List Node
  | [] => []
  | t :: ts => node source t :: nodeIn source ts

end

theorem nodes_eq (t : RowTree) : t.nodes = t :: nodesIn t.children := by
  cases t
  rfl

theorem mem_nodes_self (t : RowTree) : t ∈ t.nodes := by
  rw [nodes_eq]
  exact List.mem_cons_self

theorem length_nodeIn (source : String) (ts : List RowTree) :
    (nodeIn source ts).length = ts.length := by
  induction ts with
  | nil => rfl
  | cons t ts ih => rw [nodeIn, List.length_cons, ih, List.length_cons]

section

variable (source : String)

mutual

/-- The rows of a tree put it on top of the finished trees. -/
theorem foldr_push_rows : (t : RowTree) → (done : List Node) →
    t.rows.foldr (Row.push source (lineFeedsBefore source.toUTF8)) done = t.node source :: done
  | mk row children, done => by
    have hchildren := foldr_push_rowsIn children done
    have hlength := length_nodeIn source children
    rw [rows, List.foldr_cons, hchildren, Row.push, List.take_left' hlength,
      List.drop_left' hlength, node]
    rfl

theorem foldr_push_rowsIn : (ts : List RowTree) → (done : List Node) →
    (rowsIn ts).foldr (Row.push source (lineFeedsBefore source.toUTF8)) done =
      nodeIn source ts ++ done
  | [], _ => rfl
  | t :: ts, done => by
    rw [rowsIn, List.foldr_append, foldr_push_rowsIn ts done, foldr_push_rows t, nodeIn,
      List.cons_append]

end

/-- A tree is read back from its rows. -/
theorem ofRows_rows (hasError : Bool) (t : RowTree) :
    Tree.ofRows source hasError t.rows = ⟨hasError, some (t.node source)⟩ := by
  rw [Tree.ofRows, foldr_push_rows, List.head?_cons]

mutual

theorem preorder_node : (t : RowTree) →
    (t.node source).preorder (fun _ => false) = t.nodes.map (node source)
  | mk row children => by
    rw [node, Node.preorder, preorderAll_nodeIn children, nodes, List.map_cons, node]

theorem preorderAll_nodeIn : (ts : List RowTree) →
    Node.preorderAll (fun _ => false) (nodeIn source ts) = (nodesIn ts).map (node source)
  | [] => rfl
  | t :: ts => by
    rw [nodeIn, Node.preorderAll, if_neg Bool.false_ne_true, preorder_node t,
      preorderAll_nodeIn ts, nodesIn, List.map_append]

end

theorem isFault_node (t : RowTree) : (t.node source).isFault = t.isFault := by
  cases t
  rfl

theorem startLine_node {t : RowTree} (h : t.start ≤ source.utf8ByteSize) :
    (t.node source).startLine = lineAt source t.start + 1 := by
  rw [← lineFeedsBefore_getD h]
  cases t
  rfl

end

end RowTree

end ContractCheck.Syntax
