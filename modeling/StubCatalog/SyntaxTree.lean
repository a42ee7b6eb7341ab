import StubCatalog.Location
import StubCatalog.Text.Encoding

/-! # Syntax trees

Every node spans a range of bytes of the source. Parts that could not be parsed, and parts that were
missing and put in, are nodes of their own. -/

namespace StubCatalog

/-- A node of a syntax tree. -/
structure SyntaxNode where
  kind : String
  start : Nat
  stop : Nat
  field : Option String
  /-- The node stands for a rule of the grammar and not just for a word or sign. -/
  named : Bool
  /-- The node is not in the source and was put in to go on. -/
  missing : Bool
  /-- The parser marks the node as one with an error in it. -/
  hasError : Bool
  children : List SyntaxNode
  deriving Inhabited

namespace SyntaxNode

/-- The node could not be parsed, or was put in. -/
def isFault (node : SyntaxNode) : Bool := node.kind == "ERROR" || node.missing

/-- The outermost parts of a node that could not be parsed, in the order of the source. Only
children that are marked are looked into. -/
def faults (node : SyntaxNode) : List SyntaxNode :=
  if node.isFault then [node]
  else node.children.attach.flatMap fun ⟨child, _⟩ =>
    if child.hasError || child.missing then child.faults else []
termination_by node
decreasing_by
  have := List.sizeOf_lt_of_mem ‹_ ∈ _›
  cases node
  simp_all
  omega

/-- The children that are no signs. -/
def namedChildren (node : SyntaxNode) : List SyntaxNode := node.children.filter (·.named)

/-- The child in a field. -/
def child? (node : SyntaxNode) (field : String) : Option SyntaxNode :=
  node.children.find? (·.field == some field)

theorem sizeOf_namedChildren_lt (node : SyntaxNode) : sizeOf node.namedChildren < sizeOf node := by
  have h : ∀ xs : List SyntaxNode, sizeOf (xs.filter (·.named)) ≤ sizeOf xs := by
    intro xs
    induction xs with
    | nil => simp
    | cons x xs ih =>
      rw [List.filter_cons]
      split <;> simp only [List.cons.sizeOf_spec] <;> omega
  cases node with
  | mk kind start stop field named missing hasError children =>
    have := h children
    simp only [namedChildren, SyntaxNode.mk.sizeOf_spec]
    omega

theorem sizeOf_child_lt {node child : SyntaxNode} {field : String}
    (h : node.child? field = some child) : sizeOf child < sizeOf node := by
  have := List.sizeOf_lt_of_mem (List.mem_of_find?_eq_some h)
  cases node
  simp_all
  omega

/-- The text of a node. -/
def text (source : ByteArray) (node : SyntaxNode) : String :=
  Text.slice source node.start node.stop

/-- The text of the child in a field. -/
def childText? (source : ByteArray) (node : SyntaxNode) (field : String) : Option String :=
  (node.child? field).map (·.text source)

/-- The row that a node starts in, from zero. -/
def row (source : ByteArray) (node : SyntaxNode) : Nat :=
  (source.extract 0 node.start).toList.count 10

/-- The column that a node starts in, from zero. -/
def column (source : ByteArray) (node : SyntaxNode) : Nat :=
  (((source.extract 0 node.start).toList.reverse.takeWhile (· != 10)).length)

/-- Where a node starts. -/
def location (file : String) (source : ByteArray) (node : SyntaxNode) : Location :=
  ⟨file, node.row source + 1, node.column source + 1⟩

end SyntaxNode

end StubCatalog
