import StubCatalog.Table

/-! # Strongly connected components

One depth-first search finds the strongly connected components of a graph. A node gets a number when
it is met, and stays on a stack until its component is complete; its low number is the smallest
number on the stack that it is known to lead to. A node that leads to no smaller number is the first
of its component, and the rest lies above it on the stack. -/

namespace StubCatalog.Graph

/-- The state of the search. The stack has its top first. -/
structure Search where
  index : Table Nat := {}
  low : Table Nat := {}
  onStack : List String := []
  stack : List String := []
  components : List (List String) := []
  counter : Nat := 0

namespace Search

/-- The number of a node that has been met. -/
def indexOf (s : Search) (node : String) : Nat := (s.index.get? node).getD 0

/-- The low number of a node that has been met. -/
def lowOf (s : Search) (node : String) : Nat := (s.low.get? node).getD 0

/-- Meets a node: it gets the next number and goes on the stack. -/
def enter (s : Search) (node : String) : Search :=
  { s with
    index := s.index.insert node s.counter
    low := s.low.insert node s.counter
    onStack := node :: s.onStack
    stack := node :: s.stack
    counter := s.counter + 1 }

/-- Lowers the low number of a node to a bound. -/
def lower (s : Search) (node : String) (bound : Nat) : Search :=
  { s with low := s.low.insert node (min (s.lowOf node) bound) }

/-- Follows the edge from a node to one of its successors; `visit` searches from a new node. -/
def follow (visit : Search → String → Search) (node : String) (s : Search) (target : String) :
    Search :=
  if !s.index.contains target then
    let inner := visit s target
    inner.lower node (inner.lowOf target)
  else if s.onStack.contains target then s.lower node (s.indexOf target)
  else s

/-- The nodes from the top of a stack down to the given one, and those below it. -/
def popTo (node : String) : List String → List String × List String
  | [] => ([], [])
  | top :: rest =>
    if top = node then ([top], rest)
    else
      let (above, below) := popTo node rest
      (top :: above, below)

/-- Leaves a node: if it is the first of its component, the component comes off the stack. -/
def leave (s : Search) (node : String) : Search :=
  if s.lowOf node = s.indexOf node then
    let (component, rest) := popTo node s.stack
    { s with
      onStack := s.onStack.filter fun member => !component.contains member
      stack := rest
      components := s.components ++ [component] }
  else s

/-- Searches from a new node. No path is longer than the number of nodes, which bounds the depth. -/
def visit (successors : String → List String) : Nat → Search → String → Search
  | 0, s, _ => s
  | depth + 1, s, node =>
    ((successors node).foldl (follow (visit successors depth) node) (s.enter node)).leave node

/-- Searches from a node unless it has been met. -/
def visitNew (successors : String → List String) (depth : Nat) (s : Search) (node : String) :
    Search :=
  if s.index.contains node then s else visit successors depth s node

end Search

/-- The strongly connected components, in the order in which the search completes them. -/
def components (nodes : List String) (successors : String → List String) : List (List String) :=
  (nodes.foldl (Search.visitNew successors nodes.length) {}).components

end StubCatalog.Graph
