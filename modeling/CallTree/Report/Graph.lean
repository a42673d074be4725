import CallTree.Tree

/-!
# Call graphs

A call graph has one node for every method at its place, however often the
method occurs in a tree, and an edge from caller to callee for every step of the
tree.
-/

namespace CallTree

/-- The values of a node's attributes. -/
structure NodeAttributes where
  methodName : String
  className : String
  filePath : String
  lineNumber : Int
  /-- The parameters in one text. -/
  parameters : String
  /-- Empty where there is no return type. -/
  returnType : String
  isExternal : Bool
  deriving DecidableEq, Repr

/-- The attributes of the node that an occurrence is first visited under. -/
def Occurrence.attributes (occurrence : Occurrence) : NodeAttributes where
  methodName := occurrence.method
  className := occurrence.className
  filePath := occurrence.file
  lineNumber := occurrence.line
  parameters := ", ".intercalate occurrence.parameters
  returnType := occurrence.returnType.getD ""
  isExternal := occurrence.external

/-- A node of a call graph: an identifier, and the attributes it was first visited
with.  A node named by an edge has no attributes until it is visited. -/
structure GraphNode where
  identifier : String
  attributes : Option NodeAttributes := none
  deriving DecidableEq, Repr

/-- Give a node the attributes of an occurrence.  A node that has attributes becomes
external if the occurrence is. -/
def GraphNode.meet (node : GraphNode) (occurrence : Occurrence) : GraphNode :=
  match node.attributes with
  | none => { node with attributes := some occurrence.attributes }
  | some first =>
      { node with
        attributes := some { first with isExternal := first.isExternal || occurrence.external } }

/-- Nodes in the order of their insertion, and edges in theirs. -/
structure Graph where
  nodes : List GraphNode := []
  edges : List (String × String) := []
  deriving DecidableEq, Repr

namespace Graph

/-- Add a node for an identifier, unless there is one. -/
def touch (graph : Graph) (identifier : String) : Graph :=
  if graph.nodes.any (·.identifier == identifier) then graph
  else { graph with nodes := graph.nodes ++ [{ identifier }] }

/-- Visit an occurrence under its identifier. -/
def visit (graph : Graph) (identifier : String) (occurrence : Occurrence) : Graph :=
  let touched := graph.touch identifier
  { touched with
    nodes := touched.nodes.map fun node =>
      if node.identifier == identifier then node.meet occurrence else node }

/-- Add an edge between two nodes, which are added where they are missing. -/
def connect (graph : Graph) (source target : String) : Graph :=
  let touched := (graph.touch source).touch target
  if touched.edges.contains (source, target) then touched
  else { touched with edges := touched.edges ++ [(source, target)] }

/-- The edge between a node and its child, from caller to callee. -/
def connectStep (direction : Direction) (graph : Graph) (parent child : String) : Graph :=
  match direction with
  | .up => graph.connect child parent
  | .down => graph.connect parent child

/-- Visit the root of a tree and connect it with its children. -/
def visitRoot (direction : Direction) (identify : Tree → String) (graph : Graph) (tree : Tree) :
    Graph :=
  tree.children.foldl
    (fun graph child => connectStep direction graph (identify tree) (identify child))
    (graph.visit (identify tree) tree.occurrence)

/-- Visit the waiting trees: the first one, then its children from the last to
the first, then the others. -/
def collect (direction : Direction) (identify : Tree → String) (graph : Graph) :
    List Tree → Graph
  | [] => graph
  | tree :: waiting =>
      collect direction identify (visitRoot direction identify graph tree)
        (tree.children.reverse ++ waiting)
termination_by waiting => Tree.sizeBelow waiting
decreasing_by
  cases tree
  simp only [Tree.sizeBelow_append, Tree.sizeBelow_reverse, Tree.sizeBelow, Tree.size,
    Tree.children]
  omega

/-- The call graph of a chain. -/
def ofChain (chain : Chain) : Graph :=
  collect chain.direction (·.occurrence.identifier) {} [chain.root]

/-- The edges by their source, in the order of the nodes. -/
def orderedEdges (graph : Graph) : List (String × String) :=
  graph.nodes.flatMap fun node => graph.edges.filter (·.1 == node.identifier)

end Graph
end CallTree
