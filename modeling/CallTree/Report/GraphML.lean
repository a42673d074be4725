import CallTree.Report.Graph

/-!
# GraphML

The GraphML text of a call graph.  Attributes are declared by numbered keys:
three of the graph and seven of each node.
-/

namespace CallTree
namespace GraphML

def escapedCharacter (c : Char) : List Char :=
  if c == '&' then "&amp;".toList
  else if c == '<' then "&lt;".toList
  else if c == '>' then "&gt;".toList
  else [c]

def escape (text : String) : String :=
  String.ofList (text.toList.flatMap escapedCharacter)

/-- A declared attribute: what has it, its name and its type. -/
structure Key where
  owner : String
  name : String
  type : String

/-- The attributes in the order of their numbers. -/
def keys : List Key := [
  ⟨"graph", "direction", "string"⟩, ⟨"graph", "depth", "long"⟩,
  ⟨"graph", "total_methods", "long"⟩, ⟨"node", "method_name", "string"⟩,
  ⟨"node", "class_name", "string"⟩, ⟨"node", "file_path", "string"⟩,
  ⟨"node", "line_number", "long"⟩, ⟨"node", "parameters", "string"⟩,
  ⟨"node", "return_type", "string"⟩, ⟨"node", "is_external", "boolean"⟩]

def keyLine (number : Nat) (key : Key) : String :=
  "  <key id=\"d" ++ toString number ++ "\" for=\"" ++ key.owner ++ "\" attr.name=\"" ++
    key.name ++ "\" attr.type=\"" ++ key.type ++ "\" />\n"

/-- The declarations of the keys, the last number first. -/
def keyLines : String :=
  String.join ((List.zipWith keyLine (List.range keys.length) keys).reverse)

def dataLine (indent : String) (number : Nat) (value : String) : String :=
  if value == "" then indent ++ "<data key=\"d" ++ toString number ++ "\" />\n"
  else
    indent ++ "<data key=\"d" ++ toString number ++ "\">" ++ escape value ++ "</data>\n"

/-- Values for the keys from `first` on. -/
def dataLines (indent : String) (first : Nat) (values : List String) : String :=
  String.join
    (List.zipWith (dataLine indent) ((List.range values.length).map (first + ·)) values)

/-- The values of a node's attributes. -/
def nodeValues (attributes : NodeAttributes) : List String := [
  attributes.methodName, attributes.className, attributes.filePath,
  toString attributes.lineNumber, attributes.parameters, attributes.returnType,
  if attributes.isExternal then "True" else "False"]

def nodeText (node : GraphNode) : String :=
  "    <node id=\"" ++ node.identifier ++ "\">\n" ++
    dataLines "      " 3 ((node.attributes.map nodeValues).getD []) ++
    "    </node>\n"

def edgeLine (edge : String × String) : String :=
  "    <edge source=\"" ++ edge.1 ++ "\" target=\"" ++ edge.2 ++ "\" />\n"

/-- The GraphML text of a chain's call graph. -/
def ofChain (chain : Chain) : String :=
  let graph := Graph.ofChain chain
  "<?xml version='1.0' encoding='utf-8'?>\n" ++
    "<graphml xmlns=\"http://graphml.graphdrawing.org/xmlns\" " ++
    "xmlns:xsi=\"http://www.w3.org/2001/XMLSchema-instance\" " ++
    "xsi:schemaLocation=\"http://graphml.graphdrawing.org/xmlns " ++
    "http://graphml.graphdrawing.org/xmlns/1.0/graphml.xsd\">\n" ++
    keyLines ++
    "  <graph edgedefault=\"directed\">\n" ++
    String.join (graph.nodes.map nodeText) ++
    String.join (graph.orderedEdges.map edgeLine) ++
    dataLines "    " 0 [chain.direction.name, toString chain.depth, toString chain.total] ++
    "  </graph>\n</graphml>\n"

end GraphML
end CallTree
