import CallTree.Text.Json
import CallTree.Tree

/-!
# Chains as JSON
-/

namespace CallTree

/-- The members of an occurrence, its children apart. -/
def Occurrence.members (occurrence : Occurrence) : List (String × JsonValue) := [
  ("id", .string occurrence.identifier),
  ("methodName", .string occurrence.method),
  ("className", .string occurrence.className),
  ("filePath", .string occurrence.file),
  ("lineNumber", .integer occurrence.line),
  ("parameters", .array (occurrence.parameters.map .string)),
  ("returnType", (occurrence.returnType.map JsonValue.string).getD .null),
  ("isExternal", .boolean occurrence.external)]

mutual

def Tree.toJson : Tree → JsonValue
  | .node occurrence children =>
      .object (occurrence.members ++ [("children", .array (Tree.toJsonItems children))])

def Tree.toJsonItems : List Tree → List JsonValue
  | [] => []
  | tree :: trees => tree.toJson :: Tree.toJsonItems trees

end

def Chain.toJson (chain : Chain) : JsonValue :=
  .object [
    ("direction", .string chain.direction.name),
    ("depth", .integer chain.depth),
    ("totalMethods", .integer chain.total),
    ("root", chain.root.toJson)]

/-- The JSON text of a chain. -/
def Report.json (layout : JsonValue.Layout) (chain : Chain) : String :=
  chain.toJson.render layout 0

end CallTree
