import CallTree.Path
import CallTree.Report.Markup
import CallTree.Tree

/-!
# Outlines

An outline shows a chain as a tree of labels in console markup.
-/

namespace CallTree

inductive Outline where
  | node (label : String) (children : List Outline)
  deriving Repr, Inhabited

namespace Outline

/-- The label of a node: its method, its place, and a mark if it lies outside
the expanded part. -/
def label (directory : Path) (root : String) (occurrence : Occurrence) : String :=
  let place :=
    if occurrence.file == Occurrence.nowhere then
      "[dim]" ++ Occurrence.nowhere ++ ", line " ++ toString occurrence.line ++ "[/dim]"
    else
      "[cyan]" ++ Markup.escape (Path.display directory root occurrence.file) ++ ":" ++
        toString occurrence.line ++ "[/cyan]"
  "[bold]" ++ Markup.escape occurrence.className ++ "." ++ Markup.escape occurrence.method ++
    "[/bold]  " ++ place ++ (if occurrence.isOutside then " [yellow](external)[/yellow]" else "")

mutual

def ofTree (directory : Path) (root : String) : Tree → Outline
  | .node occurrence children =>
      .node (label directory root occurrence) (ofTrees directory root children)

def ofTrees (directory : Path) (root : String) : List Tree → List Outline
  | [] => []
  | tree :: trees => ofTree directory root tree :: ofTrees directory root trees

end

/-- The measures of a chain behind the label of its root. -/
def caption (chain : Chain) : String :=
  "  [dim](" ++ chain.direction.relation ++ ", depth " ++ toString chain.depth ++ ", " ++
    toString chain.total ++ " methods)[/dim]"

/-- The outline of a chain, with paths shown relative to the project's root. -/
def ofChain (directory : Path) (root : String) (chain : Chain) : Outline :=
  match ofTree directory root chain.root with
  | .node label children => .node (label ++ caption chain) children

mutual

/-- The printed lines of an outline, where `lead` stands before its label and
`indent` before the lines below it. -/
def printLines? (lead indent : String) : Outline → Option (List String)
  | .node label children => do
      let printed ← Markup.print? label
      let below ← printBelow? indent children
      pure ((lead ++ printed) :: below)

/-- The printed lines of outlines under one node, the last of which closes the
line down. -/
def printBelow? (indent : String) : List Outline → Option (List String)
  | [] => some []
  | [outline] => printLines? (indent ++ "└── ") (indent ++ "    ") outline
  | outline :: outlines => do
      let first ← printLines? (indent ++ "├── ") (indent ++ "│   ") outline
      let others ← printBelow? indent outlines
      pure (first ++ others)

end

/-- The printed text of an outline. -/
def print? (outline : Outline) : Option String :=
  (printLines? "" "" outline).map fun lines => String.join (lines.map (· ++ "\n"))

end Outline
end CallTree
