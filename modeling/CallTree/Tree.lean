import CallTree.Digest
import CallTree.Direction
import CallTree.Method
import CallTree.Text.Quoted

/-!
# Call trees

A call tree has a method at every node.  The same method may occur at several
nodes; nodes that are not expanded are external.
-/

namespace CallTree

/-- A method at a node of a call tree. -/
structure Occurrence where
  method : String
  className : String
  file : String
  line : Int
  parameters : List String := []
  returnType : Option String := none
  external : Bool := false
  deriving DecidableEq, Repr, Inhabited

namespace Occurrence

/-- The file of methods that are defined nowhere in a project. -/
def nowhere : String := "External"

/-- The class of methods whose class is not known. -/
def unknownClass : String := "Unknown"

/-- The text that identifies a method at its place. -/
def identity (occurrence : Occurrence) : String :=
  occurrence.file ++ ":" ++ occurrence.className ++ "." ++ occurrence.method ++ ":" ++
    toString occurrence.line

/-- The identifier of a method at its place: a digest in sixteen hexadecimal
digits. -/
def identifier (occurrence : Occurrence) : String :=
  String.ofList
    (Text.hexDigits 16 (Digest.hash occurrence.identity.toUTF8.toList).toNat)

def qualifiedName (occurrence : Occurrence) : String :=
  if occurrence.className == "" then occurrence.method
  else occurrence.className ++ "." ++ occurrence.method

/-- The occurrence of a method that a project declares. -/
def ofMethod (method : Method) (external : Bool) : Occurrence where
  method := method.name
  className :=
    match method.className with
    | some className => if className == "" then unknownClass else className
    | none => unknownClass
  file := method.file
  line := method.line
  parameters := method.parameters
  returnType := method.returnType
  external

/-- The node stands for a method outside the expanded part of the project. -/
def isOutside (occurrence : Occurrence) : Bool :=
  occurrence.external || occurrence.file == nowhere

end Occurrence

/-- A tree of method occurrences. -/
inductive Tree where
  | node (occurrence : Occurrence) (children : List Tree)
  deriving Repr, Inhabited

namespace Tree

def occurrence : Tree → Occurrence
  | node occurrence _ => occurrence

def children : Tree → List Tree
  | node _ children => children

/-- A node without children. -/
def leaf (occurrence : Occurrence) : Tree :=
  node occurrence []

mutual

/-- The number of nodes on the longest way down. -/
def depth : Tree → Nat
  | node _ children => 1 + depthBelow children

/-- The depth of the deepest tree. -/
def depthBelow : List Tree → Nat
  | [] => 0
  | tree :: trees => max tree.depth (depthBelow trees)

end

mutual

/-- The number of nodes. -/
def size : Tree → Nat
  | node _ children => 1 + sizeBelow children

def sizeBelow : List Tree → Nat
  | [] => 0
  | tree :: trees => tree.size + sizeBelow trees

end

mutual

/-- The nodes in preorder. -/
def preorder : Tree → List Occurrence
  | node occurrence children => occurrence :: preorderBelow children

def preorderBelow : List Tree → List Occurrence
  | [] => []
  | tree :: trees => tree.preorder ++ preorderBelow trees

end

@[simp]
theorem sizeBelow_append (first second : List Tree) :
    sizeBelow (first ++ second) = sizeBelow first + sizeBelow second := by
  induction first with
  | nil => simp [sizeBelow]
  | cons tree trees ih =>
      simp only [List.cons_append, sizeBelow, ih]
      omega

@[simp]
theorem sizeBelow_reverse (trees : List Tree) : sizeBelow trees.reverse = sizeBelow trees := by
  induction trees with
  | nil => simp
  | cons tree trees ih =>
      simp only [List.reverse_cons, sizeBelow_append, sizeBelow, ih]
      omega

/-- Visit the nodes of the waiting trees: the first one, then its children, then
the others. -/
def visit : List Tree → List Occurrence
  | [] => []
  | node occurrence children :: waiting => occurrence :: visit (children ++ waiting)
termination_by waiting => sizeBelow waiting
decreasing_by
  simp only [sizeBelow_append, sizeBelow, size]
  omega

/-- The nodes in the order in which a walk visits them. -/
def nodes (tree : Tree) : List Occurrence :=
  visit [tree]

/-- The number of nodes that were not expanded. -/
def externalCount (tree : Tree) : Nat :=
  tree.nodes.countP Occurrence.external

end Tree

/-- A finished call tree with its direction and its measures. -/
structure Chain where
  root : Tree
  depth : Int
  total : Int
  direction : Direction := .up
  deriving Repr, Inhabited

/-- The chain of a tree, with its measures taken. -/
def Chain.ofTree (direction : Direction) (root : Tree) : Chain where
  root
  depth := root.depth
  total := root.size
  direction

end CallTree
