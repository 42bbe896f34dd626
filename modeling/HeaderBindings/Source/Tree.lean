/-
Module: HeaderBindings.Source.Tree
Purpose: Syntax trees of headers, and positions in them.
Main exports: Label, Tree, Cursor, Cursor.named, Cursor.walk, Cursor.preorder, Cursor.number,
  Cursor.pointerDepth
-/

namespace HeaderBindings

/-- What a syntax tree says of a node itself: its kind, the bytes it spans, and the field of its
parent that it fills, if any. -/
structure Label where
  kind : String
  start : Nat
  stop : Nat
  field : Option String
deriving Repr, DecidableEq, Inhabited

/-- A syntax tree of named nodes, comments among them. -/
inductive Tree where
  | node (label : Label) (children : List Tree)
deriving Repr, Inhabited

namespace Tree

/-- What the tree says of its root. -/
def label : Tree → Label
  | node label _ => label

/-- The trees below the root, comments among them. -/
def children : Tree → List Tree
  | node _ children => children

/-- The kind of the root. -/
def kind (tree : Tree) : String := tree.label.kind

/-- Whether the root is a comment. -/
def isComment (tree : Tree) : Bool := tree.kind == "comment"

/-- The trees below the root that are not comments. -/
def named (tree : Tree) : List Tree :=
  tree.children.filter fun child => !child.isComment

mutual

/-- The number of nodes. -/
def size : Tree → Nat
  | node _ children => sizes children + 1

/-- The number of nodes of some trees. -/
def sizes : List Tree → Nat
  | [] => 0
  | first :: rest => first.size + sizes rest

end

/-- The index of the first child that fills a field. -/
def fieldIndex? (tree : Tree) (field : String) : Option Nat :=
  tree.children.findIdx? fun child => child.label.field == some field

end Tree

/-- A step on the way to a node: the tree that holds it, and its index among the children. -/
structure Frame where
  parent : Tree
  index : Nat
deriving Repr

/-- A node of a tree: the tree below it, and the frames above it, nearest first. -/
structure Cursor where
  focus : Tree
  above : List Frame
deriving Repr

namespace Cursor

/-- The root of a tree. -/
def root (tree : Tree) : Cursor := ⟨tree, []⟩

/-- The kind of a node. -/
def kind (cursor : Cursor) : String := cursor.focus.kind

/-- The parent of a node. -/
def parent? (cursor : Cursor) : Option Cursor :=
  match cursor.above with
  | [] => none
  | frame :: above => some ⟨frame.parent, above⟩

/-- Cursors on sibling trees, the first of which has an index below a parent. -/
def onSiblings (parent : Cursor) : Nat → List Tree → List Cursor
  | _, [] => []
  | index, tree :: rest =>
      ⟨tree, ⟨parent.focus, index⟩ :: parent.above⟩ :: onSiblings parent (index + 1) rest

/-- The children of a node. -/
def children (cursor : Cursor) : List Cursor :=
  onSiblings cursor 0 cursor.focus.children

/-- The children of a node that are not comments. -/
def named (cursor : Cursor) : List Cursor :=
  cursor.children.filter fun child => !child.focus.isComment

/-! ### Listing nodes -/

mutual

/-- A tree below some frames and all trees below it, each before those below it. -/
def listing (above : List Frame) : Tree → List Cursor
  | .node label children =>
      ⟨.node label children, above⟩ :: listingOfSiblings (.node label children) above 0 children

/-- The listings of sibling trees, the first of which has an index below a parent. -/
def listingOfSiblings (parent : Tree) (above : List Frame) : Nat → List Tree → List Cursor
  | _, [] => []
  | index, tree :: rest =>
      listing (⟨parent, index⟩ :: above) tree ++ listingOfSiblings parent above (index + 1) rest

end

/-- A node and all nodes below it, each before those below it. -/
def preorder (cursor : Cursor) : List Cursor := listing cursor.above cursor.focus

/-- A stack with nodes put on it one after another. -/
def pushAll (nodes stack : List Cursor) : List Cursor :=
  nodes.foldl (fun stack node => node :: stack) stack

/-- The nodes that a number of steps takes off a stack. Each step takes the top one off, and puts
its children on that are not comments, the last of them first. -/
def visited : Nat → List Cursor → List Cursor
  | 0, _ => []
  | _ + 1, [] => []
  | steps + 1, cursor :: ahead => cursor :: visited steps (pushAll cursor.named.reverse ahead)

/-- A node and all nodes below it that are not comments nor below one, each before those below
it. No node is taken off the stack twice, so the number of nodes bounds the steps. -/
def walk (cursor : Cursor) : List Cursor := visited cursor.focus.size [cursor]

/-- The place in preorder, from the root of the tree, of the node below some frames. -/
def numberOf : List Frame → Nat
  | [] => 0
  | frame :: above =>
      numberOf above + 1 + Tree.sizes (frame.parent.children.take frame.index)

/-- The place of a node in the preorder of its tree. -/
def number (cursor : Cursor) : Nat := numberOf cursor.above

/-! ### Pointers -/

/-- The number of pointer declarators that directly follow one another upwards. -/
def pointerRun (above : List Frame) : Nat :=
  (above.takeWhile fun frame => frame.parent.kind == "pointer_declarator").length

/-- The pointers around the declarator below some frames. Function and array declarators are passed
as long as the way up leads from their declarator; from any other child of theirs there are no
pointers. -/
def pointersAbove : List Frame → Nat
  | [] => 0
  | frame :: above =>
      if frame.parent.kind == "function_declarator" || frame.parent.kind == "array_declarator" then
        if frame.parent.fieldIndex? "declarator" == some frame.index then pointersAbove above else 0
      else pointerRun (frame :: above)

/-- The number of pointer declarators that wrap a declarator's name. -/
def pointerDepth (cursor : Cursor) : Nat := pointersAbove cursor.above

end Cursor

end HeaderBindings
