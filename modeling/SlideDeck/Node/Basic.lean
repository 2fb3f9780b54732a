import SlideDeck.Props
import SlideDeck.Import
import SlideDeck.Text.Blank

/-!
Document trees. Roots, elements and components hold children; all other nodes are leaves. Elements
and components have a name besides, by which a document is cut into slides.
-/
namespace SlideDeck

/-- A node of a document tree. -/
inductive Node where
  /-- The document itself, a sequence of nodes. -/
  | root (children : List Node)
  /-- A plain element. -/
  | element (tag : String) (props : Props) (children : List Node)
  /-- A reference to a component; a fragment when it has no name. -/
  | component (name? : Option String) (props : Props) (children : List Node)
  | text (value : String)
  /-- Embedded code with the texts of the comments in it. -/
  | expression (value : String) (comments : List String)
  | doctype (name : String)
  /-- Module statements with the imports among them. -/
  | esm (value : String) (imports : List Import)
  | comment (value : String)
  /-- Markup that is passed through as it stands. -/
  | raw (value : String)
  deriving Repr, Inhabited

inductive Kind where
  | root | element | component | text | expression | doctype | esm | comment | raw
  deriving DecidableEq, Repr

def Kind.name : Kind → String
  | .root => "root"
  | .element => "element"
  | .component => "component"
  | .text => "text"
  | .expression => "expression"
  | .doctype => "doctype"
  | .esm => "esm"
  | .comment => "comment"
  | .raw => "raw"

namespace Node

def kind : Node → Kind
  | root _ => .root
  | element .. => .element
  | component .. => .component
  | text _ => .text
  | expression .. => .expression
  | doctype _ => .doctype
  | esm .. => .esm
  | comment _ => .comment
  | raw _ => .raw

/-- The name of an element or component; a fragment has the empty name. -/
def name? : Node → Option String
  | element tag _ _ => some tag
  | component name? _ _ => some (name?.getD "")
  | _ => none

/-- The node is an element or component of that name. -/
def hasName (name : String) (node : Node) : Bool := node.name? == some name

/-- The children of a node that can hold some. -/
def children? : Node → Option (List Node)
  | root cs => some cs
  | element _ _ cs => some cs
  | component _ _ cs => some cs
  | _ => none

/-- The node with other children; a leaf stays as it is. -/
def withChildren (children : List Node) : Node → Node
  | root _ => root children
  | element tag props _ => element tag props children
  | component name? props _ => component name? props children
  | leaf => leaf

/-- The node can hold children. -/
def isContainer (node : Node) : Bool := node.children?.isSome

/-- A text of blanks only, such as the line breaks between blocks. -/
def isWhitespace : Node → Bool
  | text value => Text.allBlank value
  | _ => false

/-- A doctype or module statements: nodes that never go into a slide. -/
def isPreamble : Node → Bool
  | doctype _ => true
  | esm .. => true
  | _ => false

def comments : Node → List String
  | expression _ cs => cs
  | _ => []

def imports : Node → List Import
  | esm _ decls => decls
  | _ => []

/-- An expression that holds nothing but one comment. -/
def note (comment : String) : Node := expression ("/*" ++ comment ++ "*/") [comment]

/-- Module statements made of one import declaration. -/
def importing (decl : Import) : Node := esm decl.statement [decl]

mutual

def size : Node → Nat
  | root cs => 1 + sizeAll cs
  | element _ _ cs => 1 + sizeAll cs
  | component _ _ cs => 1 + sizeAll cs
  | _ => 1

def sizeAll : List Node → Nat
  | [] => 0
  | n :: rest => size n + sizeAll rest

end

theorem size_eq (node : Node) : node.size = 1 + sizeAll (node.children?.getD []) := by
  cases node <;> simp [size, children?, sizeAll]

theorem size_pos (node : Node) : 0 < node.size := by
  rw [size_eq]
  omega

theorem sizeAll_append (as bs : List Node) : sizeAll (as ++ bs) = sizeAll as + sizeAll bs := by
  induction as with
  | nil => simp [sizeAll]
  | cons a as ih => simp only [List.cons_append, sizeAll, ih]; omega

@[simp] theorem children?_withChildren (node : Node) (children : List Node) :
    (node.withChildren children).children? = node.children?.map fun _ => children := by
  cases node <;> rfl

@[simp] theorem withChildren_withChildren (node : Node) (as bs : List Node) :
    (node.withChildren as).withChildren bs = node.withChildren bs := by
  cases node <;> rfl

theorem withChildren_self {node : Node} {children : List Node}
    (h : node.children? = some children) : node.withChildren children = node := by
  cases node <;> simp_all [children?, withChildren]

@[simp] theorem name?_withChildren (node : Node) (children : List Node) :
    (node.withChildren children).name? = node.name? := by
  cases node <;> rfl

end Node
end SlideDeck
