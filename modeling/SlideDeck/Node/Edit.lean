import SlideDeck.Node.Basic

/-!
Building and changing nodes. An operation that a node has no room for leaves it as it is.
-/
namespace SlideDeck.Node

def append (node : Node) (nodes : List Node) : Node :=
  match node.children? with
  | some cs => node.withChildren (cs ++ nodes)
  | none => node

def push (node child : Node) : Node := node.append [child]

def pushText (node : Node) (value : String) : Node := node.push (text value)

def clear (node : Node) : Node := node.withChildren []

def setProp (name : String) (value : Json.Value) : Node → Node
  | element tag props cs => element tag (props.set name value) cs
  | component n props cs => component n (props.set name value) cs
  | node => node

/-- Appends to the text of a text, an expression, module statements or a doctype. -/
def extend (suffix : String) : Node → Node
  | text v => text (v ++ suffix)
  | expression v cs => expression (v ++ suffix) cs
  | esm v decls => esm (v ++ suffix) decls
  | doctype n => doctype (n ++ suffix)
  | node => node

end SlideDeck.Node
