import SlideDeck.Node.Basic
import SlideDeck.Text.Quoted

/-!
The outline of a tree: one entry for each node in document order, indented by two spaces a level.
-/
namespace SlideDeck.Node

def summary : Node → String
  | root _ => "root"
  | element tag _ _ => "<" ++ tag ++ ">"
  | component name? _ _ => "<" ++ name?.getD "" ++ ">"
  | text value => Text.quoted value
  | expression value _ => "\x7b" ++ value ++ "\x7d"
  | doctype name => "<!doctype " ++ name ++ ">"
  | esm value _ => "esm " ++ Text.quoted value
  | comment value => "<!--" ++ value ++ "-->"
  | raw value => "raw " ++ Text.quoted value

def indent (depth : Nat) : String := String.ofList (List.replicate (2 * depth) ' ')

/-- The entry of a node at that depth. -/
def outlineEntry (depth : Nat) (node : Node) : String := indent depth ++ node.summary ++ "\n"

mutual

/-- The outline of a tree whose top stands at the given depth. -/
def outlineAt (depth : Nat) : Node → String
  | root cs => outlineEntry depth (root cs) ++ outlineAll (depth + 1) cs
  | element tag props cs =>
    outlineEntry depth (element tag props cs) ++ outlineAll (depth + 1) cs
  | component name? props cs =>
    outlineEntry depth (component name? props cs) ++ outlineAll (depth + 1) cs
  | text v => outlineEntry depth (text v)
  | expression v cs => outlineEntry depth (expression v cs)
  | doctype n => outlineEntry depth (doctype n)
  | esm v decls => outlineEntry depth (esm v decls)
  | comment v => outlineEntry depth (comment v)
  | raw v => outlineEntry depth (raw v)

/-- The outlines of several trees that stand at the given depth. -/
def outlineAll (depth : Nat) : List Node → String
  | [] => ""
  | n :: rest => outlineAt depth n ++ outlineAll depth rest

end

def outline (node : Node) : String := outlineAt 0 node

end SlideDeck.Node
