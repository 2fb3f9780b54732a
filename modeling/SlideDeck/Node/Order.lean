import SlideDeck.Node.Basic

/-!
The nodes of a tree in document order: every node before its children, and these from left to
right. The order is given twice, by recursion and as an enumeration that hands out one node after
another from a stack; searching and counting use the enumeration.
-/
namespace SlideDeck

mutual

/-- The nodes of a tree in document order. -/
def Node.preorder : Node → List Node
  | .root cs => .root cs :: Node.preorderAll cs
  | .element tag props cs => .element tag props cs :: Node.preorderAll cs
  | .component name? props cs => .component name? props cs :: Node.preorderAll cs
  | .text v => [.text v]
  | .expression v cs => [.expression v cs]
  | .doctype n => [.doctype n]
  | .esm v decls => [.esm v decls]
  | .comment v => [.comment v]
  | .raw v => [.raw v]

/-- The nodes of several trees in document order. -/
def Node.preorderAll : List Node → List Node
  | [] => []
  | n :: rest => Node.preorder n ++ Node.preorderAll rest

end

/-- An enumeration of nodes: the trees still to be handed out, the next one first. -/
structure Descendants where
  pending : List Node

namespace Descendants

def next? (d : Descendants) : Option (Node × Descendants) :=
  match d.pending with
  | [] => none
  | n :: rest => some (n, ⟨n.children?.getD [] ++ rest⟩)

/-- The number of nodes still to come. -/
def remaining (d : Descendants) : Nat := Node.sizeAll d.pending

theorem remaining_of_next? {d e : Descendants} {n : Node} (h : d.next? = some (n, e)) :
    e.remaining < d.remaining := by
  unfold next? at h
  split at h
  · simp at h
  · next m rest hp =>
    simp only [Option.some.injEq, Prod.mk.injEq] at h
    rw [← h.2, remaining, remaining, hp, Node.sizeAll_append, Node.sizeAll, Node.size_eq]
    omega

def toList (d : Descendants) : List Node :=
  match h : d.next? with
  | none => []
  | some (n, e) =>
    have := remaining_of_next? h
    n :: toList e
termination_by d.remaining

def find? (fits : Node → Bool) (d : Descendants) : Option Node :=
  match h : d.next? with
  | none => none
  | some (n, e) =>
    have := remaining_of_next? h
    if fits n then some n else find? fits e
termination_by d.remaining

end Descendants

namespace Node

/-- The enumeration of the node and everything below it. -/
def descendants (node : Node) : Descendants := ⟨[node]⟩

def nodeCount (node : Node) : Nat := node.descendants.toList.length

def find? (fits : Node → Bool) (node : Node) : Option Node := node.descendants.find? fits

def isElementNamed (name : String) : Node → Bool
  | element tag _ _ => tag == name
  | _ => false

def elementsNamed (name : String) (node : Node) : List Node :=
  node.descendants.toList.filter (isElementNamed name)

end Node
end SlideDeck
