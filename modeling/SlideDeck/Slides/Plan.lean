import SlideDeck.Node.Basic

/-!
The plan for a node that is being cut: what its children will be, said in terms of the indices of
the children it has. A plan grows while the children are visited and is carried out when the last of
them has been.
-/
namespace SlideDeck

/-- One of the planned children. -/
inductive Entry where
  /-- A slide around the children from index `start` to before `stop`. -/
  | slide (start stop : Nat)
  /-- The child at an index, as it is. -/
  | keep (index : Nat)
  deriving DecidableEq, Repr

/-- A plan: the entries so far, the index from which on children are not planned for yet, and the
indices of children that begin and end no slide. -/
structure Plan where
  entries : List Entry := []
  cursor : Nat := 0
  excluded : List Nat := []
  deriving Repr

namespace Plan

/-- A child with its index. -/
abbrev Child := Node × Nat

/-- The slide around a run of neighbours, none when there are no children in it. -/
def slideAround : List Child → List Entry
  | [] => []
  | (n, start) :: rest => [.slide start (start + (((n, start) :: rest).length))]

/-- The entries for a segment without preamble: a slide from its first to its last child that is no
boundary, and the boundaries at its ends beside it. -/
def segmentEntries (boundary : Child → Bool) (segment : List Child) : List Entry :=
  let ahead := segment.takeWhile boundary
  let rest := (segment.dropWhile boundary).reverse
  let behind := (rest.takeWhile boundary).reverse
  let core := (rest.dropWhile boundary).reverse
  ahead.map (fun c => .keep c.2) ++ slideAround core ++ behind.map (fun c => .keep c.2)

/-- The entries for a run behind the children of an open segment. Preamble goes into no slide and
ends the segment before it. -/
def runEntries (boundary : Child → Bool) : List Child → List Child → List Entry
  | segment, [] => segmentEntries boundary segment
  | segment, c :: rest =>
    if c.1.isPreamble then
      segmentEntries boundary segment ++ .keep c.2 :: runEntries boundary [] rest
    else runEntries boundary (segment ++ [c]) rest

/-- A child that begins and ends no slide: a text of blanks, or one that was excluded. -/
def isBoundary (plan : Plan) (c : Child) : Bool := plan.excluded.contains c.2 || c.1.isWhitespace

/-- The children from the cursor to before `stop`. -/
def run (plan : Plan) (children : List Node) (stop : Nat) : List Child :=
  (children.zipIdx.take stop).drop plan.cursor

/-- Plans for the children from the cursor to before `stop`. -/
def flush (children : List Node) (stop : Nat) (plan : Plan) : Plan :=
  { plan with entries := plan.entries ++ runEntries plan.isBoundary [] (plan.run children stop) }

/-- Plans for children as they are. -/
def keep (indices : List Nat) (plan : Plan) : Plan :=
  { plan with entries := plan.entries ++ indices.map .keep }

def resumeAt (cursor : Nat) (plan : Plan) : Plan := { plan with cursor := cursor }

/-- Keeps a child out of the ends of all slides. -/
def exclude (index : Nat) (plan : Plan) : Plan :=
  { plan with excluded := index :: plan.excluded }

/-- Carries out entries on the children that are still there. The result is the new children and
the number of slides among them. -/
def carryOut (wrap : List Node → Node) : List Entry → List (Option Node) → List Node × Nat
  | [], _ => ([], 0)
  | .slide start stop :: rest, slots =>
    let inside := (slots.take stop).drop start
    let emptied := slots.take start ++ inside.map (fun _ => none) ++ slots.drop (max start stop)
    let (nodes, slides) := carryOut wrap rest emptied
    (wrap (inside.filterMap id) :: nodes, slides + 1)
  | .keep index :: rest, slots =>
    let (nodes, slides) := carryOut wrap rest (slots.set index none)
    ((slots[index]?.bind id).toList ++ nodes, slides)

/-- Carries out the plan on the children. -/
def build (wrap : List Node → Node) (children : List Node) (plan : Plan) : List Node × Nat :=
  carryOut wrap plan.entries (children.map some)

end Plan
end SlideDeck
