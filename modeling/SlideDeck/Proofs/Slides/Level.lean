import SlideDeck.Proofs.Slides.Piece
import SlideDeck.Slides.Document

/-!
Cutting by plain recursion. The children of an open node are gathered in pieces as they come, with
no indices, no slots for the nodes around it and no bound on the depth.
-/
namespace SlideDeck

/-- What the children of a node that is being cut have come to: the pieces that are settled, the
children behind them that are not, and the markers that were dropped. When `ahead` is set the next
marker is passed over already, and only blanks can come before it. -/
structure Assembly where
  settled : List Piece := []
  loose : List Loose := []
  ahead : Bool := false
  dropped : List Node := []

namespace Assembly

def ofLoose (nodes : List Node) : Assembly := { loose := nodes.map (·, false) }

def settle (a : Assembly) : Assembly :=
  { a with settled := a.settled ++ Piece.ofRun [] a.loose, loose := [] }

@[simp] theorem settle_loose (a : Assembly) : a.settle.loose = [] := rfl

@[simp] theorem settle_dropped (a : Assembly) : a.settle.dropped = a.dropped := rfl

def meetMarker (a : Assembly) : Assembly := { a.settle with ahead := true }

/-- Takes in a child that was cut; `ahead` tells whether a marker comes next. -/
def addCut (node : Node) (ahead : Bool) (a : Assembly) : Assembly :=
  { a.settle with settled := a.settle.settled ++ [.bare node], ahead := ahead }

/-- Takes in a child that was not cut. A marker that was passed over is dropped. -/
def add (node : Node) (a : Assembly) : Assembly :=
  if a.ahead then
    if node.isWhitespace then { a with settled := a.settled ++ [.bare node] }
    else { a with ahead := false, dropped := a.dropped ++ [node] }
  else { a with loose := a.loose ++ [(node, false)] }

/-- Takes in a child that is kept out of slides. A marker that was passed over is kept. -/
def addOuter (node : Node) (a : Assembly) : Assembly :=
  if a.ahead then { a with settled := a.settled ++ [.bare node], ahead := false }
  else { a with loose := a.loose ++ [(node, true)] }

theorem add_of_behind {a : Assembly} (h : a.ahead = false) (node : Node) :
    a.add node = { a with loose := a.loose ++ [(node, false)] } := by
  rw [add, h, if_neg Bool.false_ne_true]

theorem add_of_blank {a : Assembly} {node : Node} (h : a.ahead = true)
    (hn : node.isWhitespace = true) :
    a.add node = { a with settled := a.settled ++ [.bare node] } := by
  rw [add, h, if_pos rfl, if_pos hn]

def contents (a : Assembly) : List Node := Piece.contents a.settled ++ a.loose.map Prod.fst

end Assembly

/-- The state of the walk among the children of an open node: the mode, the number of slides built
so far, all markers dropped so far, the children behind the walk, and what they have come to if
the node is being cut. -/
structure Level where
  mode : SkipMode := .stopped
  slides : Nat := 0
  dropped : List Node := []
  done : List Node := []
  assembly? : Option Assembly := none

namespace Level

/-- The level of the children of a node that is entered. -/
def inside (l : Level) : Level := { l with done := [], assembly? := none }

/-- The assembly of the level, made from the children behind the walk if there is none. -/
def assembly (l : Level) : Assembly := l.assembly?.getD (.ofLoose l.done)

def pieces (l : Level) : List Piece :=
  match l.assembly? with
  | none => l.done.map .bare
  | some a => a.settle.settled

/-- The markers that the level loses when it ends. -/
def losses (l : Level) : List Node := l.assembly?.elim [] Assembly.dropped

variable {l : Level} {a : Assembly}

theorem pieces_of_none (h : l.assembly? = none) : l.pieces = l.done.map .bare := by
  rw [pieces, h]

theorem pieces_of_some (h : l.assembly? = some a) : l.pieces = a.settle.settled := by
  rw [pieces, h]

theorem assembly_of_some (h : l.assembly? = some a) : l.assembly = a := by
  rw [assembly, h, Option.getD_some]

theorem assembly_congr {l' : Level} (h : l'.assembly? = l.assembly?) (hd : l'.done = l.done) :
    l'.assembly = l.assembly := by
  rw [assembly, assembly, h, hd]

theorem losses_eq (l : Level) : l.losses = l.assembly.dropped := by
  rw [losses, assembly]
  cases l.assembly? with
  | none => rfl
  | some a => rfl

/-- The mode behind a node whose level ended. -/
def modeAfter (l : Level) : SkipMode := if l.mode.suppressesDescent then .stopped else l.mode

theorem modeAfter_awake (l : Level) : l.modeAfter.suppressesDescent = false := by
  unfold modeAfter
  by_cases h : l.mode.suppressesDescent = true
  · rw [if_pos h]
    rfl
  · rw [if_neg h]
    simpa using h

/-- Goes on with the mode and the counts of the level below. -/
def after (l inner : Level) : Level :=
  { l with
    mode := inner.modeAfter
    slides := inner.slides + Piece.slideCount inner.pieces
    dropped := inner.dropped ++ inner.losses }

/-- Takes in a child, and makes an assembly or changes the one there is. -/
def put (change : Assembly → Assembly) (node : Node) (l : Level) : Level :=
  { l with done := l.done ++ [node], assembly? := some (change l.assembly) }

/-- Takes in a child, and changes the assembly if there is one. -/
def pass (node : Node) (l : Level) : Level :=
  { l with done := l.done ++ [node], assembly? := l.assembly?.map (·.add node) }

/-- Passing a child adds it to the assembly, also to one that is not made yet. -/
theorem assembly_pass (node : Node) (l : Level) : (l.pass node).assembly = l.assembly.add node := by
  unfold assembly pass
  cases l.assembly? with
  | none => simp [Assembly.add, Assembly.ofLoose]
  | some a => rfl

def meetMarker (l : Level) : Level := { l with assembly? := some l.assembly.meetMarker }

def follow (d : Directive) (mode : SkipMode) (l : Level) : Level :=
  { l with mode := mode, assembly? := if d.discardsParent then none else l.assembly? }

end Level

namespace Cutter

def markerNext (c : Cutter) (after : List Node) : Bool :=
  (after.dropWhile Node.isWhitespace).head?.any c.isMarker

/-- The new children at the end of a level. -/
def childrenOf (c : Cutter) (l : Level) : List Node := l.pieces.map (Piece.build c.wrap)

theorem childrenOf_of_none (c : Cutter) {l : Level} (h : l.assembly? = none) :
    c.childrenOf l = l.done := by
  rw [childrenOf, l.pieces_of_none h, Piece.map_build_bare]

def ascend (c : Cutter) (node : Node) (after : List Node) (l inner : Level) : Level :=
  let node := node.withChildren (c.childrenOf inner)
  if inner.assembly?.isSome then (l.after inner).put (.addCut node (c.markerNext after)) node
  else if inner.mode = .outer then (l.after inner).put (.addOuter node) node
  else (l.after inner).pass node

section Ascend

variable (c : Cutter) (node : Node) (after : List Node) (l inner : Level)

@[simp] theorem ascend_mode : (c.ascend node after l inner).mode = inner.modeAfter := by
  unfold ascend
  split
  · rfl
  · split <;> rfl

@[simp] theorem ascend_slides : (c.ascend node after l inner).slides =
    inner.slides + Piece.slideCount inner.pieces := by
  unfold ascend
  split
  · rfl
  · split <;> rfl

@[simp] theorem ascend_dropped :
    (c.ascend node after l inner).dropped = inner.dropped ++ inner.losses := by
  unfold ascend
  split
  · rfl
  · split <;> rfl

@[simp] theorem ascend_done :
    (c.ascend node after l inner).done = l.done ++ [node.withChildren (c.childrenOf inner)] := by
  unfold ascend
  split
  · rfl
  · split <;> rfl

end Ascend

/-- Visits a child whose children are visited by `below`. -/
def around (c : Cutter) (node : Node) (after : List Node) (below : Level → Level) (l : Level) :
    Level :=
  if l.mode.suppressesDescent then l.pass node
  else if l.mode.splits && c.isMarker node then
    c.ascend node after l.meetMarker (below l.inside)
  else
    match c.fires? l.mode node with
    | some (d, mode) => l.follow d mode
    | none => c.ascend node after l (below l.inside)

mutual

/-- Visits a child with the children `after` behind it. -/
def level (c : Cutter) : Node → List Node → Level → Level
  | .root cs, after, l => c.around (.root cs) after (fun inner => levelAll c cs [] inner) l
  | .element t p cs, after, l =>
    c.around (.element t p cs) after (fun inner => levelAll c cs [] inner) l
  | .component n p cs, after, l =>
    c.around (.component n p cs) after (fun inner => levelAll c cs [] inner) l
  | .text v, after, l => c.around (.text v) after id l
  | .expression v cs, after, l => c.around (.expression v cs) after id l
  | .doctype n, after, l => c.around (.doctype n) after id l
  | .esm v ds, after, l => c.around (.esm v ds) after id l
  | .comment v, after, l => c.around (.comment v) after id l
  | .raw v, after, l => c.around (.raw v) after id l

/-- Visits children from left to right, with the children `beyond` behind them. -/
def levelAll (c : Cutter) : List Node → List Node → Level → Level
  | [], _, l => l
  | n :: rest, beyond, l => levelAll c rest beyond (level c n (rest ++ beyond) l)

end

theorem level_eq (c : Cutter) (node : Node) (after : List Node) (l : Level) :
    c.level node after l = c.around node after (c.levelAll (node.children?.getD []) []) l := by
  cases node <;> simp [level, levelAll, Node.children?] <;> rfl

@[simp] theorem levelAll_nil (c : Cutter) (beyond : List Node) (l : Level) :
    c.levelAll [] beyond l = l := by
  rw [levelAll]

theorem levelAll_cons (c : Cutter) (n : Node) (rest beyond : List Node) (l : Level) :
    c.levelAll (n :: rest) beyond l = c.levelAll rest beyond (c.level n (rest ++ beyond) l) := by
  rw [levelAll]

theorem levelAll_append (c : Cutter) (xs ys beyond : List Node) (l : Level) :
    c.levelAll (xs ++ ys) beyond l = c.levelAll ys beyond (c.levelAll xs (ys ++ beyond) l) := by
  induction xs generalizing l with
  | nil => simp
  | cons x xs ih => simp only [List.cons_append, levelAll_cons, List.append_assoc, ih]

def levelOf (c : Cutter) (tree : Node) : Level := c.levelAll (tree.children?.getD []) [] {}

end Cutter
end SlideDeck
