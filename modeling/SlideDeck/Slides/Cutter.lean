import SlideDeck.Slides.Plan
import SlideDeck.Slides.SkipComment
import SlideDeck.Walk.Basic

/-!
The visitor that cuts a document into slides. Every open node has a slot for a plan, which is made
at the first child that calls for one. A marker ends the slide before it and is dropped. A node that
was cut stands unwrapped among its siblings, between the slides around it. Directives switch the
mode and are taken out of the document.
-/
namespace SlideDeck

/-- How a document is cut: the name of the markers, the tag and properties of the slides, and the
comments that carry directives. -/
structure Cutter where
  marker : String
  wrapper : String
  props : Props
  skip : SkipComment

/-- The state of a cutter: the mode, a slot for each open node with the innermost first, the number
of slides built, and whether the whole document is kept out of slides. -/
structure Progress where
  mode : SkipMode := .stopped
  slots : List (Option Plan) := []
  slides : Nat := 0
  rootExcluded : Bool := false

namespace Progress

/-- Opens a node. -/
def opened (p : Progress) : Progress := { p with slots := none :: p.slots }

/-- Closes the innermost node: its plan, if it has one, and the state without its slot. -/
def closed (p : Progress) : Option Plan × Progress :=
  (p.slots.head?.join, { p with slots := p.slots.drop 1 })

/-- Changes the plan of the innermost open node, an empty one when it has none yet. -/
def plan (change : Plan → Plan) (p : Progress) : Progress :=
  match p.slots with
  | [] => p
  | slot :: rest => { p with slots := some (change (slot.getD {})) :: rest }

/-- Takes back the plan of the innermost open node. -/
def discard (p : Progress) : Progress :=
  match p.slots with
  | [] => p
  | _ :: rest => { p with slots := none :: rest }

end Progress

namespace Cutter

def wrap (c : Cutter) (nodes : List Node) : Node := .element c.wrapper c.props nodes

def isMarker (c : Cutter) (node : Node) : Bool := node.hasName c.marker

/-- The directive in the comments of an expression. -/
def directive? (c : Cutter) (node : Node) : Option Directive := c.skip.find? node.comments

/-- The directive that fires at a node, with the mode it leads to. -/
def fires? (c : Cutter) (mode : SkipMode) (node : Node) : Option (Directive × SkipMode) :=
  (c.directive? node).bind fun d => (mode.transition d).map (d, ·)

/-- Plans for the children before a marker and goes on behind it. -/
def cutAt (site : Site) (p : Progress) : Progress :=
  match site.place? with
  | none => p
  | some place =>
    p.plan fun plan =>
      (plan.flush (place.around site.node) place.index).resumeAt (place.index + 1)

def follow (d : Directive) (mode : SkipMode) (p : Progress) : Progress :=
  let p := { p with mode := mode }
  if d.discardsParent then p.discard else p

/-- Plans for a child that was cut: the slide before it, and the child itself. A marker that comes
next, blanks apart, is passed over, so that no slide is begun before it. -/
def planCut (c : Cutter) (node : Node) (place : Place) (plan : Plan) : Plan :=
  let plan := plan.flush (place.around node) place.index
  let blanks := (place.after.takeWhile Node.isWhitespace).length
  if place.after[blanks]?.any c.isMarker then
    (plan.keep (List.range' place.index (blanks + 1))).resumeAt (place.index + blanks + 2)
  else (plan.keep [place.index]).resumeAt (place.index + 1)

/-- Reports a node that was cut to the plan of its parent. -/
def reportCut (c : Cutter) (site : Site) (p : Progress) : Progress :=
  match site.place? with
  | none => p
  | some place => p.plan (c.planCut site.node place)

/-- Carries out the plan of a node that is left. -/
def finish (c : Cutter) (plan : Plan) (site : Site) (p : Progress) : Node × Progress :=
  match site.node.children? with
  | none => (site.node, p)
  | some children =>
    let (built, slides) := (plan.flush children children.length).build c.wrap children
    let node := site.node.withChildren built
    (node, c.reportCut { site with node := node } { p with slides := p.slides + slides })

/-- Plans for a child that is kept out of slides. One that is named as markers are was dropped when
it was entered, and is kept after all. -/
def planOuter (c : Cutter) (node : Node) (index : Nat) (plan : Plan) : Plan :=
  let plan := plan.exclude index
  if c.isMarker node && index < plan.cursor then plan.keep [index] else plan

/-- Ends the mode of a directive for the enclosing node, when that node is left. -/
def endSkip (c : Cutter) (site : Site) (p : Progress) : Progress :=
  match p.mode with
  | .inner => { p with mode := .stopped }
  | .outer =>
    let p := { p with mode := .stopped }
    match site.place? with
    | none => { p with rootExcluded := true }
    | some place => p.plan (c.planOuter site.node place.index)
  | _ => p

def enter (c : Cutter) (p : Progress) (site : Site) : Reply Progress :=
  if p.mode.suppressesDescent then ⟨p, site.node, false, true⟩
  else if p.mode.splits && site.hasParent && c.isMarker site.node then
    ⟨(cutAt site p).opened, site.node, false, false⟩
  else
    match c.fires? p.mode site.node with
    | some (d, mode) => ⟨follow d mode p, site.node, true, false⟩
    | none => ⟨p.opened, site.node, false, false⟩

def leave (c : Cutter) (p : Progress) (site : Site) : Reply Progress :=
  let (plan?, p) := p.closed
  let (node, p) :=
    match plan? with
    | some plan => c.finish plan site p
    | none => (site.node, p)
  ⟨c.endSkip { site with node := node } p, node, false, false⟩

def visitor (c : Cutter) : Visitor Progress := ⟨c.enter, c.leave⟩

@[simp] theorem enter_node (c : Cutter) (p : Progress) (site : Site) :
    (c.enter p site).node = site.node := by
  unfold enter
  split
  · rfl
  · split
    · rfl
    · split <;> rfl

theorem visitor_nonGrowing (c : Cutter) : c.visitor.NonGrowing := fun p site => by
  simp [visitor]

end Cutter
end SlideDeck
