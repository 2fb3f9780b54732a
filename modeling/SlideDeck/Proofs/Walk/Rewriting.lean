import SlideDeck.Proofs.Walk.Calls

/-!
Visitors that only look at the node. What such a visitor makes of a tree is given here by recursion
on the tree, with no mention of indices or siblings, and a walk comes to the same.
-/
namespace SlideDeck

/-- What is done to a node before its children and again behind them, decided by the node alone.
The first never puts a larger tree in its place. -/
structure Rewriting where
  enter : Node → Reply Unit
  leave : Node → Reply Unit
  nodeCount_le : ∀ node, (enter node).node.nodeCount ≤ node.nodeCount

namespace Rewriting

def visitor (r : Rewriting) : Visitor Unit where
  enter _ site := r.enter site.node
  leave _ site := r.leave site.node

theorem visitor_nonGrowing (r : Rewriting) : r.visitor.NonGrowing := fun _ site => by
  have h := r.nodeCount_le site.node
  rwa [Node.nodeCount_eq, Node.nodeCount_eq] at h

theorem size_lt (r : Rewriting) {node child : Node}
    (h : child ∈ (r.enter node).node.children?.getD []) : child.size < node.size :=
  Nat.lt_of_lt_of_le (Node.size_lt_of_mem h) (r.visitor_nonGrowing () (.top node))

/-- What becomes of a tree: nothing when it is removed at once; what was put in its place when it
is skipped; otherwise that with its children rewritten, and then the answer at the end. -/
def result? (r : Rewriting) (node : Node) : Option Node :=
  let entered := r.enter node
  if entered.removed then none
  else if entered.skipped then some entered.node
  else
    let children := (entered.node.children?.getD []).attach.filterMap fun child =>
      r.result? child.1
    let left := r.leave (entered.node.withChildren children)
    if left.removed then none else some left.node
termination_by node.size
decreasing_by exact r.size_lt child.2

/-- The nodes at which the rewriting is asked on the way down, in order: the node, and unless it is
removed or skipped, those below what was put in its place, each child in turn. -/
def entered (r : Rewriting) (node : Node) : List Node :=
  node ::
    if (r.enter node).removed || (r.enter node).skipped then []
    else ((r.enter node).node.children?.getD []).attach.flatMap fun child => r.entered child.1
termination_by node.size
decreasing_by exact r.size_lt child.2

theorem result?_eq (r : Rewriting) (node : Node) :
    r.result? node =
      if (r.enter node).removed then none
      else if (r.enter node).skipped then some (r.enter node).node
      else
        let left := r.leave ((r.enter node).node.withChildren
          (((r.enter node).node.children?.getD []).filterMap r.result?))
        if left.removed then none else some left.node := by
  rw [result?]
  simp only [List.filterMap_subtype, List.unattach_attach]

theorem entered_eq (r : Rewriting) (node : Node) :
    r.entered node =
      node ::
        if (r.enter node).removed || (r.enter node).skipped then []
        else ((r.enter node).node.children?.getD []).flatMap r.entered := by
  rw [entered]
  simp only [List.flatMap_subtype, List.unattach_attach]

/-- A walk with a rewriting leaves the results for the siblings that it came to, and enters each of
them in turn. -/
theorem calls_visitor (r : Rewriting) {s t : Unit} {depth : Nat} {before nodes left : List Node}
    {es : List (Event Unit)} (h : Walk.Calls r.visitor s depth before nodes es t left) :
    left = before ++ nodes.filterMap r.result? ∧
      (es.filter Event.enters).map (·.site.node) = nodes.flatMap r.entered := by
  induction h with
  | none => simp
  | @passed s depth before n rest e es t left enter opens further ih =>
    obtain ⟨hphase, hsite, hreply : e.reply = r.enter n⟩ := Visitor.eq_of_entering enter
    have hnode : e.site.node = n := congrArg Site.node hsite
    have henters : e.enters = true := by simp [Event.enters, hphase]
    have hpassed : (r.enter n).removed = true ∨ (r.enter n).skipped = true := by
      rw [Event.opens, henters, hreply] at opens
      revert opens
      cases (r.enter n).removed <;> cases (r.enter n).skipped <;> simp
    have hresult : r.result? n = e.kept? := by
      rw [result?_eq, Event.kept?, hreply]
      rcases hpassed with hr | hs
      · rw [if_pos hr, if_pos hr]
      · rw [if_pos hs]
    have hentered : r.entered n = [n] := by
      rw [entered_eq, if_pos (by simpa using hpassed)]
    constructor
    · rw [ih.1, List.filterMap_cons, hresult]
      cases e.kept? <;> simp
    · rw [List.filter_cons_of_pos henters, List.map_cons, hnode, ih.2, List.flatMap_cons, hentered]
      rfl
  | @visited s depth before n rest e inner u children l es t left enter opens inside leave further
      ihInside ih =>
    obtain ⟨hphase, hsite, hreply : e.reply = r.enter n⟩ := Visitor.eq_of_entering enter
    have hnode : e.site.node = n := congrArg Site.node hsite
    have henters : e.enters = true := by simp [Event.enters, hphase]
    have hleaves : l.enters = false := by
      simp [Event.enters, (Visitor.eq_of_leaving leave).1]
    obtain ⟨hr, hs⟩ : (r.enter n).removed = false ∧ (r.enter n).skipped = false := by
      rw [← hreply]
      simpa [Event.opens, henters] using opens
    have hchildren : e.children = (r.enter n).node.children?.getD [] := by
      rw [Event.children, hreply]
    rw [hchildren, List.nil_append] at ihInside
    have hresult : r.result? n = l.kept? := by
      rw [result?_eq, hr, hs, ← ihInside.1, leave, hreply]
      rfl
    have hentered : r.entered n = n :: (inner.filter Event.enters).map (·.site.node) := by
      rw [entered_eq, ihInside.2, hr, hs]
      rfl
    constructor
    · rw [ih.1, List.filterMap_cons, hresult]
      cases l.kept? <;> simp
    · rw [List.filter_cons_of_pos henters, List.filter_append,
        List.filter_cons_of_neg (by simp [hleaves]), List.map_cons, List.map_append, hnode, ih.2,
        List.flatMap_cons, hentered]
      rfl

/-- The walk with a rewriting comes to what the recursion says, with an empty root when nothing is
left, and it asks about the nodes in the order of the recursion: no sibling is passed over and none
is entered twice, whichever of them are removed. -/
theorem toEnd_visitor (r : Rewriting) (tree : Node) :
    (Walk.toEnd r.visitor r.visitor_nonGrowing () tree).2 = (r.result? tree).getD (.root []) ∧
      ((Walk.calls r.visitor r.visitor_nonGrowing () tree).filter Event.enters).map (·.site.node) =
        r.entered tree := by
  obtain ⟨kept?, hcalls, hleft⟩ := Walk.calls_of_toEnd r.visitor_nonGrowing () tree
  obtain ⟨hresult, hentered⟩ := r.calls_visitor hcalls
  constructor
  · have hkept : kept? = r.result? tree := by
      cases kept? <;> cases hr : r.result? tree <;> simp_all
    rw [hleft, hkept]
  · simpa using hentered

/-- Removes raw nodes although it skips them too, goes past comments, and on the way back removes
the text `x` and puts every other text into a paragraph. -/
def pruning : Rewriting where
  enter node :=
    match node with
    | .raw _ => ⟨(), node, true, true⟩
    | .comment _ => ⟨(), node, false, true⟩
    | _ => ⟨(), node, false, false⟩
  leave node :=
    match node with
    | .text v => ⟨(), .element "p" {} [.text v], v == "x", false⟩
    | _ => ⟨(), node, false, false⟩
  nodeCount_le node := by cases node <;> exact Nat.le_refl _

theorem toEnd_visitor_pruning :
    let tree : Node := .root [.raw "a", .text "x", .text "b", .comment "c", .raw "d"]
    (Walk.toEnd pruning.visitor pruning.visitor_nonGrowing () tree).2 =
        .root [.element "p" {} [.text "b"], .comment "c"] ∧
      ((Walk.calls pruning.visitor pruning.visitor_nonGrowing () tree).filter
        Event.enters).map (·.site.node) =
          [tree, .raw "a", .text "x", .text "b", .comment "c", .raw "d"] := by
  intro tree
  have hresult : pruning.result? tree =
      some (.root [.element "p" {} [.text "b"], .comment "c"]) := by cbv
  have hentered : pruning.entered tree =
      [tree, .raw "a", .text "x", .text "b", .comment "c", .raw "d"] := by cbv
  obtain ⟨hleft, hcalls⟩ := pruning.toEnd_visitor tree
  rw [hresult] at hleft
  exact ⟨hleft, hcalls.trans hentered⟩

end Rewriting
end SlideDeck
