import SlideDeck.Proofs.Walk.Calls
import SlideDeck.Slides.Document

/-!
Walks end. What counts against a walk is the tree as it is entered: each node is entered once, and
what is put in its place then is no larger. What a visitor puts there when it leaves is not walked
again, so it may be of any size.
-/
namespace SlideDeck.Walk

variable {σ : Type} {v : Visitor σ}

theorem within?_eq_toEnd (hv : v.NonGrowing) (s : σ) (tree : Node) {reach : Nat}
    (h : tree.nodeCount ≤ reach) : within? reach v s tree = some (toEnd v hv s tree) := by
  rw [Node.nodeCount_eq] at h
  have hvisit : visit v reach s (.top tree) = some (subtree v hv s (.top tree)) :=
    visit_eq_subtree hv h
  rw [within?, hvisit, toEnd_eq]
  rfl

theorem countP_calls_le (hv : v.NonGrowing) (s : σ) (tree : Node) :
    (calls v hv s tree).countP Event.enters ≤ tree.nodeCount := by
  obtain ⟨kept?, hcalls, -⟩ := calls_of_toEnd hv s tree
  have hle := hcalls.countP_enters_le hv
  rwa [Node.sizeAll, Node.sizeAll, Nat.add_zero, ← Node.nodeCount_eq] at hle

/-- A visitor that does not enlarge what it enters comes to the end of every tree, from every state
and whatever it does when it leaves, and it enters no more nodes than the tree has. Cutting is a
walk of this kind. -/
theorem ends_within_nodeCount (hv : v.NonGrowing) (s : σ) (tree : Node) :
    (∀ reach, tree.nodeCount ≤ reach → within? reach v s tree = some (toEnd v hv s tree)) ∧
      (calls v hv s tree).countP Event.enters ≤ tree.nodeCount ∧
      ∀ c : Cutter,
        (∀ reach, tree.nodeCount ≤ reach → within? reach c.visitor {} tree = some (c.walk tree)) ∧
          (calls c.visitor c.visitor_nonGrowing {} tree).countP Event.enters ≤ tree.nodeCount :=
  ⟨fun _ h => within?_eq_toEnd hv s tree h, countP_calls_le hv s tree, fun c =>
    ⟨fun _ h => within?_eq_toEnd c.visitor_nonGrowing {} tree h,
      countP_calls_le c.visitor_nonGrowing {} tree⟩⟩

/-- Counts its calls and puts a root with two texts in the place of every text that it leaves. -/
def swelling : Visitor Nat where
  enter s site := ⟨s + 1, site.node, false, false⟩
  leave s site :=
    match site.node with
    | .text value => ⟨s + 1, .root [.text value, .text value], false, false⟩
    | node => ⟨s + 1, node, false, false⟩

theorem swelling_nonGrowing : swelling.NonGrowing := fun _ _ => Nat.le_refl _

theorem ends_within_nodeCount_swelling :
    let tree : Node := .root [.text "a", .comment "b"]
    swelling.NonGrowing ∧
      (∀ reach, tree.nodeCount ≤ reach →
        within? reach swelling 0 tree = some (toEnd swelling swelling_nonGrowing 0 tree)) ∧
      (calls swelling swelling_nonGrowing 0 tree).countP Event.enters ≤ tree.nodeCount :=
  have h := ends_within_nodeCount swelling_nonGrowing 0 (.root [.text "a", .comment "b"])
  ⟨swelling_nonGrowing, h.1, h.2.1⟩

end SlideDeck.Walk
