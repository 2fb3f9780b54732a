import SlideDeck.Proofs.Node.Context

/-!
Changes of leaves. What is put in the place of a leaf is a leaf again, so the shape of a tree stays
as it is.
-/
namespace SlideDeck
namespace Node

mutual

/-- The node with its leaves changed, or itself changed when it is one. -/
def mapLeaves (g : Node → Node) : Node → Node
  | .root cs => .root (mapLeavesAll g cs)
  | .element t p cs => .element t p (mapLeavesAll g cs)
  | .component n p cs => .component n p (mapLeavesAll g cs)
  | .text v => g (.text v)
  | .expression v cs => g (.expression v cs)
  | .doctype n => g (.doctype n)
  | .esm v ds => g (.esm v ds)
  | .comment v => g (.comment v)
  | .raw v => g (.raw v)

def mapLeavesAll (g : Node → Node) : List Node → List Node
  | [] => []
  | n :: rest => mapLeaves g n :: mapLeavesAll g rest

end

theorem mapLeavesAll_eq_map (g : Node → Node) (nodes : List Node) :
    mapLeavesAll g nodes = nodes.map (mapLeaves g) := by
  induction nodes with
  | nil => rfl
  | cons n rest ih => rw [mapLeavesAll, ih, List.map_cons]

variable {g : Node → Node} {n : Node}

theorem mapLeaves_of_leaf (h : n.children? = none) : n.mapLeaves g = g n := by
  cases n <;> first | rfl | cases h

theorem mapLeaves_withChildren (h : n.isContainer = true) (cs : List Node) :
    (n.withChildren cs).mapLeaves g = n.withChildren (cs.map (mapLeaves g)) := by
  rw [← mapLeavesAll_eq_map]
  cases n <;> first | rfl | cases h

/-- A change that makes leaves of leaves, blanks of blanks and preamble of preamble. -/
structure KeepsLeaves (g : Node → Node) : Prop where
  children? : ∀ n, n.children? = none → (g n).children? = none
  isWhitespace : ∀ n, (g n).isWhitespace = n.isWhitespace
  isPreamble : ∀ n, (g n).isPreamble = n.isPreamble

theorem KeepsLeaves.keepsShape (hg : KeepsLeaves g) : KeepsShape (mapLeaves g) where
  withChildren n cs := by
    cases h : n.children? with
    | none =>
      rw [withChildren_of_leaf h, mapLeaves_of_leaf h, withChildren_of_leaf (hg.children? n h)]
    | some ds =>
      have hn := isContainer_of_children? h
      rw [mapLeaves_withChildren hn, ← withChildren_getD n, mapLeaves_withChildren hn,
        withChildren_withChildren, withChildren_withChildren]
  children? n := by
    cases h : n.children? with
    | none => rw [mapLeaves_of_leaf h, hg.children? n h, Option.map_none]
    | some cs =>
      have hn := isContainer_of_children? h
      rw [← withChildren_self h, mapLeaves_withChildren hn,
        children?_withChildren_of_isContainer hn, Option.map_some]
  isWhitespace n := by
    cases n with
    | root cs => rfl
    | element t p cs => rfl
    | component n p cs => rfl
    | _ => exact hg.isWhitespace _
  isPreamble n := by
    cases n with
    | root cs => rfl
    | element t p cs => rfl
    | component n p cs => rfl
    | _ => exact hg.isPreamble _

end Node
end SlideDeck
