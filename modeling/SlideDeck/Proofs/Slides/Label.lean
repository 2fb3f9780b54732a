import SlideDeck.Proofs.Slides.Nesting
import SlideDeck.Proofs.Slides.Relabelling

/-!
The tag and the properties of slides. Where a tag does not occur in a document, the elements of that
tag behind a cut are the slides; so cutting with plain slides of such a tag, and labelling these
afterwards, is cutting with the labels in the first place. The walk comes to nodes of the document
only, and never to a slide.
-/
namespace SlideDeck
namespace Node

mutual

/-- The node with another tag and other properties for the elements of a tag, in it and below it. -/
def retagged (old new : String) (props : Props) : Node → Node
  | .root cs => .root (retaggedAll old new props cs)
  | .element t p cs =>
    if t = old then .element new props (retaggedAll old new props cs)
    else .element t p (retaggedAll old new props cs)
  | .component n p cs => .component n p (retaggedAll old new props cs)
  | .text v => .text v
  | .expression v cs => .expression v cs
  | .doctype n => .doctype n
  | .esm v ds => .esm v ds
  | .comment v => .comment v
  | .raw v => .raw v

def retaggedAll (old new : String) (props : Props) : List Node → List Node
  | [] => []
  | n :: rest => retagged old new props n :: retaggedAll old new props rest

end

variable {old new : String} {props : Props}

theorem retaggedAll_eq_map (old new : String) (props : Props) (nodes : List Node) :
    retaggedAll old new props nodes = nodes.map (retagged old new props) := by
  induction nodes with
  | nil => rfl
  | cons n rest ih => rw [retaggedAll, ih, List.map_cons]

theorem retagged_element_self (old new : String) (props p : Props) (cs : List Node) :
    (element old p cs).retagged old new props =
      .element new props (cs.map (retagged old new props)) := by
  rw [retagged, if_pos rfl, retaggedAll_eq_map]

theorem retagged_element_of_ne {tag : String} (h : tag ≠ old) (p : Props) (cs : List Node) :
    (element tag p cs).retagged old new props =
      .element tag p (cs.map (retagged old new props)) := by
  rw [retagged, if_neg h, retaggedAll_eq_map]

theorem keepsShape_retagged (old new : String) (props : Props) :
    KeepsShape (retagged old new props) where
  withChildren n cs := by
    cases n with
    | element t p ds =>
      by_cases h : t = old
      · subst h
        simp [Node.withChildren, retagged_element_self]
      · simp [Node.withChildren, retagged_element_of_ne h]
    | _ => simp [retagged, Node.withChildren, retaggedAll_eq_map]
  children? n := by
    cases n with
    | element t p ds =>
      by_cases h : t = old
      · subst h
        simp [Node.children?, retagged_element_self]
      · simp [Node.children?, retagged_element_of_ne h]
    | _ => simp [retagged, Node.children?, retaggedAll_eq_map]
  isWhitespace n := by
    cases n with
    | element t p ds => unfold retagged; split <;> rfl
    | _ => rfl
  isPreamble n := by
    cases n with
    | element t p ds => unfold retagged; split <;> rfl
    | _ => rfl

theorem retagged_of_isPreamble {n : Node} (h : n.isPreamble = true) :
    n.retagged old new props = n := by
  cases n <;> first | rfl | cases h

/-- Labelling changes nothing where the tag does not occur. -/
theorem Lacks.retagged {n : Node} (h : n.Lacks old) : n.retagged old new props = n := by
  apply (keepsShape_retagged old new props).eq_self
  intro m hm
  cases m with
  | element t p cs =>
    have ht : t ≠ old := by simpa [isElementNamed] using h _ hm
    exact retagged_element_of_ne ht p []
  | _ => rfl

end Node

namespace Cutter

variable {c : Cutter} {tree : Node} {fresh : String}

/-- The cutter with slides of another tag and without properties. -/
def plain (c : Cutter) (tag : String) : Cutter := { c with wrapper := tag, props := ⟨[]⟩ }

/-- The change of labels that makes plain slides into those of the cutter. -/
def label (c : Cutter) (tag : String) : Node → Node := Node.retagged tag c.wrapper c.props

theorem relabels_plain (c : Cutter) (tag : String) : Relabels (c.plain tag) c (c.label tag) where
  toKeepsShape := Node.keepsShape_retagged tag c.wrapper c.props
  marker := rfl
  skip := rfl
  wrap nodes := Node.retagged_element_self tag c.wrapper c.props ⟨[]⟩ nodes

/-- Cutting is labelling the slides of a cut with plain ones. -/
theorem cut_of_lacks (c : Cutter) (hlacks : tree.Lacks fresh) :
    c.cut tree = (((c.plain fresh).cut tree).1, c.label fresh ((c.plain fresh).cut tree).2) := by
  have hg := c.relabels_plain fresh
  have htree : c.label fresh tree = tree := hlacks.retagged
  cases hcs : tree.children? with
  | none =>
    rw [cut_of_leaf hcs, cut_of_leaf hcs, ← hg.fires?]
    cases c.fires? .stopped tree with
    | none => simp only [htree]
    | some r => rfl
  | some cs =>
    have hroot := Node.isContainer_of_children? hcs
    refine hg.cut hroot hroot ?_ fun ds => ?_
    · exact hg.levelAll (fun n hn => (hlacks.child hn).retagged) [] {}
    · rw [hg.withChildren, htree]

/-- The elements of a tag that did not occur in the document are slides, and none of them has
preamble among its children. -/
theorem exists_eq_wrap (hlacks : tree.Lacks c.wrapper) {w : Node}
    (hw : w ∈ (c.cut tree).2.elementsNamed c.wrapper) :
    ∃ nodes, w = c.wrap nodes ∧ ∀ n ∈ nodes, n.isPreamble = false := by
  rcases c.cut_cases tree with ⟨-, hcut⟩ | ⟨-, hslides, children, hchildren, hcut⟩
  · rw [hcut] at hw
    obtain ⟨s, site, front, core, back, -, hwraps, rfl⟩ := built_of_walk hlacks hw
    exact ⟨core, rfl, hwraps.bare⟩
  · have hroot : tree.isContainer = true := isContainer_of_slides (c := c) (by omega)
    rw [elementsNamed_of_fellBack hroot (Node.lacks_iff.mp hlacks) hslides hchildren hcut,
      List.mem_singleton] at hw
    refine ⟨_, hw, fun n hn => ?_⟩
    simpa using (List.mem_filter.mp hn).2

/-- The nodes that the walk comes to, and those still behind them, are nodes of the document. -/
theorem nodes_of_comes {s : Progress} {site : Site}
    (comes : Walk.Comes c.visitor c.visitor_nonGrowing {} tree s site) :
    site.node ∈ tree.preorder ∧
      ∀ place, site.place? = some place → ∀ n ∈ place.after, n ∈ tree.preorder := by
  refine ⟨mem_preorder_of_comes comes, ?_⟩
  cases comes with
  | top =>
    intro place hplace
    cases hplace
  | @child s site xs ys m parent kept entered children =>
    rintro place ⟨⟩ n hn
    obtain ⟨as, bs, rfl⟩ := List.append_of_mem hn
    have hchildren : site.node.children? = some ((xs ++ m :: as) ++ n :: bs) := by
      rw [List.append_assoc, List.cons_append]
      exact (c.children?_enter s site).symm.trans children
    exact Node.mem_preorder_trans (mem_preorder_of_comes parent)
      (Node.mem_preorder_of_child (Node.mem_children hchildren) n.mem_preorder_self)

/-- The tag and the properties of the slides are labels. With a tag that does not occur in the
document, and without properties, the document comes to the same but for the labels, and the
elements of that tag are the slides. All nodes that the walk comes to or looks ahead to are nodes of
the document, so that no slide is ever taken for a marker. -/
theorem cut_eq_labelled (c : Cutter) (hfresh : tree.elementsNamed fresh = []) :
    let out := ((c.plain fresh).cut tree).2
    c.cut tree = (((c.plain fresh).cut tree).1, out.retagged fresh c.wrapper c.props) ∧
      (∀ w ∈ out.elementsNamed fresh, ∃ nodes, w = (c.plain fresh).wrap nodes) ∧
      ∀ s site, Walk.Comes c.visitor c.visitor_nonGrowing {} tree s site →
        site.node ∈ tree.preorder ∧
          ∀ place, site.place? = some place → ∀ n ∈ place.after, n ∈ tree.preorder := by
  have hlacks := Node.lacks_iff.mpr hfresh
  intro out
  refine ⟨c.cut_of_lacks hlacks, fun w hw => ?_, fun s site comes => nodes_of_comes comes⟩
  obtain ⟨nodes, hnodes, -⟩ := exists_eq_wrap (c := c.plain fresh) hlacks hw
  exact ⟨nodes, hnodes⟩

/-- The slides are tagged as the markers are, and as an element of the document is. -/
theorem cut_eq_labelled_marker :
    let c := Cutter.ofKeyword "hr" "hr" ⟨[("class", .string "slide")]⟩ "skip"
    let hr : Node := .element "hr" ⟨[]⟩ []
    let box (cs : List Node) : Node := .component (some "Box") ⟨[]⟩ cs
    let tree : Node := .root [.text "a", hr, box [.text "b", hr, .text "c"], hr, .text "d"]
    tree.elementsNamed "new" = [] ∧
      c.cut tree = (((c.plain "new").cut tree).1,
        ((c.plain "new").cut tree).2.retagged "new" "hr" ⟨[("class", .string "slide")]⟩) ∧
      (c.cut tree).1.slides = 4 := by
  intro c hr box tree
  have hfresh : tree.elementsNamed "new" = [] := by
    rw [Node.elementsNamed_eq]
    rfl
  exact ⟨hfresh, (c.cut_eq_labelled hfresh).1, by decide +kernel⟩

end Cutter
end SlideDeck
