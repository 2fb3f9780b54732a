import SlideDeck.Node.Binding
import SlideDeck.Proofs.Slides.Label

/-!
The preamble among the children of the top of a document. Cutting leaves it as it is, and when it
comes first it still does. This holds of every document, also of one in which the tag of the slides
occurs already: there always is a tag that does not, and the tag is but a label.
-/
namespace SlideDeck

theorem Lays.ne_nil_of_slide {i : Nat} {ns lost nodes : List Node} {es : List Entry}
    {ps : List Piece} (h : Lays i ns es ps lost) (hmem : .slide nodes ∈ ps) : nodes ≠ [] := by
  induction h with
  | done i => cases hmem
  | keep _ ih =>
    rcases List.mem_cons.mp hmem with hp | hp
    · cases hp
    · exact ih hp
  | slide nonempty _ ih =>
    rcases List.mem_cons.mp hmem with hp | hp
    · cases hp
      exact nonempty
    · exact ih hp
  | skip _ ih => exact ih hmem

namespace Node

/-- The preamble among the children of a node. -/
def preamble (n : Node) : List Node := (n.children?.getD []).filter isPreamble

theorem preamble_withChildren {n : Node} (h : n.isContainer = true) (cs : List Node) :
    (n.withChildren cs).preamble = cs.filter isPreamble := by
  rw [preamble, children?_withChildren_of_isContainer h, Option.getD_some]

theorem imports_of_not_isPreamble {n : Node} (h : n.isPreamble = false) : n.imports = [] := by
  cases n <;> first | rfl | cases h

/-- What a document binds depends on its preamble alone. -/
theorem binding?_congr {n m : Node} (h : n.preamble = m.preamble) (path item : String)
    (byDefault : Bool) : n.binding? path item byDefault = m.binding? path item byDefault := by
  have himports (nodes : List Node) : (nodes.filter isPreamble).flatMap imports =
      nodes.flatMap imports := by
    induction nodes with
    | nil => rfl
    | cons k rest ih =>
      rw [List.filter_cons, List.flatMap_cons, ← ih]
      cases hk : k.isPreamble with
      | true => rfl
      | false => rw [imports_of_not_isPreamble hk]; rfl
  rw [binding?, binding?, ← himports, ← himports (m.children?.getD []), ← preamble, ← preamble, h]

/-- There always is a tag that does not occur. -/
theorem exists_lacks (n : Node) : ∃ tag, n.Lacks tag := by
  have hbound (nodes : List Node) : ∃ bound, ∀ m ∈ nodes, ∀ tag,
      m.isElementNamed tag = true → tag.length < bound := by
    induction nodes with
    | nil => exact ⟨0, fun m hm => by cases hm⟩
    | cons m rest ih =>
      obtain ⟨bound, hrest⟩ := ih
      have hm : ∃ size, ∀ tag, m.isElementNamed tag = true → tag.length < size := by
        cases m with
        | element t p cs =>
          refine ⟨t.length + 1, fun tag htag => ?_⟩
          rw [← beq_iff_eq.mp htag]
          exact Nat.lt_succ_self _
        | _ => exact ⟨0, fun tag htag => by cases htag⟩
      obtain ⟨size, hm⟩ := hm
      refine ⟨size + bound, List.forall_mem_cons.mpr ⟨fun tag htag => ?_, fun k hk tag htag => ?_⟩⟩
      · have hlt := hm tag htag
        omega
      · have hlt := hrest k hk tag htag
        omega
  obtain ⟨bound, hbound⟩ := hbound n.preorder
  refine ⟨String.ofList (List.replicate bound 'x'), fun m hm => ?_⟩
  cases hnamed : m.isElementNamed (String.ofList (List.replicate bound 'x')) with
  | false => rfl
  | true =>
    have hlt := hbound m hm _ hnamed
    simp at hlt

end Node

namespace Cutter

variable {c : Cutter} {tree n : Node} {rest : List Node} {tag : String}

theorem isContainer_cut (c : Cutter) (hroot : tree.isContainer = true) :
    (c.cut tree).2.isContainer = true := by
  have hwalk : (c.walk tree).2.isContainer = true := by
    rw [walk_eq c hroot]
    exact Node.isContainer_of_children? (Node.children?_withChildren_of_isContainer hroot _)
  rcases c.cut_cases tree with ⟨-, hcut⟩ | ⟨-, -, children, -, hcut⟩
  · rwa [hcut]
  · rw [hcut]
    exact Node.isContainer_of_children? (Node.children?_withChildren_of_isContainer hwalk _)

theorem isPreamble_label (n : Node) : (c.label tag n).isPreamble = n.isPreamble :=
  (c.relabels_plain tag).isPreamble n

theorem children?_label (n : Node) :
    (c.label tag n).children?.getD [] = (n.children?.getD []).map (c.label tag) := by
  rw [(c.relabels_plain tag).children?]
  cases n.children? <;> rfl

theorem preamble_label (n : Node) : (c.label tag n).preamble = n.preamble := by
  have hcomp : Node.isPreamble ∘ c.label tag = Node.isPreamble := funext isPreamble_label
  rw [Node.preamble, children?_label, List.filter_map, hcomp, ← Node.preamble]
  refine (List.map_congr_left fun m hm => ?_).trans (List.map_id _)
  exact Node.retagged_of_isPreamble (List.mem_filter.mp hm).2

theorem preamble_cut_of_lacks (hroot : tree.isContainer = true) (hlacks : tree.Lacks c.wrapper) :
    (c.cut tree).2.preamble = tree.preamble := by
  have hwalk : (c.walk tree).2.preamble = tree.preamble := by
    rw [walk_eq c hroot, Node.preamble_withChildren hroot]
    exact filter_isPreamble_childrenOf hroot hlacks
  rcases c.cut_cases tree with ⟨-, hcut⟩ | ⟨-, -, children, hchildren, hcut⟩
  · rw [hcut, hwalk]
  · have hslide (nodes : List Node) : (c.wrap nodes).isPreamble = false := rfl
    rw [hcut, ← hwalk, Node.preamble_withChildren (Node.isContainer_of_children? hchildren),
      Node.preamble, hchildren]
    simp [wrapWhole, hslide]

/-- Cutting leaves the preamble among the children of the top as it is. -/
theorem preamble_cut (c : Cutter) (hroot : tree.isContainer = true) :
    (c.cut tree).2.preamble = tree.preamble := by
  obtain ⟨fresh, hfresh⟩ := tree.exists_lacks
  rw [c.cut_of_lacks hfresh, preamble_label]
  exact preamble_cut_of_lacks hroot hfresh

theorem binding?_cut (c : Cutter) (hroot : tree.isContainer = true) (path item : String)
    (byDefault : Bool) :
    (c.cut tree).2.binding? path item byDefault = tree.binding? path item byDefault :=
  Node.binding?_congr (c.preamble_cut hroot) path item byDefault

theorem head?_of_thinned {ns ms : List Node} (h : Thinned c.mayGo ns ms) (hns : ns.head? = some n)
    (hn : n.isPreamble = true) : ms.head? = some n := by
  cases h with
  | nil => cases hns
  | drop gone _ =>
    obtain rfl := Option.some.inj hns
    rw [mayGo_of_isPreamble hn] at gone
    cases gone
  | keep _ _ =>
    obtain rfl := Option.some.inj hns
    rw [Node.withChildren_of_leaf (Node.children?_of_isPreamble hn)]
    rfl

theorem head?_childrenOf (hroot : tree.isContainer = true) (hlacks : tree.Lacks c.wrapper)
    (hhead : (tree.children?.getD []).head? = some n) (hn : n.isPreamble = true) :
    (c.childrenOf (c.levelOf tree)).head? = some n := by
  have hsound := (sound_levelOf hlacks).contents
  have hthinned := head?_of_thinned hsound.thinned hhead hn
  rw [Node.unwrappedAll_eq_map hsound.bare, List.head?_map, Option.map_eq_some_iff] at hthinned
  obtain ⟨m, hm, hmn⟩ := hthinned
  have hpreamble : m.isPreamble = true := by rw [← Node.isPreamble_unwrapped c.wrapper, hmn, hn]
  obtain rfl : m = n := by
    have hleaf := Node.children?_of_isPreamble hpreamble
    rw [← hmn, Node.unwrapped_eq, Node.withChildren_of_leaf hleaf]
  rw [← contents_pieces] at hm
  rw [childrenOf, List.head?_map]
  cases hpieces : (c.levelOf tree).pieces with
  | nil =>
    rw [hpieces] at hm
    cases hm
  | cons p ps =>
    rw [hpieces, Piece.contents_cons] at hm
    cases p with
    | bare k => exact hm
    | slide nodes =>
      have hmem : .slide nodes ∈ (c.levelBelow tree (.ofProgress {})).pieces := by
        show .slide nodes ∈ (c.levelOf tree).pieces
        rw [hpieces]
        exact List.mem_cons_self
      obtain ⟨lost, hlays⟩ := lays_layout (s := {}) rfl (kept_top hroot) (entered_top hroot)
      have hbare := bare_of_slide_mem (s := {}) rfl (kept_top hroot) (entered_top hroot) hmem
      cases nodes with
      | nil => exact absurd rfl (hlays.ne_nil_of_slide hmem)
      | cons k ks =>
        obtain rfl := Option.some.inj hm
        rw [hbare _ List.mem_cons_self] at hn
        cases hn

theorem head?_cut_of_lacks (hroot : tree.isContainer = true) (hlacks : tree.Lacks c.wrapper)
    (hhead : (tree.children?.getD []).head? = some n) (hn : n.isPreamble = true) :
    ((c.cut tree).2.children?.getD []).head? = some n := by
  have hwalk : ((c.walk tree).2.children?.getD []).head? = some n := by
    rw [walk_eq c hroot, Node.children?_withChildren_of_isContainer hroot]
    exact head?_childrenOf hroot hlacks hhead hn
  rcases c.cut_cases tree with ⟨-, hcut⟩ | ⟨-, -, children, hchildren, hcut⟩
  · rw [hcut, hwalk]
  · rw [hchildren, Option.getD_some] at hwalk
    rw [hcut, Node.children?_withChildren, hchildren, Option.map_some, Option.getD_some, wrapWhole]
    cases children with
    | nil => cases hwalk
    | cons k ks =>
      obtain rfl := Option.some.inj hwalk
      rw [List.filter_cons, if_pos hn]
      rfl

/-- A first child that is preamble stays the first. -/
theorem head?_cut (c : Cutter) (hroot : tree.isContainer = true)
    (hhead : (tree.children?.getD []).head? = some n) (hn : n.isPreamble = true) :
    ((c.cut tree).2.children?.getD []).head? = some n := by
  obtain ⟨fresh, hfresh⟩ := tree.exists_lacks
  rw [c.cut_of_lacks hfresh, children?_label, List.head?_map,
    head?_cut_of_lacks (c := c.plain fresh) hroot hfresh hhead hn, Option.map_some]
  exact congrArg some (Node.retagged_of_isPreamble hn)

end Cutter
end SlideDeck
