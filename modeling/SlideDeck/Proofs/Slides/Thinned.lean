import SlideDeck.Proofs.Slides.Agreement

/-!
What cutting does to the content of a document. When the slides are taken away again, the document
is the old one less markers and comments that carry directives, each with all that is below it.
-/
namespace SlideDeck

namespace Node

mutual

/-- The node with the elements of a tag below it replaced by their children. -/
def unwrapped (tag : String) : Node → Node
  | .root cs => .root (unwrappedAll tag cs)
  | .element t p cs => .element t p (unwrappedAll tag cs)
  | .component n p cs => .component n p (unwrappedAll tag cs)
  | .text v => .text v
  | .expression v cs => .expression v cs
  | .doctype n => .doctype n
  | .esm v ds => .esm v ds
  | .comment v => .comment v
  | .raw v => .raw v

/-- The nodes with the elements of a tag among and below them replaced by their children. -/
def unwrappedAll (tag : String) : List Node → List Node
  | [] => []
  | n :: rest =>
    if isElementNamed tag n then (unwrapped tag n).children?.getD [] ++ unwrappedAll tag rest
    else unwrapped tag n :: unwrappedAll tag rest

end

theorem unwrapped_eq (tag : String) (n : Node) :
    n.unwrapped tag = n.withChildren (unwrappedAll tag (n.children?.getD [])) := by
  cases n <;> simp [unwrapped, withChildren, children?]

theorem unwrapped_withChildren (tag : String) (n : Node) (cs : List Node) :
    (n.withChildren cs).unwrapped tag = n.withChildren (unwrappedAll tag cs) := by
  cases n <;> simp [unwrapped, withChildren]

theorem isPreamble_unwrapped (tag : String) (n : Node) :
    (n.unwrapped tag).isPreamble = n.isPreamble := by
  rw [unwrapped_eq, isPreamble_withChildren]

theorem unwrappedAll_append (tag : String) (xs ys : List Node) :
    unwrappedAll tag (xs ++ ys) = unwrappedAll tag xs ++ unwrappedAll tag ys := by
  induction xs with
  | nil => rfl
  | cons x xs ih =>
    rw [List.cons_append, unwrappedAll, unwrappedAll, ih]
    split
    · rw [List.append_assoc]
    · rfl

theorem unwrappedAll_eq_map {tag : String} {nodes : List Node}
    (h : ∀ n ∈ nodes, n.isElementNamed tag = false) :
    unwrappedAll tag nodes = nodes.map (unwrapped tag) := by
  induction nodes with
  | nil => rfl
  | cons n rest ih =>
    rw [unwrappedAll, h n List.mem_cons_self, if_neg Bool.false_ne_true,
      ih fun m hm => h m (List.mem_cons_of_mem n hm), List.map_cons]

theorem Lacks.unwrapped_eq {tag : String} {n : Node} (h : n.Lacks tag) : n.unwrapped tag = n := by
  induction n using Node.induction_children with
  | step n ih =>
    have hchildren : unwrappedAll tag (n.children?.getD []) = n.children?.getD [] := by
      rw [unwrappedAll_eq_map fun k hk => h.child hk k k.mem_preorder_self]
      calc (n.children?.getD []).map (unwrapped tag) = (n.children?.getD []).map id :=
            List.map_congr_left fun k hk => ih k hk (h.child hk)
        _ = n.children?.getD [] := List.map_id _
    rw [Node.unwrapped_eq, hchildren, withChildren_getD]

end Node

/-- Siblings `ms` are the siblings `ns` less some, at any depth, all of which may go. -/
inductive Thinned (mayGo : Node → Bool) : List Node → List Node → Prop
  | nil : Thinned mayGo [] []
  | drop {n : Node} {ns ms : List Node} (gone : mayGo n = true) (rest : Thinned mayGo ns ms) :
      Thinned mayGo (n :: ns) ms
  | keep {n : Node} {ns ms cs : List Node} (below : Thinned mayGo (n.children?.getD []) cs)
      (rest : Thinned mayGo ns ms) : Thinned mayGo (n :: ns) (n.withChildren cs :: ms)

namespace Thinned

variable {mayGo : Node → Bool} {xs xs' ys ys' : List Node}

theorem append (h : Thinned mayGo xs ys) (h' : Thinned mayGo xs' ys') :
    Thinned mayGo (xs ++ xs') (ys ++ ys') := by
  induction h with
  | nil => exact h'
  | drop gone _ ih => exact .drop gone ih
  | keep below _ _ ih => exact .keep below ih

theorem refl (mayGo : Node → Bool) (nodes : List Node) : Thinned mayGo nodes nodes := by
  have hall (nodes : List Node)
      (h : ∀ n ∈ nodes, Thinned mayGo (n.children?.getD []) (n.children?.getD [])) :
      Thinned mayGo nodes nodes := by
    induction nodes with
    | nil => exact .nil
    | cons n rest ih =>
      have hn := h n List.mem_cons_self
      have hrest := ih fun m hm => h m (List.mem_cons_of_mem n hm)
      have hkeep := Thinned.keep hn hrest
      rwa [Node.withChildren_getD] at hkeep
  apply hall
  intro n hn
  clear hn
  induction n using Node.induction_children with
  | step n ih => exact hall _ ih

end Thinned

namespace Cutter

/-- Cutting may take the node out of the document. -/
def mayGo (c : Cutter) (n : Node) : Bool := c.isMarker n || (c.directive? n).isSome

/-- The nodes `ms` come from the siblings `ns`, slides apart, and none of them is a slide. -/
structure Erases (c : Cutter) (ns ms : List Node) : Prop where
  thinned : Thinned c.mayGo ns (Node.unwrappedAll c.wrapper ms)
  bare : ∀ m ∈ ms, m.isElementNamed c.wrapper = false

/-- The children that the level has seen are still there. -/
structure Sound (c : Cutter) (seen : List Node) (l : Level) : Prop where
  done : Erases c seen l.done
  contents : Erases c seen l.assembly.contents

variable {c : Cutter} {n : Node} {seen : List Node} {l : Level}

theorem Erases.append {xs xs' ys ys' : List Node} (h : Erases c xs ys) (h' : Erases c xs' ys') :
    Erases c (xs ++ xs') (ys ++ ys') := by
  refine ⟨?_, fun m hm => ?_⟩
  · rw [Node.unwrappedAll_append]
    exact h.thinned.append h'.thinned
  · rcases List.mem_append.mp hm with hm | hm
    · exact h.bare m hm
    · exact h'.bare m hm

theorem Erases.drop {xs ys : List Node} (h : Erases c xs ys) (hn : c.mayGo n = true) :
    Erases c (xs ++ [n]) ys := by
  have hnone : Erases c [n] [] := ⟨.drop hn .nil, fun m hm => (by cases hm)⟩
  simpa using h.append hnone

/-- Taking the slides away from pieces leaves their contents. -/
theorem unwrappedAll_build (c : Cutter) (pieces : List Piece) :
    Node.unwrappedAll c.wrapper (pieces.map (Piece.build c.wrap)) =
      Node.unwrappedAll c.wrapper (Piece.contents pieces) := by
  induction pieces with
  | nil => rfl
  | cons p ps ih =>
    rw [List.map_cons, Piece.contents_cons, Node.unwrappedAll_append, ← ih]
    cases p with
    | slide nodes =>
      simp [Piece.build, Piece.nodes, wrap, Node.unwrappedAll, Node.unwrapped, Node.isElementNamed,
        Node.children?]
    | bare node =>
      rw [← List.singleton_append, Node.unwrappedAll_append]
      rfl

theorem Sound.childrenOf (h : Sound c seen l) :
    Thinned c.mayGo seen (Node.unwrappedAll c.wrapper (c.childrenOf l)) := by
  rw [Cutter.childrenOf, unwrappedAll_build, contents_pieces]
  exact h.contents.thinned

theorem Erases.visited {n' : Node} (hn : n.Lacks c.wrapper) (h : Visited c n l n')
    (hbelow : Sound c (n.children?.getD []) (c.levelBelow n l)) : Erases c [n] [n'] := by
  have hbare := hn n n.mem_preorder_self
  cases h with
  | skipped suppressed =>
    refine ⟨?_, fun m hm => ?_⟩
    · rw [Node.unwrappedAll, hbare, if_neg Bool.false_ne_true, hn.unwrapped_eq]
      exact .refl c.mayGo [n]
    · rw [List.mem_singleton.mp hm]
      exact hbare
  | left awake =>
    have hbare' : (n.withChildren (c.childrenOf (c.levelBelow n l))).isElementNamed c.wrapper =
        false := by
      rw [Node.isElementNamed_withChildren, hbare]
    refine ⟨?_, fun m hm => ?_⟩
    · rw [Node.unwrappedAll, hbare', if_neg Bool.false_ne_true, Node.unwrapped_withChildren]
      exact .keep hbelow.childrenOf .nil
    · rw [List.mem_singleton.mp hm]
      exact hbare'

theorem sound_inside (c : Cutter) (l : Level) : Sound c [] l.inside :=
  ⟨⟨.nil, fun m hm => (by cases hm)⟩, ⟨.nil, fun m hm => (by cases hm)⟩⟩

theorem Sound.level {after : List Node} (h : Sound c seen l) (hn : n.Lacks c.wrapper)
    (hl : Coherent c l (n :: after))
    (hbelow : Sound c (n.children?.getD []) (c.levelBelow n l)) :
    Sound c (seen ++ [n]) (c.level n after l) := by
  have hpassage := passage_level hl
  generalize c.level n after l = r at hpassage ⊢
  cases hpassage with
  | keep visited done contents dropped planned =>
    have hvisited := Erases.visited hn visited hbelow
    refine ⟨?_, ?_⟩
    · rw [done]
      exact h.done.append hvisited
    · rw [contents]
      exact h.contents.append hvisited
  | lose visited marker done contents dropped planned =>
    have hgo : c.mayGo n = true := by
      rw [mayGo, marker, Bool.true_or]
    refine ⟨?_, ?_⟩
    · rw [done]
      exact h.done.append (Erases.visited hn visited hbelow)
    · rw [contents]
      exact h.contents.drop hgo
  | remove directive done assembly =>
    have hgo : c.mayGo n = true := by
      rw [mayGo, directive, Bool.or_true]
    have hdone : Erases c (seen ++ [n]) r.done := by
      rw [done]
      exact h.done.drop hgo
    refine ⟨hdone, ?_⟩
    rcases assembly with hsame | ⟨hnone, -⟩
    · rw [Level.assembly_congr hsame done]
      exact h.contents.drop hgo
    · rw [Level.assembly, hnone, Option.getD_none, Assembly.contents_ofLoose]
      exact hdone

def Keeps (c : Cutter) (l : Level) (nodes _todo : List Node) (r : Level) : Prop :=
  (∀ n ∈ nodes, n.Lacks c.wrapper) → ∀ seen, Sound c seen l → Sound c (seen ++ nodes) r

theorem keeps_refl (l : Level) (todo : List Node) : Keeps c l [] todo l := by
  intro _ seen h
  rwa [List.append_nil]

theorem Keeps.trans {l₁ l₂ l₃ : Level} {xs ys todo : List Node}
    (h : Keeps c l₁ xs (ys ++ todo) l₂) (h' : Keeps c l₂ ys todo l₃) :
    Keeps c l₁ (xs ++ ys) todo l₃ := by
  intro hlacks seen hs
  rw [← List.append_assoc]
  exact h' (fun m hm => hlacks m (List.mem_append_right _ hm)) _
    (h (fun m hm => hlacks m (List.mem_append_left _ hm)) seen hs)

theorem keeps_level {after : List Node} (hl : Coherent c l (n :: after)) :
    Keeps c l [n] after (c.level n after l) := by
  refine level_run keeps_refl Keeps.trans (fun n after l hl hbelow hlacks seen h => ?_) n hl
  have hn := hlacks n List.mem_cons_self
  have hinside := hbelow (fun k hk => hn.child hk) [] (c.sound_inside l)
  exact h.level hn hl hinside

theorem sound_levelOf {tree : Node} (h : tree.Lacks c.wrapper) :
    Sound c (tree.children?.getD []) (c.levelOf tree) := by
  have hkeeps : Keeps c {} (tree.children?.getD []) [] (c.levelOf tree) :=
    levelAll_run keeps_refl Keeps.trans (fun n _ after l hl => keeps_level hl)
      (coherent_of_none rfl _)
  exact hkeeps (fun k hk => h.child hk) [] (c.sound_inside {})

theorem Sound.bare (h : Sound c seen l) (hslides : Piece.slideCount l.pieces = 0) :
    ∀ m ∈ c.childrenOf l, m.isElementNamed c.wrapper = false := by
  rw [Cutter.childrenOf, Piece.map_build_of_slideCount _ hslides, contents_pieces]
  exact h.contents.bare

/-- Moving the preamble to the front is the same before and behind the taking away of the slides. -/
theorem unwrappedAll_wrapWhole (c : Cutter) {nodes : List Node}
    (h : ∀ m ∈ nodes, m.isElementNamed c.wrapper = false) :
    Node.unwrappedAll c.wrapper (c.wrapWhole nodes) =
      (Node.unwrappedAll c.wrapper nodes).filter Node.isPreamble ++
        (Node.unwrappedAll c.wrapper nodes).filter (!·.isPreamble) := by
  have hfilter (p : Node → Bool) (hp : ∀ n, p (n.unwrapped c.wrapper) = p n) :
      Node.unwrappedAll c.wrapper (nodes.filter p) =
        (Node.unwrappedAll c.wrapper nodes).filter p := by
    have hcomp : p ∘ Node.unwrapped c.wrapper = p := funext hp
    rw [Node.unwrappedAll_eq_map h, List.filter_map, hcomp,
      Node.unwrappedAll_eq_map fun m hm => h m (List.mem_filter.mp hm).1]
  have hslide (ns : List Node) :
      Node.unwrappedAll c.wrapper [c.wrap ns] = Node.unwrappedAll c.wrapper ns := by
    simpa [Piece.build, Piece.nodes] using c.unwrappedAll_build [.slide ns]
  rw [wrapWhole, Node.unwrappedAll_append, hslide, hfilter _ (Node.isPreamble_unwrapped _),
    hfilter (fun n => !n.isPreamble) fun n => by rw [Node.isPreamble_unwrapped]]

/-- Without its slides a cut document is the old one less markers and comments that carry
directives. When the whole document became one slide, its preamble stands first besides. -/
theorem unwrapped_cut (c : Cutter) {tree : Node} (hroot : tree.isContainer = true)
    (hfresh : tree.elementsNamed c.wrapper = []) :
    ∃ kept, Thinned c.mayGo (tree.children?.getD []) kept ∧
      (c.cut tree).2.unwrapped c.wrapper = tree.withChildren
        (if (c.cut tree).1.fellBack then
          kept.filter Node.isPreamble ++ kept.filter (!·.isPreamble)
        else kept) := by
  have hsound := sound_levelOf (Node.lacks_iff.mpr hfresh)
  refine ⟨_, hsound.childrenOf, ?_⟩
  rw [cut, walk_eq c hroot]
  simp only [Node.children?_withChildren_of_isContainer hroot]
  cases hfallback : needsFallback (progressAfter (c.levelOf tree)) with
  | false =>
    simp only [Bool.false_eq_true, if_false]
    exact Node.unwrapped_withChildren _ _ _
  | true =>
    have hslides : Piece.slideCount (c.levelOf tree).pieces = 0 := by
      simp only [needsFallback, progressAfter, Bool.and_eq_true, beq_iff_eq] at hfallback
      omega
    simp only [if_true, Node.withChildren_withChildren]
    rw [Node.unwrapped_withChildren, c.unwrappedAll_wrapWhole (hsound.bare hslides)]

theorem unwrapped_cut_nested :
    let c := Cutter.ofKeyword "hr" "Slide" ⟨[]⟩ "skip"
    let hr (cs : List Node) : Node := .element "hr" ⟨[]⟩ cs
    let tree : Node := .root [.doctype "html", .text "a", hr [.text "b", hr [], .note "skip start"],
      .text " ", hr [], .note "skip stop"]
    tree.isContainer = true ∧ tree.elementsNamed c.wrapper = [] ∧
      ∃ kept, Thinned c.mayGo (tree.children?.getD []) kept ∧
        (c.cut tree).2.unwrapped c.wrapper = .root kept := by
  intro c hr tree
  have hfresh : tree.elementsNamed c.wrapper = [] := by
    rw [Node.elementsNamed_eq]
    rfl
  obtain ⟨kept, hthinned, hout⟩ := c.unwrapped_cut rfl hfresh
  have hcut : (c.cut tree).1.fellBack = false := by decide +kernel
  rw [hcut, if_neg Bool.false_ne_true] at hout
  exact ⟨rfl, hfresh, kept, hthinned, hout⟩

end Cutter
end SlideDeck
