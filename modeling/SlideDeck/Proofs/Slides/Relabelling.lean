import SlideDeck.Proofs.Node.Context
import SlideDeck.Proofs.Slides.Inert

/-!
Changes of labels on the walk. A change of labels that does not touch the nodes to come can be made
before or after these are visited: the walk looks at the labels of nodes that it comes to, and never
again at those of nodes behind it. So documents that differ in one place are cut alike when the
children in that place come to the same.
-/
namespace SlideDeck

open Node (KeepsShape)

variable {g : Node → Node}

namespace Piece

def map (g : Node → Node) : Piece → Piece
  | slide nodes => slide (nodes.map g)
  | bare node => bare (g node)

@[simp] theorem slideCount_map (g : Node → Node) (pieces : List Piece) :
    slideCount (pieces.map (map g)) = slideCount pieces := by
  induction pieces with
  | nil => rfl
  | cons p ps ih => cases p <;> simp [map, isSlide, ih]

theorem map_around (g : Node → Node) (core : List Node) :
    (around core).map (map g) = around (core.map g) := by
  cases core <;> rfl

theorem map_map_bare (g : Node → Node) (nodes : List Node) :
    (nodes.map bare).map (map g) = (nodes.map g).map bare := by
  simp [map, Function.comp_def]

end Piece

def Loose.map (g : Node → Node) (x : Loose) : Loose := (g x.1, x.2)

theorem Loose.map_fst_map (g : Node → Node) (run : List Loose) :
    (run.map (Loose.map g)).map Prod.fst = (run.map Prod.fst).map g := by
  simp [Loose.map, Function.comp_def]

namespace Piece

theorem map_ofSegment (hg : KeepsShape g) (segment : List Loose) :
    (ofSegment segment).map (map g) = ofSegment (segment.map (Loose.map g)) := by
  have hedge : isEdge ∘ Loose.map g = isEdge := by
    funext x
    simp [isEdge, Loose.map, hg.isWhitespace]
  simp only [ofSegment, Ends.of_map, hedge, List.map_append, map_around, map_map_bare,
    Loose.map_fst_map]

theorem map_ofRun (hg : KeepsShape g) (segment run : List Loose) :
    (ofRun segment run).map (map g) =
      ofRun (segment.map (Loose.map g)) (run.map (Loose.map g)) := by
  induction run generalizing segment with
  | nil => exact map_ofSegment hg segment
  | cons x rest ih =>
    have hpreamble : (Loose.map g x).1.isPreamble = x.1.isPreamble := hg.isPreamble x.1
    rw [List.map_cons, ofRun, ofRun, hpreamble]
    by_cases hp : x.1.isPreamble = true
    · rw [if_pos hp, if_pos hp, List.map_append, List.map_cons, map_ofSegment hg, ih]
      rfl
    · rw [if_neg hp, if_neg hp, ih, List.map_append]
      rfl

end Piece

namespace Assembly

def map (g : Node → Node) (a : Assembly) : Assembly where
  settled := a.settled.map (Piece.map g)
  loose := a.loose.map (Loose.map g)
  ahead := a.ahead
  dropped := a.dropped.map g

theorem map_ofLoose (g : Node → Node) (nodes : List Node) :
    (ofLoose nodes).map g = ofLoose (nodes.map g) := by
  simp [ofLoose, map, Loose.map, Function.comp_def]

theorem map_settle (hg : KeepsShape g) (a : Assembly) : a.settle.map g = (a.map g).settle := by
  simp only [settle, map, List.map_append, Piece.map_ofRun hg, List.map_nil]

theorem map_meetMarker (hg : KeepsShape g) (a : Assembly) :
    a.meetMarker.map g = (a.map g).meetMarker := by
  rw [meetMarker, meetMarker, ← map_settle hg]
  rfl

theorem map_addCut (hg : KeepsShape g) (node : Node) (ahead : Bool) (a : Assembly) :
    (a.addCut node ahead).map g = (a.map g).addCut (g node) ahead := by
  rw [addCut, addCut, ← map_settle hg]
  simp only [map, List.map_append]
  rfl

theorem map_add (hg : KeepsShape g) (node : Node) (a : Assembly) :
    (a.add node).map g = (a.map g).add (g node) := by
  unfold add
  rw [hg.isWhitespace, show (a.map g).ahead = a.ahead from rfl]
  cases a.ahead <;> cases node.isWhitespace <;> simp [map, Piece.map, Loose.map]

theorem map_addOuter (g : Node → Node) (node : Node) (a : Assembly) :
    (a.addOuter node).map g = (a.map g).addOuter (g node) := by
  unfold addOuter
  rw [show (a.map g).ahead = a.ahead from rfl]
  cases a.ahead <;> simp [map, Piece.map, Loose.map]

end Assembly

namespace Level

def map (g : Node → Node) (l : Level) : Level :=
  { l with
    dropped := l.dropped.map g
    done := l.done.map g
    assembly? := l.assembly?.map (Assembly.map g) }

@[simp] theorem map_mode (g : Node → Node) (l : Level) : (l.map g).mode = l.mode := rfl

@[simp] theorem map_id (l : Level) : l.map id = l := by
  have hpiece : Piece.map id = id := funext fun p => by cases p <;> simp [Piece.map]
  have hloose : Loose.map id = id := rfl
  have hassembly : Assembly.map id = id := funext fun a => by
    simp [Assembly.map, hpiece, hloose]
  simp [map, hassembly]

theorem map_inside (g : Node → Node) (l : Level) : l.inside.map g = (l.map g).inside := rfl

theorem assembly_map (g : Node → Node) (l : Level) : (l.map g).assembly = l.assembly.map g := by
  unfold assembly
  cases h : l.assembly? with
  | none => simp [map, h, Assembly.map_ofLoose]
  | some a => simp [map, h]

theorem pieces_map (hg : KeepsShape g) (l : Level) :
    (l.map g).pieces = l.pieces.map (Piece.map g) := by
  cases h : l.assembly? with
  | none =>
    rw [l.pieces_of_none h, pieces_of_none (by simp [map, h]), Piece.map_map_bare]
    rfl
  | some a =>
    rw [l.pieces_of_some h, pieces_of_some (by simp [map, h]; rfl), ← Assembly.map_settle hg]
    rfl

theorem losses_map (g : Node → Node) (l : Level) : (l.map g).losses = l.losses.map g := by
  rw [losses_eq, losses_eq, assembly_map]
  rfl

theorem map_after (hg : KeepsShape g) (l inner : Level) :
    (l.after inner).map g = (l.map g).after (inner.map g) := by
  rw [after, after, pieces_map hg, losses_map, Piece.slideCount_map]
  simp only [map, List.map_append]
  rfl

theorem map_put {change change' : Assembly → Assembly}
    (h : ∀ a, (change a).map g = change' (a.map g)) (node : Node) (l : Level) :
    (l.put change node).map g = (l.map g).put change' (g node) := by
  simp only [put, assembly_map, ← h]
  simp [map]

theorem map_pass (hg : KeepsShape g) (node : Node) (l : Level) :
    (l.pass node).map g = (l.map g).pass (g node) := by
  simp [pass, map, Function.comp_def, Assembly.map_add hg]

theorem map_passAll (hg : KeepsShape g) (nodes : List Node) (l : Level) :
    (l.passAll nodes).map g = (l.map g).passAll (nodes.map g) := by
  induction nodes generalizing l with
  | nil => rfl
  | cons n rest ih => rw [passAll_cons, ih, map_pass hg, List.map_cons, passAll_cons]

theorem map_meetMarker (hg : KeepsShape g) (l : Level) :
    l.meetMarker.map g = (l.map g).meetMarker := by
  simp only [meetMarker, assembly_map, ← Assembly.map_meetMarker hg]
  rfl

theorem map_follow (g : Node → Node) (d : Directive) (mode : SkipMode) (l : Level) :
    (l.follow d mode).map g = (l.map g).follow d mode := by
  cases h : d.discardsParent <;> simp [follow, map, h]

end Level

namespace Cutter

/-- The cutters look for the same markers and comments, and the change of labels makes the slides of
the one into those of the other. -/
structure Relabels (c c' : Cutter) (g : Node → Node) : Prop extends KeepsShape g where
  marker : c'.marker = c.marker
  skip : c'.skip = c.skip
  wrap : ∀ nodes, g (c.wrap nodes) = c'.wrap (nodes.map g)

variable {c c' : Cutter} {n : Node} {l : Level}

theorem relabels_id (c : Cutter) : Relabels c c id where
  toKeepsShape := Node.keepsShape_id
  marker := rfl
  skip := rfl
  wrap nodes := by rw [List.map_id]; rfl

namespace Relabels

theorem isMarker (hg : Relabels c c' g) (n : Node) : c'.isMarker n = c.isMarker n := by
  rw [Cutter.isMarker, Cutter.isMarker, hg.marker]

theorem fires? (hg : Relabels c c' g) (mode : SkipMode) (n : Node) :
    c'.fires? mode n = c.fires? mode n := by
  rw [Cutter.fires?, Cutter.fires?, Cutter.directive?, Cutter.directive?, hg.skip]

theorem markerNext (hg : Relabels c c' g) (after : List Node) :
    c'.markerNext after = c.markerNext after := by
  rw [Cutter.markerNext, Cutter.markerNext, funext hg.isMarker]

theorem childrenOf (hg : Relabels c c' g) (l : Level) :
    c'.childrenOf (l.map g) = (c.childrenOf l).map g := by
  have hbuild (p : Piece) : Piece.build c'.wrap (p.map g) = g (p.build c.wrap) := by
    cases p with
    | slide nodes => exact (hg.wrap nodes).symm
    | bare node => rfl
  simp only [Cutter.childrenOf, Level.pieces_map hg.toKeepsShape, List.map_map,
    Function.comp_def, hbuild]

/-- The node and the children behind it may change too, if a marker comes next just when one did. -/
theorem ascend_of (hg : Relabels c c' g) {n' : Node} {after after' : List Node}
    (hn : ∀ cs, g (n.withChildren cs) = n'.withChildren (cs.map g))
    (hnext : c.markerNext after' = c.markerNext after) (l inner : Level) :
    c'.ascend n' after' (l.map g) (inner.map g) = (c.ascend n after l inner).map g := by
  have hsome : (inner.map g).assembly?.isSome = inner.assembly?.isSome := by
    simp [Level.map]
  unfold Cutter.ascend
  rw [hsome, hg.childrenOf, ← hn, hg.markerNext, hnext, ← Level.map_after hg.toKeepsShape]
  by_cases hcut : inner.assembly?.isSome = true
  · rw [if_pos hcut, if_pos hcut]
    exact (Level.map_put (Assembly.map_addCut hg.toKeepsShape _ _) _ _).symm
  · rw [if_neg hcut, if_neg hcut]
    by_cases houter : inner.mode = .outer
    · rw [if_pos houter, if_pos (show (inner.map g).mode = .outer from houter)]
      exact (Level.map_put (Assembly.map_addOuter g _) _ _).symm
    · rw [if_neg houter, if_neg (show ¬ (inner.map g).mode = .outer from houter)]
      exact (Level.map_pass hg.toKeepsShape _ _).symm

theorem ascend (hg : Relabels c c' g) (hn : ∀ cs, g (n.withChildren cs) = n.withChildren (cs.map g))
    (after : List Node) (l inner : Level) :
    c'.ascend n after (l.map g) (inner.map g) = (c.ascend n after l inner).map g :=
  hg.ascend_of hn rfl l inner

theorem levelAll_of {nodes : List Node}
    (step : ∀ n ∈ nodes, ∀ after l, c'.level n after (l.map g) = (c.level n after l).map g)
    (beyond : List Node) (l : Level) :
    c'.levelAll nodes beyond (l.map g) = (c.levelAll nodes beyond l).map g := by
  induction nodes generalizing l with
  | nil => rw [levelAll_nil, levelAll_nil]
  | cons n rest ih =>
    rw [levelAll_cons, levelAll_cons, step n List.mem_cons_self,
      ih fun m hm => step m (List.mem_cons_of_mem n hm)]

/-- Labels can be changed before or after a node is visited that does not change. -/
theorem level (hg : Relabels c c' g) (hn : g n = n) (after : List Node) (l : Level) :
    c'.level n after (l.map g) = (c.level n after l).map g := by
  induction n using Node.induction_children generalizing after l with
  | step n ih =>
    have hsame (cs : List Node) : g (n.withChildren cs) = n.withChildren (cs.map g) := by
      rw [hg.withChildren, hn]
    have hbelow : c'.levelAll (n.children?.getD []) [] (l.map g).inside =
        (c.levelAll (n.children?.getD []) [] l.inside).map g := by
      rw [← Level.map_inside]
      exact levelAll_of (fun k hk => ih k hk (hg.child hn hk)) [] _
    rw [level_eq, level_eq, around, around, hg.isMarker, hg.fires?, hbelow, Level.map_mode]
    by_cases hs : l.mode.suppressesDescent = true
    · rw [if_pos hs, if_pos hs, Level.map_pass hg.toKeepsShape, hn]
    · rw [if_neg hs, if_neg hs]
      by_cases hm : (l.mode.splits && c.isMarker n) = true
      · rw [if_pos hm, if_pos hm, ← Level.map_meetMarker hg.toKeepsShape, hg.ascend hsame]
      · rw [if_neg hm, if_neg hm]
        cases c.fires? l.mode n with
        | some r => exact (Level.map_follow g r.1 r.2 l).symm
        | none => exact hg.ascend hsame after l _

theorem levelAll (hg : Relabels c c' g) {nodes : List Node} (hnodes : ∀ n ∈ nodes, g n = n)
    (beyond : List Node) (l : Level) :
    c'.levelAll nodes beyond (l.map g) = (c.levelAll nodes beyond l).map g :=
  levelAll_of (fun n hn => hg.level (hnodes n hn)) beyond l

theorem progressAfter (hg : Relabels c c' g) (l : Level) :
    Cutter.progressAfter (l.map g) = Cutter.progressAfter l := by
  rw [Cutter.progressAfter, Cutter.progressAfter, Level.pieces_map hg.toKeepsShape,
    Piece.slideCount_map]
  rfl

theorem wrapWhole (hg : Relabels c c' g) (nodes : List Node) :
    c'.wrapWhole (nodes.map g) = (c.wrapWhole nodes).map g := by
  have hpreamble : Node.isPreamble ∘ g = Node.isPreamble := funext hg.isPreamble
  have hrest : (fun n => !n.isPreamble) ∘ g = fun n => !n.isPreamble :=
    funext fun n => congrArg _ (hg.isPreamble n)
  simp only [Cutter.wrapWhole, List.filter_map, hpreamble, hrest, List.map_append, hg.wrap,
    List.map_cons, List.map_nil]

/-- Documents whose levels differ by a change of labels are cut alike, up to that change. -/
theorem cut (hg : Relabels c c' g) {tree tree' : Node} (hroot : tree.isContainer = true)
    (hroot' : tree'.isContainer = true) (hlevel : c'.levelOf tree' = (c.levelOf tree).map g)
    (hnode : ∀ cs, g (tree.withChildren cs) = tree'.withChildren (cs.map g)) :
    c'.cut tree' = ((c.cut tree).1, g (c.cut tree).2) := by
  rw [Cutter.cut, Cutter.cut, walk_eq c hroot, walk_eq c' hroot', hlevel, hg.progressAfter,
    hg.childrenOf, ← hnode]
  simp only [hg.children?, Node.children?_withChildren_of_isContainer hroot, Option.map_some]
  cases needsFallback (Cutter.progressAfter (c.levelOf tree)) with
  | false => rfl
  | true =>
    simp only [hg.wrapWhole, hnode, Node.withChildren_withChildren]

end Relabels

theorem level_container (hn : n.isContainer = true) (hmode : l.mode = .stopped) (cs : List Node)
    (after : List Node) : c.level (n.withChildren cs) after l =
      c.ascend n after (if c.isMarker n then l.meetMarker else l) (c.levelAll cs [] l.inside) := by
  have hascend (l' inner : Level) :
      c.ascend (n.withChildren cs) after l' inner = c.ascend n after l' inner := by
    simp only [ascend, Node.withChildren_withChildren]
  have hfires : c.fires? .stopped (n.withChildren cs) = none := by
    cases n <;> first | rfl | simp [Node.isContainer, Node.children?] at hn
  rw [level_eq, around, hmode, Node.isMarker_withChildren, hfires,
    Node.children?_withChildren_of_isContainer hn, Option.getD_some, hascend, hascend]
  cases c.isMarker n <;> rfl

theorem markerNext_container (hn : n.isContainer = true) (cs after : List Node) :
    c.markerNext (n.withChildren cs :: after) = c.isMarker n := by
  rw [markerNext_cons, Node.isWhitespace_withChildren, Node.isWhitespace_of_isContainer hn,
    Node.isMarker_withChildren, if_neg Bool.false_ne_true]

namespace Relabels

/-- A node whose children come to the same comes to the same. -/
theorem level_withChildren (hg : Relabels c c g) {xs ys : List Node} (hn : n.isContainer = true)
    (hfixed : ∀ cs, g (n.withChildren cs) = n.withChildren (cs.map g)) (hmode : l.mode = .stopped)
    (hl : l.map g = l)
    (hbelow : c.levelAll xs [] l.inside = (c.levelAll ys [] l.inside).map g) (after : List Node) :
    c.level (n.withChildren xs) after l = (c.level (n.withChildren ys) after l).map g := by
  have hmet : (if c.isMarker n then l.meetMarker else l).map g =
      if c.isMarker n then l.meetMarker else l := by
    split
    · rw [Level.map_meetMarker hg.toKeepsShape, hl]
    · exact hl
  rw [level_container hn hmode, level_container hn hmode, hbelow, ← hg.ascend hfixed, hmet]

/-- Children that come to the same in the gap do so in all of the document. -/
theorem levelAll_fill (hg : Relabels c c g) {xs ys zs : List Node}
    (same : ∀ l : Level, l.mode = .stopped → l.assembly? = none → l.map g = l →
      c.levelAll xs [] l = (c.levelAll ys [] l).map g) (ctx : Context)
    (hfree : ∀ n ∈ ctx.fill zs, c.Undirected n) (hfixed : ∀ n ∈ ctx.fill zs, g n = n)
    (hmode : l.mode = .stopped) (hnone : l.assembly? = none) (hl : l.map g = l) :
    c.levelAll (ctx.fill xs) [] l = (c.levelAll (ctx.fill ys) [] l).map g := by
  induction ctx generalizing l with
  | gap => exact same l hmode hnone hl
  | within before node container inside after ih =>
    simp only [Context.fill, List.forall_mem_append, List.forall_mem_cons] at hfree hfixed
    obtain ⟨hfreeBefore, hfreeNode, -⟩ := hfree
    obtain ⟨hfixedBefore, hfixedNode, hfixedAfter⟩ := hfixed
    have hchild : ∀ m ∈ inside.fill zs,
        m ∈ (node.withChildren (inside.fill zs)).children?.getD [] := by
      rw [Node.children?_withChildren_of_isContainer container]
      exact fun _ hm => hm
    have hnext : c.markerNext (node.withChildren (inside.fill xs) :: after) =
        c.markerNext (node.withChildren (inside.fill ys) :: after) := by
      rw [markerNext_container container, markerNext_container container]
    simp only [Context.fill, levelAll_append, levelAll_cons, List.append_nil,
      levelAll_congr hnext before l]
    generalize hfront : c.levelAll before (node.withChildren (inside.fill ys) :: after) l = front
    have hfrontMode : front.mode = .stopped := by
      rw [← hfront, mode_levelAll hfreeBefore, hmode]
    have hfrontMap : front.map g = front := by
      rw [← hfront, ← hg.levelAll hfixedBefore, hl]
    have hbelow : c.levelAll (inside.fill xs) [] front.inside =
        (c.levelAll (inside.fill ys) [] front.inside).map g :=
      ih (fun m hm => hfreeNode.child (hchild m hm)) (fun m hm => hg.child hfixedNode (hchild m hm))
        hfrontMode rfl (by rw [Level.map_inside, hfrontMap])
    rw [← hg.levelAll hfixedAfter, hg.level_withChildren container
      (hg.withChildren_eq hfixedNode) hfrontMode hfrontMap hbelow]

/-- Documents that differ only in one place, where their children come to the same, are cut
alike. -/
theorem cut_fill (hg : Relabels c c g) {tree : Node} (hroot : tree.isContainer = true)
    {ctx : Context} {xs ys zs : List Node} (hfree : c.Undirected (tree.withChildren (ctx.fill zs)))
    (hfixed : g (tree.withChildren (ctx.fill zs)) = tree.withChildren (ctx.fill zs))
    (same : ∀ l : Level, l.mode = .stopped → l.assembly? = none → l.map g = l →
      c.levelAll xs [] l = (c.levelAll ys [] l).map g) :
    c.cut (tree.withChildren (ctx.fill xs)) =
      ((c.cut (tree.withChildren (ctx.fill ys))).1,
        g (c.cut (tree.withChildren (ctx.fill ys))).2) := by
  have hcontainer (cs : List Node) : (tree.withChildren cs).isContainer = true :=
    Node.isContainer_of_children? (Node.children?_withChildren_of_isContainer hroot cs)
  have hlevelOf (cs : List Node) : c.levelOf (tree.withChildren cs) = c.levelAll cs [] {} := by
    rw [levelOf, Node.children?_withChildren_of_isContainer hroot, Option.getD_some]
  have hchild : ∀ n ∈ ctx.fill zs, n ∈ (tree.withChildren (ctx.fill zs)).children?.getD [] := by
    rw [Node.children?_withChildren_of_isContainer hroot]
    exact fun _ hn => hn
  refine hg.cut (hcontainer _) (hcontainer _) ?_ fun cs => ?_
  · rw [hlevelOf, hlevelOf]
    exact hg.levelAll_fill same ctx (fun n hn => hfree.child (hchild n hn))
      (fun n hn => hg.child hfixed (hchild n hn)) rfl rfl rfl
  · rw [Node.withChildren_withChildren, Node.withChildren_withChildren,
      hg.withChildren_eq hfixed]

end Relabels
end Cutter
end SlideDeck
