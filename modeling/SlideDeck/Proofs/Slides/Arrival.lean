import SlideDeck.Proofs.Slides.Agreement

/-!
The walk in the midst of a document: in what state it comes to a child of a node, and what the
node is when it is left, said by levels.
-/
namespace SlideDeck

theorem Progress.rootExcluded_plan (p : Progress) (change : Plan → Plan) :
    (p.plan change).rootExcluded = p.rootExcluded := by
  unfold plan
  split <;> rfl

/-- What the walk below a node depends on of the level around it, when the walk comes to the node in
a state. -/
def Level.ofProgress (s : Progress) : Level := { mode := s.mode, slides := s.slides }

namespace Cutter

variable {c : Cutter} {n : Node} {l : Level} {s : Progress} {site : Site}

/-- The ways to visit a node, with the state behind it and what stands in its place. -/
inductive Visits (c : Cutter) (s : Progress) (site : Site) : Progress × Option Node → Prop
  | removed (removed : (c.enter s site).removed = true) :
      Visits c s site ((c.enter s site).state, none)
  | skipped (kept : (c.enter s site).removed = false)
      (skipped : (c.enter s site).skipped = true) :
      Visits c s site ((c.enter s site).state, some site.node)
  | left (kept : (c.enter s site).removed = false) (entered : (c.enter s site).skipped = false) :
      Visits c s site ((Walk.left c.visitor c.visitor_nonGrowing s site).state,
        some (Walk.left c.visitor c.visitor_nonGrowing s site).node)

theorem visits_subtree (c : Cutter) (s : Progress) (site : Site) :
    Visits c s site (Walk.subtree c.visitor c.visitor_nonGrowing s site) := by
  have hentered : c.visitor.enter s site = c.enter s site := rfl
  have hleft : (Walk.left c.visitor c.visitor_nonGrowing s site).removed = false := rfl
  rw [Walk.subtree_eq, hentered, hleft, if_neg Bool.false_ne_true]
  cases hr : (c.enter s site).removed with
  | true =>
    rw [if_pos rfl]
    exact .removed hr
  | false =>
    rw [if_neg Bool.false_ne_true]
    cases hs : (c.enter s site).skipped with
    | true =>
      rw [if_pos rfl, c.enter_node]
      exact .skipped hr hs
    | false =>
      rw [if_neg Bool.false_ne_true]
      exact .left hr hs

theorem subtree_of_entered (kept : (c.enter s site).removed = false)
    (entered : (c.enter s site).skipped = false) :
    Walk.subtree c.visitor c.visitor_nonGrowing s site =
      ((Walk.left c.visitor c.visitor_nonGrowing s site).state,
        some (Walk.left c.visitor c.visitor_nonGrowing s site).node) := by
  have hvisits := c.visits_subtree s site
  generalize Walk.subtree c.visitor c.visitor_nonGrowing s site = r at hvisits ⊢
  cases hvisits with
  | removed removed => exact absurd (kept.symm.trans removed) Bool.false_ne_true
  | skipped _ skipped => exact absurd (entered.symm.trans skipped) Bool.false_ne_true
  | left => rfl

theorem children?_enter (c : Cutter) (s : Progress) (site : Site) :
    (c.enter s site).node.children? = site.node.children? :=
  congrArg Node.children? (c.enter_node s site)

theorem leaving_eq (c : Cutter) (s : Progress) (site : Site) :
    Walk.leaving c.visitor c.visitor_nonGrowing s site = { site with
      node := site.node.withChildren (Walk.below c.visitor c.visitor_nonGrowing s site).2 } := by
  rw [Walk.leaving]
  congr 2
  exact c.enter_node s site

/-- A node that the walk goes below is as it was, and gets a slot of its own. -/
theorem enter_of_entered (kept : (c.enter s site).removed = false)
    (entered : (c.enter s site).skipped = false) :
    ∃ p : Progress, c.enter s site = ⟨p.opened, site.node, false, false⟩ ∧ p.mode = s.mode ∧
      p.slides = s.slides ∧ p.rootExcluded = s.rootExcluded := by
  unfold enter at kept entered ⊢
  by_cases hs : s.mode.suppressesDescent = true
  · rw [if_pos hs] at entered
    cases entered
  · rw [if_neg hs] at kept entered ⊢
    by_cases hm : (s.mode.splits && site.hasParent && c.isMarker site.node) = true
    · rw [if_pos hm]
      refine ⟨cutAt site s, rfl, ?_⟩
      unfold cutAt Progress.plan
      split
      · exact ⟨rfl, rfl, rfl⟩
      · split <;> exact ⟨rfl, rfl, rfl⟩
    · rw [if_neg hm] at kept ⊢
      cases hf : c.fires? s.mode site.node with
      | some r =>
        rw [hf] at kept
        cases kept
      | none => exact ⟨s, rfl, rfl, rfl, rfl⟩

/-- Among the children of a node the slots for the nodes around it stay as they were when it was
entered. -/
theorem tracks_outside (es : List (Event Progress)) (hmode : s.mode = l.mode)
    (hslides : s.slides = l.slides) (hdropped : es.flatMap Event.dropped = l.dropped)
    (hroot : s.rootExcluded = false) (kept : (c.enter s site).removed = false)
    (entered : (c.enter s site).skipped = false) (nodes todo : List Node) :
    let a := Walk.arrival c.visitor c.visitor_nonGrowing s site nodes todo
    ∃ es', Tracks c (a.1, es') (c.enter s site).state.slots.tail a.2 todo
      (c.levelAll nodes todo l.inside) := by
  obtain ⟨p, henter, hpmode, hpslides, hproot⟩ := enter_of_entered kept entered
  have hinside := tracks_inside (c := c) (l := l) es (nodes ++ todo) (hpmode.trans hmode)
    (hpslides.trans hslides) hdropped (hproot.trans hroot)
  have htracks := c.tracks_siblings nodes (site.depth + 1) hinside
  have htraced :=
    Walk.siblings_traced c.visitor_nonGrowing (site.depth + 1) todo p.opened es [] nodes
  intro a
  have ha : a = Walk.siblings c.visitor c.visitor_nonGrowing (site.depth + 1) todo p.opened []
      nodes := by
    show Walk.siblings _ _ _ _ (c.enter s site).state _ _ = _
    rw [henter]
  rw [ha, ← htraced, henter]
  exact ⟨_, htracks⟩

/-- The walk comes to the children of a node at the level that belongs there. -/
theorem tracks_arrival (es : List (Event Progress)) (hmode : s.mode = l.mode)
    (hslides : s.slides = l.slides) (hdropped : es.flatMap Event.dropped = l.dropped)
    (hroot : s.rootExcluded = false) (kept : (c.enter s site).removed = false)
    (entered : (c.enter s site).skipped = false) (nodes todo : List Node) :
    let a := Walk.arrival c.visitor c.visitor_nonGrowing s site nodes todo
    ∃ es' outside, Tracks c (a.1, es') outside a.2 todo (c.levelAll nodes todo l.inside) := by
  obtain ⟨es', htracks⟩ :=
    tracks_outside es hmode hslides hdropped hroot kept entered nodes todo
  exact ⟨es', _, htracks⟩

theorem below_eq_arrival (c : Cutter) (s : Progress) (site : Site) :
    Walk.below c.visitor c.visitor_nonGrowing s site =
      Walk.arrival c.visitor c.visitor_nonGrowing s site (site.node.children?.getD []) [] := by
  have hnode : (c.visitor.enter s site).node = site.node := c.enter_node s site
  rw [Walk.below, hnode, Walk.arrival]

theorem tracks_end (es : List (Event Progress)) (hmode : s.mode = l.mode)
    (hslides : s.slides = l.slides) (hdropped : es.flatMap Event.dropped = l.dropped)
    (hroot : s.rootExcluded = false) (kept : (c.enter s site).removed = false)
    (entered : (c.enter s site).skipped = false) :
    let b := Walk.below c.visitor c.visitor_nonGrowing s site
    ∃ es' outside, Tracks c (b.1, es') outside b.2 [] (c.levelBelow site.node l) := by
  rw [below_eq_arrival]
  exact tracks_arrival es hmode hslides hdropped hroot kept entered _ _

theorem tracks_child (hroot : s.rootExcluded = false) (kept : (c.enter s site).removed = false)
    (entered : (c.enter s site).skipped = false) (nodes todo : List Node) :
    let a := Walk.arrival c.visitor c.visitor_nonGrowing s site nodes todo
    ∃ es outside, Tracks c (a.1, es) outside a.2 todo
      (c.levelAll nodes todo (Level.ofProgress s).inside) :=
  tracks_arrival [] rfl rfl rfl hroot kept entered nodes todo

theorem tracks_leaving (hroot : s.rootExcluded = false) (kept : (c.enter s site).removed = false)
    (entered : (c.enter s site).skipped = false) :
    let b := Walk.below c.visitor c.visitor_nonGrowing s site
    ∃ es outside, Tracks c (b.1, es) outside b.2 [] (c.levelBelow site.node (.ofProgress s)) :=
  tracks_end [] rfl rfl rfl hroot kept entered

/-- As long as the walk has not left the document, the document is not kept out of slides. -/
theorem rootExcluded_of_comes {tree : Node}
    (h : Walk.Comes c.visitor c.visitor_nonGrowing {} tree s site) : s.rootExcluded = false := by
  induction h with
  | top => rfl
  | @child s site xs ys n parent kept entered children ih =>
    obtain ⟨es', outside, htracks⟩ := tracks_child ih kept entered xs (n :: ys)
    exact htracks.rootExcluded

theorem node_leave {q : Progress} {slot : Option Plan} {outside : List (Option Plan)}
    (hslots : q.slots = slot :: outside) (h : Agrees c l.done [] slot l.assembly?)
    (hn : n.isContainer = true) (depth : Nat) (place? : Option Place) :
    (c.leave q ⟨n.withChildren l.done, depth, place?⟩).node = n.withChildren (c.childrenOf l) := by
  have hclosed : q.closed = (slot, { q with slots := outside }) := by
    rw [Progress.closed, hslots]
    rfl
  cases hassembly : l.assembly? with
  | none =>
    rw [hassembly] at h
    cases h
    rw [c.childrenOf_of_none hassembly]
    simp only [leave, hclosed]
  | some a =>
    rw [hassembly] at h
    cases h with
    | @both plan _ stands =>
      have hfinish := c.finish_eq stands hn depth place? { q with slots := outside }
      simp only [leave, hclosed, hfinish]
      rw [childrenOf, l.pieces_of_some hassembly]

/-- A node that the walk went below is left with the children of its level. -/
theorem left_node (hmode : s.mode = l.mode) (hslides : s.slides = l.slides)
    (hdropped : l.dropped = []) (hroot : s.rootExcluded = false)
    (kept : (c.enter s site).removed = false) (entered : (c.enter s site).skipped = false)
    (hn : site.node.isContainer = true) :
    (Walk.left c.visitor c.visitor_nonGrowing s site).node =
      site.node.withChildren (c.childrenOf (c.levelBelow site.node l)) := by
  obtain ⟨es, outside, hend⟩ := tracks_end [] hmode hslides hdropped.symm hroot kept entered
  obtain ⟨slot, hslots, hagree⟩ := hend.slots
  have hleaving : Walk.leaving c.visitor c.visitor_nonGrowing s site =
      ⟨site.node.withChildren (c.levelBelow site.node l).done, site.depth, site.place?⟩ := by
    rw [leaving_eq, hend.done]
  rw [← node_leave hslots (by rwa [hend.done]) hn site.depth site.place?, ← hleaving]
  rfl

theorem left_node_of_leaf (hroot : s.rootExcluded = false)
    (kept : (c.enter s site).removed = false) (entered : (c.enter s site).skipped = false)
    (hleaf : site.node.children? = none) :
    (Walk.left c.visitor c.visitor_nonGrowing s site).node = site.node := by
  obtain ⟨_, outside, hend⟩ := tracks_leaving hroot kept entered
  obtain ⟨slot, hslots, hagree⟩ := hend.slots
  rw [levelBelow, hleaf, Option.getD_none, levelAll_nil] at hagree
  cases hagree
  have hclosed : (Walk.below c.visitor c.visitor_nonGrowing s site).1.closed.1 = none := by
    rw [Progress.closed, hslots]
    rfl
  rw [Walk.left, leaving_eq, Node.withChildren_of_leaf hleaf]
  show (c.leave _ site).node = site.node
  simp only [leave, hclosed]

/-- A child that is not taken out stands in its place with the children of its level. -/
theorem subtree_of_done {a : Progress × List Node} {es : List (Event Progress)}
    {outside : List (Option Plan)} {todo : List Node} {n' : Node}
    (h : Tracks c (a.1, es) outside a.2 (n :: todo) l)
    (hdone : (c.level n todo l).done = l.done ++ [n']) (depth : Nat) :
    (Walk.subtree c.visitor c.visitor_nonGrowing a.1 ⟨n, depth, some ⟨a.2, todo⟩⟩).2 =
      some n' := by
  have hvisit := (c.visitTracks n _ _ _ _ _ depth h).done.symm.trans hdone
  have hsubtree := Walk.unrecorded c.visitor_nonGrowing n a.1 es depth (some ⟨a.2, todo⟩)
  rw [h.done] at hvisit
  rw [← hsubtree]
  exact Option.toList_eq_singleton_iff.mp (List.append_cancel_left hvisit)

end Cutter
end SlideDeck
