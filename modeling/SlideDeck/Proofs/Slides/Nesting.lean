import SlideDeck.Proofs.Slides.Confinement
import SlideDeck.Proofs.Slides.Shape
import SlideDeck.Proofs.Slides.Survival

/-!
Nodes that are cut inside of nodes that are cut. Such a node is reported to its parent, which is cut
for that reason, and so on up to the top. So it stands in no slide, and no slide stands in a slide.
-/
namespace SlideDeck

/-- Only one of the entries names a child. -/
theorem Lays.eq_of_names {i k : Nat} {ns lost : List Node} {es : List Entry} {ps : List Piece}
    (h : Lays i ns es ps lost) {e e' : Entry} (he : e ∈ es) (he' : e' ∈ es)
    (hk : e.names k = true) (hk' : e'.names k = true) : e = e' := by
  by_contra hne
  obtain ⟨as, bs, rfl⟩ := List.append_of_mem he
  have hother : e' ∈ as ++ bs := by
    rcases List.mem_append.mp he' with hmem | hmem
    · exact List.mem_append_left _ hmem
    · exact List.mem_append_right _ ((List.mem_cons.mp hmem).resolve_left (Ne.symm hne))
  have hpos : 0 < (as ++ bs).countP (·.names k) := List.countP_pos_iff.mpr ⟨e', hother, hk'⟩
  have hcount := h.countP_names k
  have hle := Bool.toNat_le ((as ++ e :: bs).any (·.names k))
  rw [List.countP_append] at hpos
  rw [List.countP_append, List.countP_cons, if_pos hk] at hcount
  omega

theorem Goes.isSome {c : Cutter} {before nodes : List Node} {slot slot' : Option Plan}
    (h : Goes c before slot nodes slot') (hslot : slot.isSome = true) : slot'.isSome = true := by
  induction h with
  | refl => exact hslot
  | amend _ _ amends => cases amends <;> rfl
  | child _ ih => exact ih

namespace Cutter

variable {c : Cutter} {m : Node} {xs ys : List Node} {s s' : Progress} {site site' : Site}
  {q : Progress} {plan : Plan} {slot : Option Plan} {outside : List (Option Plan)}

/-- The walk goes below the node and leaves it with a plan, which is carried out. -/
structure Rewrites (c : Cutter) (s : Progress) (site : Site) : Prop where
  kept : (c.enter s site).removed = false
  entered : (c.enter s site).skipped = false
  planned : ∃ plan,
    (Walk.below c.visitor c.visitor_nonGrowing s site).1.closed.1 = some plan

/-- The child `m`, behind the children `xs` and before `ys`, stands by itself among the new children
of its parent. -/
structure Bare (c : Cutter) (s : Progress) (site : Site) (xs : List Node) (m : Node)
    (ys : List Node) : Prop where
  /-- An entry of the layout is for the child alone, and no other names it. -/
  planned : .keep (Walk.arrival c.visitor c.visitor_nonGrowing s site xs (m :: ys)).2.length ∈
    c.layout s site
  alone : ∀ e ∈ c.layout s site,
    e.names (Walk.arrival c.visitor c.visitor_nonGrowing s site xs (m :: ys)).2.length = true →
      e = .keep (Walk.arrival c.visitor c.visitor_nonGrowing s site xs (m :: ys)).2.length
  /-- So the child, as it was left, is a child of its parent, as that is left. -/
  stands : (Walk.left c.visitor c.visitor_nonGrowing
      (Walk.arrival c.visitor c.visitor_nonGrowing s site xs (m :: ys)).1
      (Walk.childSite c.visitor c.visitor_nonGrowing s site xs m ys)).node ∈
    (Walk.left c.visitor c.visitor_nonGrowing s site).node.children?.getD []

theorem keep_mem_planCut (c : Cutter) (n : Node) (place : Place) (plan : Plan) :
    Entry.keep place.index ∈ (c.planCut n place plan).entries := by
  unfold planCut
  simp only
  split
  · refine List.mem_append_right _ (List.mem_map.mpr ⟨place.index, ?_, rfl⟩)
    exact List.mem_range'_1.mpr ⟨Nat.le_refl _, by omega⟩
  · exact List.mem_append_right _ List.mem_cons_self

theorem Rewrites.isContainer (h : c.Rewrites s site) (hroot : s.rootExcluded = false) :
    site.node.isContainer = true := by
  obtain ⟨plan, hplan⟩ := h.planned
  cases hchildren : site.node.children? with
  | some children => exact Node.isContainer_of_children? hchildren
  | none =>
    obtain ⟨_, _, hend⟩ := tracks_leaving hroot h.kept h.entered
    have hlevel : (c.levelBelow site.node (.ofProgress s)).assembly? = none := by
      rw [levelBelow, hchildren, Option.getD_none, levelAll_nil]
      rfl
    have huncut := hend.uncut_iff.mpr hlevel
    rw [Progress.closed, huncut] at hplan
    cases hplan

/-- A node that is left with a plan is reported to its parent. -/
theorem slots_leave_of_plan (hslots : q.slots = some plan :: slot :: outside)
    (hmode : q.mode.suppressesDescent = false) {n : Node} (hn : n.isContainer = true) (depth : Nat)
    (place : Place) : ∃ n', (c.leave q ⟨n, depth, some place⟩).state.slots =
      some (c.planCut n' place (slot.getD {})) :: outside := by
  obtain ⟨mode, slots, slides, rootExcluded⟩ := q
  simp only at hslots hmode
  subst hslots
  obtain ⟨children, hchildren⟩ := Option.isSome_iff_exists.mp hn
  have hskip (p : Progress) (hp : p.mode = mode) (site : Site) : c.endSkip site p = p := by
    rw [endSkip, hp]
    cases mode <;> first | rfl | cases hmode
  refine ⟨n.withChildren ((plan.flush children children.length).build c.wrap children).1, ?_⟩
  simp only [leave, Progress.closed, List.head?_cons, Option.join_some, List.drop_succ_cons,
    List.drop_zero, finish, hchildren]
  rw [hskip _ rfl]
  rfl

theorem Rewrites.slots_subtree {p : Progress} {depth : Nat} {place : Place}
    (h : c.Rewrites p ⟨m, depth, some place⟩) (hroot : p.rootExcluded = false)
    (hslots : p.slots = slot :: outside) :
    let r := Walk.subtree c.visitor c.visitor_nonGrowing p ⟨m, depth, some place⟩
    r.1.rootExcluded = false ∧
      r.2 = some (Walk.left c.visitor c.visitor_nonGrowing p ⟨m, depth, some place⟩).node ∧
      ∃ plan, r.1.slots = some plan :: outside ∧ .keep place.index ∈ plan.entries := by
  intro r
  obtain ⟨hbelow, inner, hinner⟩ := slots_below hslots hroot h.kept h.entered
  obtain ⟨plan, hplan⟩ := h.planned
  have hawake := quiet_below hroot h.kept h.entered hplan
  have hsome : inner = some plan := by
    rw [Progress.closed, hinner] at hplan
    exact hplan
  rw [hsome] at hinner
  have hcontainer (cs : List Node) : (m.withChildren cs).isContainer = true := by
    have hm := h.isContainer hroot
    exact Node.isContainer_of_children? (Node.children?_withChildren_of_isContainer hm cs)
  obtain ⟨n', hleave⟩ := slots_leave_of_plan (c := c) hinner hawake
    (hcontainer (Walk.below c.visitor c.visitor_nonGrowing p ⟨m, depth, some place⟩).2) depth place
  have hr : r = _ := subtree_of_entered h.kept h.entered
  rw [hr]
  refine ⟨?_, rfl, ?_⟩
  · rw [Walk.left, leaving_eq]
    exact (c.rootExcluded_leave _ _ _ _).trans hbelow
  · rw [Walk.left, leaving_eq]
    exact ⟨_, hleave, c.keep_mem_planCut n' place _⟩

theorem left_of_unplanned
    (h : (Walk.below c.visitor c.visitor_nonGrowing s site).1.closed.1 = none) :
    (Walk.left c.visitor c.visitor_nonGrowing s site).node =
      site.node.withChildren (Walk.below c.visitor c.visitor_nonGrowing s site).2 := by
  rw [Walk.left, leaving_eq]
  show (c.leave _ _).node = _
  simp only [leave, h]

section Parent

variable (hroot : s.rootExcluded = false) (kept : (c.enter s site).removed = false)
  (entered : (c.enter s site).skipped = false)
  (awake : (Walk.below c.visitor c.visitor_nonGrowing s site).1.mode.suppressesDescent = false)
  (children : site.node.children? = some (xs ++ m :: ys))
  (h : c.Rewrites (Walk.arrival c.visitor c.visitor_nonGrowing s site xs (m :: ys)).1
    (Walk.childSite c.visitor c.visitor_nonGrowing s site xs m ys))

include hroot kept entered awake children h

/-- From the report of a child that is cut, the plan of its parent goes on to the end. -/
theorem exists_plan_of_rewrites :
    ∃ plan, (Walk.below c.visitor c.visitor_nonGrowing s site).1.closed.1 = some plan ∧
      .keep (Walk.arrival c.visitor c.visitor_nonGrowing s site xs (m :: ys)).2.length ∈
        plan.entries := by
  obtain ⟨_, outside, harrival⟩ := tracks_child hroot kept entered xs (m :: ys)
  obtain ⟨slot, hslots, -⟩ := harrival.slots
  obtain ⟨hroot', hleft, plan, hplan, hkeep⟩ := h.slots_subtree harrival.rootExcluded hslots
  obtain ⟨slot', hslot', hgoes⟩ := goes_siblings (c := c) hplan hroot' (site.depth + 1) []
    ((Walk.arrival c.visitor c.visitor_nonGrowing s site xs (m :: ys)).2 ++ [(Walk.left c.visitor
      c.visitor_nonGrowing (Walk.arrival c.visitor c.visitor_nonGrowing s site xs (m :: ys)).1
      (Walk.childSite c.visitor c.visitor_nonGrowing s site xs m ys)).node]) ys
  have hbelow := Walk.below_eq c.visitor_nonGrowing ((c.children?_enter s site).trans children)
  simp only [Walk.childSite] at hleft hbelow hslot' hgoes
  rw [hleft, Option.toList_some] at hbelow
  rw [← hbelow] at hslot' hgoes
  have hgoes := hgoes.resolve_left fun hs => Bool.false_ne_true (awake.symm.trans hs)
  obtain ⟨plan', rfl⟩ := Option.isSome_iff_exists.mp (hgoes.isSome rfl)
  have hextends := hgoes.plan_extends
    (k := (Walk.arrival c.visitor c.visitor_nonGrowing s site xs (m :: ys)).2.length) (by simp)
  refine ⟨plan', ?_, hextends.entries.subset hkeep⟩
  rw [Progress.closed, hslot']
  rfl

/-- A child that is cut stands by itself, and its parent is cut. -/
theorem Rewrites.parent : c.Rewrites s site ∧ c.Bare s site xs m ys := by
  obtain ⟨plan, hplan, hkeep⟩ := exists_plan_of_rewrites hroot kept entered awake children h
  obtain ⟨lost, hlays⟩ := lays_layout hroot kept entered
  have hplanned := mem_layout hplan hkeep
  have hvisit := subtree_of_entered h.kept h.entered
  have hprefix := Walk.prefix_below c.visitor_nonGrowing ((c.children?_enter s site).trans children)
  refine ⟨⟨kept, entered, plan, hplan⟩, hplanned, fun e he hnames =>
    hlays.eq_of_names he hplanned hnames (beq_self_eq_true _), ?_⟩
  obtain ⟨behind, hbehind⟩ := hprefix
  rw [hvisit, Option.toList_some, List.append_assoc, List.singleton_append] at hbehind
  rw [left_node_layout hroot kept entered, Node.children?_withChildren_of_isContainer
    (Node.isContainer_of_children? children), Option.getD_some, List.mem_flatMap]
  refine ⟨_, hplanned, ?_⟩
  rw [Entry.shown, ← hbehind, List.getElem?_append_right (Nat.le_refl _), Nat.sub_self]
  exact List.mem_singleton.mpr rfl

end Parent

/-- No directive that takes back what was planned fires on the walk over the document. -/
def Undiscarded (c : Cutter) (tree : Node) : Prop :=
  ∀ s site d xs n ys, Walk.Comes c.visitor c.visitor_nonGrowing {} tree s site →
    c.Fires s site d xs n ys → d.discardsParent = false

variable {tree n' w : Node}

theorem mem_preorder_of_comes (comes : Walk.Comes c.visitor c.visitor_nonGrowing {} tree s site) :
    site.node ∈ tree.preorder := by
  induction comes with
  | top => exact tree.mem_preorder_self
  | child _ _ _ children ih =>
    exact Node.mem_preorder_trans ih (Node.mem_preorder_of_child
      (Node.mem_children ((c.children?_enter _ _).symm.trans children)) (Node.mem_preorder_self _))

/-- Nothing is taken back in a document without such directives. -/
theorem undiscarded_of_directives
    (h : ∀ n ∈ tree.preorder, (c.directive? n).all (!·.discardsParent) = true) :
    c.Undiscarded tree := by
  intro s site d xs n ys comes fires
  obtain ⟨mode, hfires⟩ := fires.fires
  have hn := h n (Node.mem_preorder_trans (mem_preorder_of_comes comes)
    (Node.mem_preorder_of_child (Node.mem_children fires.children) n.mem_preorder_self))
  rw [(transition_of_fires? hfires).1, Option.all_some] at hn
  simpa using hn

section Document

variable (hkeeps : c.Undiscarded tree)

include hkeeps

theorem Undiscarded.awake_below (comes : Walk.Comes c.visitor c.visitor_nonGrowing {} tree s site)
    (kept : (c.enter s site).removed = false) (entered : (c.enter s site).skipped = false) :
    (Walk.below c.visitor c.visitor_nonGrowing s site).1.mode.suppressesDescent = false := by
  cases hs : (Walk.below c.visitor c.visitor_nonGrowing s site).1.mode.suppressesDescent with
  | false => rfl
  | true =>
    obtain ⟨d, xs, n, ys, fires, discards⟩ :=
      exists_fires_of_suppressed (rootExcluded_of_comes comes) kept entered hs
    exact discards.symm.trans (hkeeps s site d xs n ys comes fires)

theorem Undiscarded.parent (comes : Walk.Comes c.visitor c.visitor_nonGrowing {} tree s site)
    (kept : (c.enter s site).removed = false) (entered : (c.enter s site).skipped = false)
    (children : site.node.children? = some (xs ++ m :: ys))
    (h : c.Rewrites (Walk.arrival c.visitor c.visitor_nonGrowing s site xs (m :: ys)).1
      (Walk.childSite c.visitor c.visitor_nonGrowing s site xs m ys)) :
    c.Rewrites s site ∧ c.Bare s site xs m ys :=
  Rewrites.parent (rootExcluded_of_comes comes) kept entered
    (hkeeps.awake_below comes kept entered) children h

/-- All nodes above a node that is cut are cut. -/
theorem Undiscarded.rewrites (comes : Walk.Comes c.visitor c.visitor_nonGrowing {} tree s site)
    (reaches : Walk.Reaches c.visitor c.visitor_nonGrowing s site s' site')
    (h : c.Rewrites s' site') : c.Rewrites s site := by
  induction reaches with
  | here => exact h
  | child reaches kept entered children ih =>
    exact ih (hkeeps.parent (comes.reaches reaches) kept entered
      ((c.children?_enter _ _).symm.trans children) h).1

/-- A node in which a slide was built is cut. -/
theorem Undiscarded.rewrites_of_slide (hlacks : tree.Lacks c.wrapper)
    (comes : Walk.Comes c.visitor c.visitor_nonGrowing {} tree s site)
    (hn' : (Walk.subtree c.visitor c.visitor_nonGrowing s site).2 = some n')
    (hw : w ∈ n'.preorder) (hslide : w.isElementNamed c.wrapper = true) : c.Rewrites s site := by
  generalize hsize : site.node.size = size
  induction size using Nat.strongRecOn generalizing s site n' with
  | ind size ih =>
    subst hsize
    have hsite := lacks_of_comes hlacks comes
    have hvisits := c.visits_subtree s site
    generalize Walk.subtree c.visitor c.visitor_nonGrowing s site = r at hn' hvisits
    cases hvisits with
    | removed removed => cases hn'
    | skipped kept skipped =>
      cases hn'
      rw [hsite w hw] at hslide
      cases hslide
    | left kept entered =>
      cases hn'
      cases hplan : (Walk.below c.visitor c.visitor_nonGrowing s site).1.closed.1 with
      | some plan => exact ⟨kept, entered, plan, hplan⟩
      | none =>
        rw [left_of_unplanned hplan, Node.preorder_eq] at hw
        rcases List.mem_cons.mp hw with rfl | hw
        · rw [Node.isElementNamed_withChildren, hsite _ site.node.mem_preorder_self] at hslide
          cases hslide
        · obtain ⟨x, hx, hwx⟩ := Node.mem_preorderAll.mp hw
          have hx : x ∈ (Walk.below c.visitor c.visitor_nonGrowing s site).2 := by
            rw [Node.children?_withChildren] at hx
            cases hchildren : site.node.children? with
            | none => simp [hchildren] at hx
            | some children => simpa [hchildren] using hx
          obtain ⟨xs, n, ys, hchildren, hvisit⟩ := Walk.mem_below c.visitor_nonGrowing hx
          have hsite' : site.node.children? = some (xs ++ n :: ys) :=
            (c.children?_enter s site).symm.trans hchildren
          have hlt : n.size < site.node.size := Node.size_lt_of_mem (Node.mem_children hsite')
          have hchild := ih n.size hlt (.child comes kept entered hchildren) hvisit hwx rfl
          exact (hkeeps.parent comes kept entered hsite' hchild).1

/-- The nodes in a slide hold no slide. -/
theorem Undiscarded.lacks_of_wraps (hlacks : tree.Lacks c.wrapper)
    (comes : Walk.Comes c.visitor c.visitor_nonGrowing {} tree s site) {front core back : List Node}
    (h : c.Wraps s site front core back) : ∀ m ∈ core, m.Lacks c.wrapper := by
  intro m hm w hw
  obtain ⟨cs, ds, rfl⟩ := List.append_of_mem hm
  by_contra hslide
  have hsplit : (Walk.below c.visitor c.visitor_nonGrowing s site).2 =
      (front ++ cs) ++ m :: (ds ++ back) := by
    rw [h.children]
    simp only [List.append_assoc, List.cons_append]
  obtain ⟨xs, n, ys, hchildren, hfront, hvisit⟩ := Walk.split_below c.visitor_nonGrowing hsplit
  have hchild := hkeeps.rewrites_of_slide hlacks (.child comes h.kept h.entered hchildren) hvisit hw
    (by simpa using hslide)
  have hbare := (hkeeps.parent comes h.kept h.entered
    ((c.children?_enter s site).symm.trans hchildren) hchild).2
  have hkeep := hbare.alone _ h.planned (by
    rw [hfront]
    simp [Entry.names])
  cases hkeep

end Document

theorem built_of_walk (hlacks : tree.Lacks c.wrapper)
    (hw : w ∈ (c.walk tree).2.elementsNamed c.wrapper) : c.Built tree w := by
  rw [Node.elementsNamed_eq, List.mem_filter, walk, Walk.toEnd_eq] at hw
  cases hvisit : (Walk.subtree c.visitor c.visitor_nonGrowing {} (Site.top tree)).2 with
  | some n' =>
    rw [hvisit] at hw
    exact built_of_subtree hlacks .top hvisit hw.1 hw.2
  | none =>
    rw [hvisit] at hw
    obtain ⟨hmem, hslide⟩ := hw
    rw [List.mem_singleton.mp hmem] at hslide
    cases hslide

/-- A document that became a single slide has no other. -/
theorem exists_single_of_fellBack (hfresh : tree.elementsNamed c.wrapper = [])
    (hslides : (c.cut tree).1.slides = 1) {children : List Node}
    (hchildren : (c.walk tree).2.children? = some children)
    (hcut : (c.cut tree).2 = (c.walk tree).2.withChildren (c.wrapWhole children)) :
    ∃ slide, (c.cut tree).2.elementsNamed c.wrapper = [slide] := by
  have hroot : tree.isContainer = true := isContainer_of_slides (c := c) (by omega)
  exact ⟨_, elementsNamed_of_fellBack hroot hfresh hslides hchildren hcut⟩

/-- Where no directive takes back what was planned, slides are not nested. Unless the document
became a single slide, every node that is cut stands by itself among the new children of its
parent, and so do all nodes above it, up to the top. -/
theorem nested_cuts_bare (c : Cutter) {tree : Node} (hfresh : tree.elementsNamed c.wrapper = [])
    (hkeeps : c.Undiscarded tree) :
    let out := (c.cut tree).2
    (∀ w ∈ out.elementsNamed c.wrapper, ∀ m ∈ w.children?.getD [],
      m.elementsNamed c.wrapper = []) ∧
    ((c.cut tree).1.fellBack = false →
      (tree.isContainer = true →
        out = (Walk.left c.visitor c.visitor_nonGrowing {} (Site.top tree)).node) ∧
      ∀ s site xs m ys, Walk.Comes c.visitor c.visitor_nonGrowing {} tree s site →
        (c.enter s site).removed = false → (c.enter s site).skipped = false →
        site.node.children? = some (xs ++ m :: ys) →
        ∀ s' site', Walk.Reaches c.visitor c.visitor_nonGrowing
            (Walk.arrival c.visitor c.visitor_nonGrowing s site xs (m :: ys)).1
            (Walk.childSite c.visitor c.visitor_nonGrowing s site xs m ys) s' site' →
          c.Rewrites s' site' → c.Bare s site xs m ys) := by
  intro out
  have hlacks := Node.lacks_iff.mpr hfresh
  rcases c.cut_cases tree with ⟨hfellBack, hcut⟩ | ⟨hfellBack, hslides, children, hchildren, hcut⟩
  · refine ⟨fun w hw m hm => ?_, fun _ => ⟨fun hroot => ?_, ?_⟩⟩
    · rw [show out = _ from hcut] at hw
      obtain ⟨s, site, front, core, back, comes, hwraps, rfl⟩ := built_of_walk hlacks hw
      exact Node.lacks_iff.mp (hkeeps.lacks_of_wraps hlacks comes hwraps m hm)
    · have hwalk := walk_eq_left (c := c) hroot
      rw [subtree_of_entered (kept_top hroot) (entered_top hroot)] at hwalk
      exact hcut.trans (Option.some.inj hwalk).symm
    · intro s site xs m ys comes kept entered children s' site' reaches h
      have hchild := hkeeps.rewrites (.child comes kept entered
        ((c.children?_enter s site).trans children)) reaches h
      exact (hkeeps.parent comes kept entered children hchild).2
  · refine ⟨fun w hw => ?_, fun h => ?_⟩
    · obtain ⟨slide, hsingle⟩ := exists_single_of_fellBack hfresh hslides hchildren hcut
      rw [show out.elementsNamed c.wrapper = _ from hsingle, List.mem_singleton] at hw
      exact Node.elementsNamed_below (hw ▸ hsingle)
    · rw [hfellBack] at h
      cases h

/-- A region that starts in a node that is cut, behind a child that is cut. -/
theorem nested_cuts_bare_open :
    let c := Cutter.ofKeyword "hr" "Slide" ⟨[]⟩ "skip"
    let hr : Node := .element "hr" ⟨[]⟩ []
    let inner : Node := .component (some "Inner") ⟨[]⟩ [.text "a", hr, .text "b"]
    let outer : Node := .component (some "Outer") ⟨[]⟩ [inner, .note "skip start", hr]
    let tree : Node := .root [outer, .note "skip stop", .text "c"]
    tree.elementsNamed c.wrapper = [] ∧ c.Undiscarded tree ∧
      (∀ w ∈ (c.cut tree).2.elementsNamed c.wrapper, ∀ m ∈ w.children?.getD [],
        m.elementsNamed c.wrapper = []) ∧
      c.Bare {} (Site.top tree) [] outer [.note "skip stop", .text "c"] := by
  intro c hr inner outer tree
  have hfresh : tree.elementsNamed c.wrapper = [] := by
    rw [Node.elementsNamed_eq]
    rfl
  have hkeeps : c.Undiscarded tree := undiscarded_of_directives (by decide +kernel)
  obtain ⟨hflat, hbare⟩ := c.nested_cuts_bare hfresh hkeeps
  let a := Walk.arrival c.visitor c.visitor_nonGrowing {} (Site.top tree) []
    [outer, .note "skip stop", .text "c"]
  let place := Walk.childSite c.visitor c.visitor_nonGrowing {} (Site.top tree) [] outer
    [.note "skip stop", .text "c"]
  have hchildren : (c.visitor.enter a.1 place).node.children? =
      some ([] ++ inner :: [.note "skip start", hr]) := rfl
  have hreaches : Walk.Reaches c.visitor c.visitor_nonGrowing a.1 place _ _ :=
    .child .here (by decide +kernel) (by decide +kernel) hchildren
  refine ⟨hfresh, hkeeps, hflat, (hbare (by decide +kernel)).2 {} (Site.top tree) [] outer _ .top
    (by decide +kernel) (by decide +kernel) rfl _ _ hreaches
    ⟨by decide +kernel, by decide +kernel, ?_⟩⟩
  exact Option.isSome_iff_exists.mp (by decide +kernel)

end Cutter
end SlideDeck
