import SlideDeck.Proofs.Slides.Arrival
import SlideDeck.Proofs.Slides.Counting

/-!
Nodes in which `inner` or `outer` fires. What was planned for such a node is taken back, and its
children are left as they are from there on. What was built before in one of its children is not
taken back, so the node holds a slide just when one of the children before the comment does.
-/
namespace SlideDeck
namespace Cutter

/-- The directive `d` fires at the child `n` of a node that the walk goes below, behind the children
`xs`. -/
structure Fires (c : Cutter) (s : Progress) (site : Site) (d : Directive) (xs : List Node)
    (n : Node) (ys : List Node) : Prop where
  kept : (c.enter s site).removed = false
  entered : (c.enter s site).skipped = false
  children : site.node.children? = some (xs ++ n :: ys)
  fires : ∃ mode, c.fires?
    (Walk.arrival c.visitor c.visitor_nonGrowing s site xs (n :: ys)).1.mode n = some (d, mode)

variable {c : Cutter} {n : Node} {xs ys : List Node} {l : Level} {s : Progress} {site : Site}
  {d : Directive} {mode : SkipMode}

/-- Where no child is visited, all children that come are passed. -/
theorem levelAll_of_suppressed (hs : l.mode.suppressesDescent = true) (hnone : l.assembly? = none)
    (nodes beyond : List Node) :
    c.levelAll nodes beyond l = { l with done := l.done ++ nodes } := by
  induction nodes generalizing l with
  | nil => rw [levelAll_nil, List.append_nil]
  | cons n rest ih =>
    have hpass : c.level n (rest ++ beyond) l = { l with done := l.done ++ [n] } := by
      rw [level_eq, around, if_pos hs, Level.pass, hnone]
      rfl
    rw [levelAll_cons, hpass, ih (l := { l with done := l.done ++ [n] }) hs hnone]
    simp only [List.append_assoc, List.singleton_append]

theorem awake_of_fires? (hf : c.fires? l.mode n = some (d, mode)) :
    l.mode.suppressesDescent = false := by
  have htransition := (transition_of_fires? hf).2
  cases hmode : l.mode with
  | stopped => rfl
  | start => rfl
  | outer => rw [hmode] at htransition; cases htransition
  | inner => rw [hmode] at htransition; cases htransition

theorem level_of_fires? (hf : c.fires? l.mode n = some (d, mode)) (after : List Node) :
    c.level n after l = l.follow d mode := by
  have hawake := awake_of_fires? hf
  have hmarker := (of_fires? hf).2
  rw [level_eq, around, hawake, hmarker, hf]
  simp

/-- The mode that follows a directive which takes back what was planned. -/
theorem mode_of_fires? (hf : c.fires? l.mode n = some (d, mode)) (hd : d.discardsParent = true) :
    mode.suppressesDescent = true ∧ (mode = .outer ↔ d = .outer) := by
  have htransition := (transition_of_fires? hf).2
  generalize l.mode = before at htransition
  cases d with
  | start => cases hd
  | stop => cases hd
  | outer =>
    cases before <;> cases htransition
    exact ⟨rfl, by simp⟩
  | inner =>
    cases before <;> cases htransition
    exact ⟨rfl, by simp⟩

/-- Behind a directive that takes back what was planned, the children are as they were. -/
theorem levelAll_of_fires? (hf : c.fires? (c.levelAll xs (n :: ys) l).mode n = some (d, mode))
    (hd : d.discardsParent = true) :
    c.levelAll (xs ++ n :: ys) [] l = { c.levelAll xs (n :: ys) l with
      mode := mode, assembly? := none, done := (c.levelAll xs (n :: ys) l).done ++ ys } := by
  have hs := (mode_of_fires? hf hd).1
  rw [levelAll_append, List.append_nil, levelAll_cons, List.append_nil, level_of_fires? hf,
    Level.follow, hd, if_pos rfl, levelAll_of_suppressed hs rfl]

/-- A level gets into a mode that ends the descent by a directive that fires at one of its
children. -/
theorem exists_fires?_of_suppressed {nodes todo : List Node} (hl : Coherent c l (nodes ++ todo))
    (hawake : l.mode.suppressesDescent = false)
    (hs : (c.levelAll nodes todo l).mode.suppressesDescent = true) :
    ∃ xs n ys d, nodes = xs ++ n :: ys ∧ c.fires? (c.levelAll xs (n :: ys ++ todo) l).mode n =
      some (d, (c.levelAll nodes todo l).mode) := by
  induction nodes generalizing l with
  | nil =>
    rw [levelAll_nil, hawake] at hs
    cases hs
  | cons n rest ih =>
    rw [levelAll_cons] at hs ⊢
    have hlevel : Coherent c (c.level n (rest ++ todo) l) (rest ++ todo) := coherent_level hl
    cases hn : (c.level n (rest ++ todo) l).mode.suppressesDescent with
    | false =>
      obtain ⟨xs, m, ys, d, rfl, hf⟩ := ih hlevel hn hs
      refine ⟨n :: xs, m, ys, d, rfl, ?_⟩
      rw [levelAll_cons]
      simpa only [List.append_assoc] using hf
    | true =>
      have hrest := levelAll_of_suppressed (c := c) hn (hlevel.quiet hn) rest todo
      have hsteps := c.steps_level n (rest ++ todo) l
      rw [hrest]
      generalize c.level n (rest ++ todo) l = r at hn hsteps ⊢
      cases hsteps with
      | skip suppressed => exact absurd (hawake.symm.trans suppressed) Bool.false_ne_true
      | @follow d mode fires => exact ⟨[], n, rest, d, rfl, by rw [levelAll_nil]; exact fires⟩
      | below awake opens =>
        rw [ascend_mode, Level.modeAfter_awake] at hn
        cases hn

theorem lacks_of_comes {tree : Node} {tag : String} (h : tree.Lacks tag)
    (comes : Walk.Comes c.visitor c.visitor_nonGrowing {} tree s site) : site.node.Lacks tag := by
  induction comes with
  | top => exact h
  | @child s site xs ys n parent kept entered children ih =>
    exact ih.child (Node.mem_children ((c.children?_enter s site).symm.trans children))

/-- The level of a node in which a directive fires that takes back what was planned, at its end. -/
theorem Fires.levelBelow (h : c.Fires s site d xs n ys) (hd : d.discardsParent = true)
    (hroot : s.rootExcluded = false) :
    let a := Walk.arrival c.visitor c.visitor_nonGrowing s site xs (n :: ys)
    let r := c.levelBelow site.node (.ofProgress s)
    r.mode.suppressesDescent = true ∧ (r.mode = .outer ↔ d = .outer) ∧ r.assembly? = none ∧
      r.done = a.2 ++ ys ∧ r.slides = a.1.slides := by
  intro a r
  let l := Level.ofProgress s
  obtain ⟨mode, hfires⟩ := h.fires
  obtain ⟨es, outside, harrival⟩ := tracks_child hroot h.kept h.entered xs (n :: ys)
  rw [harrival.mode] at hfires
  obtain ⟨hsuppressed, houter⟩ := mode_of_fires? hfires hd
  have hr : r = { c.levelAll xs (n :: ys) l.inside with
      mode := mode, assembly? := none
      done := (c.levelAll xs (n :: ys) l.inside).done ++ ys } := by
    rw [← levelAll_of_fires? hfires hd]
    show c.levelAll (site.node.children?.getD []) [] l.inside = _
    rw [h.children, Option.getD_some]
  rw [hr]
  exact ⟨hsuppressed, houter, rfl, congrArg (· ++ ys) harrival.done, harrival.slides.symm⟩

/-- A node in which such a directive fires is left with the children before the comment as the walk
left them, and with those behind it as they were. -/
theorem Fires.left_node (h : c.Fires s site d xs n ys) (hd : d.discardsParent = true)
    (hroot : s.rootExcluded = false) :
    (Walk.left c.visitor c.visitor_nonGrowing s site).node = site.node.withChildren
      ((Walk.arrival c.visitor c.visitor_nonGrowing s site xs (n :: ys)).2 ++ ys) := by
  obtain ⟨-, -, hassembly, hdone, -⟩ := h.levelBelow hd hroot
  have hcontainer := Node.isContainer_of_children? h.children
  rw [Cutter.left_node (l := .ofProgress s) rfl rfl rfl hroot h.kept
    h.entered hcontainer, c.childrenOf_of_none hassembly, hdone]

/-- A document in which such a directive fires among the children of the top. -/
theorem Fires.cut_eq {tree : Node} (h : c.Fires {} (Site.top tree) d xs n ys)
    (hd : d.discardsParent = true) :
    let a := Walk.arrival c.visitor c.visitor_nonGrowing {} (Site.top tree) xs (n :: ys)
    c.cut tree = if d = .inner ∧ a.1.slides = 0
      then (⟨1, true, .stopped, false⟩, tree.withChildren (c.wrapWhole (a.2 ++ ys)))
      else (⟨a.1.slides, false, .stopped, d == .outer⟩, tree.withChildren (a.2 ++ ys)) := by
  intro a
  obtain ⟨hsuppressed, houter, hassembly, hdone, hslides⟩ :
      (c.levelOf tree).mode.suppressesDescent = true ∧
        ((c.levelOf tree).mode = .outer ↔ d = .outer) ∧ (c.levelOf tree).assembly? = none ∧
        (c.levelOf tree).done = a.2 ++ ys ∧ (c.levelOf tree).slides = a.1.slides :=
    h.levelBelow hd rfl
  have hcontainer : tree.isContainer = true := Node.isContainer_of_children? h.children
  have hexcluded : ((c.levelOf tree).mode == .outer) = (d == .outer) := by
    rw [Bool.eq_iff_iff, beq_iff_eq, beq_iff_eq]
    exact houter
  have hprogress : progressAfter (c.levelOf tree) =
      { slides := a.1.slides, rootExcluded := d == .outer } := by
    rw [progressAfter, hexcluded, Level.modeAfter, if_pos hsuppressed,
      Level.pieces_of_none hassembly, Piece.slideCount_map_bare, hslides]
    rfl
  have hchildren : c.childrenOf (c.levelOf tree) = a.2 ++ ys :=
    (c.childrenOf_of_none hassembly).trans hdone
  rw [cut, walk_eq c hcontainer, hprogress, hchildren]
  simp only [Node.children?_withChildren_of_isContainer hcontainer]
  cases d with
  | start => cases hd
  | stop => cases hd
  | outer => simp [needsFallback]
  | inner =>
    have hinner : (Directive.inner == Directive.outer) = false := rfl
    by_cases hzero : a.1.slides = 0
    · simp [needsFallback, hzero, hinner]
    · simp [needsFallback, hzero, hinner]

/-- A leaf is a document that a directive in it empties, and that stays as it is otherwise. -/
theorem walk_leaf {tree : Node} (hleaf : tree.children? = none) :
    c.walk tree = match c.fires? .stopped tree with
      | some (_, mode) => ({ mode := mode }, .root [])
      | none => ({}, tree) := by
  have henter : c.enter {} (Site.top tree) = match c.fires? .stopped tree with
      | some (d, mode) => ⟨follow d mode {}, tree, true, false⟩
      | none => ⟨Progress.opened {}, tree, false, false⟩ := rfl
  have hfollow (d : Directive) (mode : SkipMode) : follow d mode {} = { mode := mode } := by
    unfold follow
    split <;> rfl
  rw [walk, Walk.toEnd_eq, Walk.subtree_eq, show c.visitor.enter = c.enter from rfl, henter]
  cases hfires : c.fires? .stopped tree with
  | some r =>
    rw [hfires] at henter
    simp [hfollow]
  | none =>
    rw [hfires] at henter
    have hbelow : Walk.below c.visitor c.visitor_nonGrowing {} (Site.top tree) =
        (Progress.opened {}, []) := by
      rw [Walk.below, show c.visitor.enter = c.enter from rfl, henter]
      simp only [hleaf, Option.getD_none]
      rfl
    have hleft : Walk.left c.visitor c.visitor_nonGrowing {} (Site.top tree) =
        ⟨{}, tree, false, false⟩ := by
      rw [Walk.left, Walk.leaving, hbelow, show c.visitor.enter = c.enter from rfl, henter]
      simp only [Node.withChildren_of_leaf hleaf]
      rfl
    simp [hleft]

theorem cut_of_leaf {tree : Node} (hleaf : tree.children? = none) :
    c.cut tree = match c.fires? .stopped tree with
      | some (_, mode) => (⟨0, false, mode, false⟩, .root [])
      | none => (⟨0, false, .stopped, false⟩, tree) := by
  rw [cut, walk_leaf hleaf]
  cases hfires : c.fires? .stopped tree with
  | none => simp [hleaf]
  | some r =>
    have hmode : r.2 ≠ .stopped := by
      obtain ⟨-, htransition⟩ := transition_of_fires? hfires
      intro h
      rw [h] at htransition
      cases hd : r.1 <;> rw [hd] at htransition <;> cases htransition
    simp [needsFallback, hmode]

/-- A document that is a leaf loses nothing. -/
theorem lost_of_leaf {tree : Node} (hleaf : tree.children? = none) : c.lost tree = [] := by
  have hnode : (c.recorder.enter ({}, []) (Site.top tree)).node = tree := c.enter_node {} _
  have hbelow : Walk.below c.recorder c.recorder_nonGrowing ({}, []) (Site.top tree) =
      ((c.recorder.enter ({}, []) (Site.top tree)).state, []) := by
    rw [Walk.below, hnode, hleaf]
    rfl
  rw [lost, Walk.toEnd_eq, Walk.subtree_eq]
  split
  · rfl
  split
  · rfl
  · rw [Walk.left, Walk.leaving, hbelow, hnode, Node.withChildren_of_leaf hleaf]
    have hleave (q : Progress) (r : Reply Progress) :
        Event.dropped ⟨.leave, q, ⟨tree, 0, none⟩, r⟩ = [] := by
      rw [Event.dropped, hleaf]
      cases q.closed.1 <;> rfl
    show Event.dropped ⟨.enter, _, _, _⟩ ++ (Event.dropped ⟨.leave, _, ⟨tree, 0, none⟩, _⟩ ++ []) = []
    rw [hleave]
    rfl

/-- A document with a slide in it is no leaf. -/
theorem isContainer_of_slides {tree : Node} (h : 0 < (c.cut tree).1.slides) :
    tree.isContainer = true := by
  cases hcs : tree.children? with
  | some cs => exact Node.isContainer_of_children? hcs
  | none =>
    rw [cut_of_leaf hcs] at h
    cases hfires : c.fires? .stopped tree <;> rw [hfires] at h <;> cases h

theorem rootExcluded_cut (c : Cutter) (tree : Node) :
    (c.cut tree).1.rootExcluded = (c.walk tree).1.rootExcluded := by
  simp only [cut]
  split <;> rfl

/-- A document that is a single leaf is never kept out of slides. -/
theorem rootExcluded_of_leaf {tree : Node} (hleaf : tree.children? = none) :
    (c.walk tree).1.rootExcluded = false := by
  rw [walk_leaf hleaf]
  cases c.fires? .stopped tree with
  | none => rfl
  | some r => rfl

/-- A document is kept out of slides just when `outer` fires among the children of its top. -/
theorem rootExcluded_iff (c : Cutter) (tree : Node) : (c.cut tree).1.rootExcluded = true ↔
    ∃ xs n ys, c.Fires {} (Site.top tree) .outer xs n ys := by
  constructor
  · intro hexcluded
    rw [rootExcluded_cut] at hexcluded
    cases hchildren : tree.children? with
    | none =>
      rw [rootExcluded_of_leaf hchildren] at hexcluded
      cases hexcluded
    | some children =>
      have hroot := Node.isContainer_of_children? hchildren
      have hlevel : c.levelOf tree = c.levelAll children [] {} := by
        rw [levelOf, hchildren, Option.getD_some]
      rw [walk_eq c hroot, progressAfter, beq_iff_eq, hlevel] at hexcluded
      have hsuppressed : (c.levelAll children [] {}).mode.suppressesDescent = true := by
        rw [hexcluded]
        rfl
      obtain ⟨xs, n, ys, d, rfl, hfires⟩ :=
        exists_fires?_of_suppressed (coherent_of_none rfl _) rfl hsuppressed
      rw [hexcluded, List.append_nil] at hfires
      have hdiscards : d.discardsParent = true := (suppressesDescent_of_fires? hfires).symm
      obtain rfl : d = .outer := (mode_of_fires? hfires hdiscards).2.mp rfl
      obtain ⟨_, _, harrival⟩ := tracks_arrival (l := {}) [] rfl rfl rfl rfl (kept_top hroot)
        (entered_top hroot) xs (n :: ys)
      refine ⟨xs, n, ys, kept_top hroot, entered_top hroot, hchildren, .outer, ?_⟩
      rw [harrival.mode]
      exact hfires
  · rintro ⟨xs, n, ys, hfires⟩
    rw [hfires.cut_eq rfl]
    rfl

/-- Where no slide was built yet, none stands among the children that the walk went over. -/
theorem elementsNamed_of_slides_eq_zero {tree : Node} (hlacks : tree.Lacks c.wrapper)
    (h : c.Fires {} (Site.top tree) d xs n ys)
    (hzero : (Walk.arrival c.visitor c.visitor_nonGrowing {} (Site.top tree) xs
      (n :: ys)).1.slides = 0) :
    ∀ m ∈ (Walk.arrival c.visitor c.visitor_nonGrowing {} (Site.top tree) xs (n :: ys)).2,
      m.elementsNamed c.wrapper = [] := by
  obtain ⟨_, _, harrival⟩ :=
    tracks_arrival (l := {}) [] rfl rfl rfl rfl h.kept h.entered xs (n :: ys)
  have hchildren : tree.children? = some (xs ++ n :: ys) := h.children
  have hbefore : ∀ m ∈ xs, m.Lacks c.wrapper := by
    intro m hm
    refine hlacks.child ?_
    rw [hchildren, Option.getD_some]
    exact List.mem_append_left _ hm
  have hslides := slides_levelAll hbefore (n :: ys)
  rw [harrival.slides] at hzero
  rw [← slidesIn_eq_zero_iff, ← harrival.done]
  show c.slidesIn (c.levelAll xs (n :: ys) {}).done = 0
  change (c.levelAll xs (n :: ys) {}).slides = 0 at hzero
  omega

/-- A node in which `inner` or `outer` fires holds the slides that were built in its children before
the comment and no others. When it is the top, the document is a single slide after `inner` and has
none after `outer`, just when no slide had been built before the comment. -/
theorem wrappers_of_fires (c : Cutter) {tree : Node} (hfresh : tree.elementsNamed c.wrapper = []) :
    (∀ s site d xs n ys, Walk.Comes c.visitor c.visitor_nonGrowing {} tree s site →
      c.Fires s site d xs n ys → d.discardsParent = true →
      let before := (Walk.arrival c.visitor c.visitor_nonGrowing s site xs (n :: ys)).2
      let left := (Walk.left c.visitor c.visitor_nonGrowing s site).node
      left = site.node.withChildren (before ++ ys) ∧
        (left.elementsNamed c.wrapper = [] ↔ ∀ m ∈ before, m.elementsNamed c.wrapper = [])) ∧
    ((c.cut tree).1.rootExcluded = true ↔ ∃ xs n ys, c.Fires {} (Site.top tree) .outer xs n ys) ∧
    (∀ d xs n ys, c.Fires {} (Site.top tree) d xs n ys → d.discardsParent = true →
      let a := Walk.arrival c.visitor c.visitor_nonGrowing {} (Site.top tree) xs (n :: ys)
      (c.cut tree = if d = .inner ∧ a.1.slides = 0
        then (⟨1, true, .stopped, false⟩, tree.withChildren (c.wrapWhole (a.2 ++ ys)))
        else (⟨a.1.slides, false, .stopped, d == .outer⟩, tree.withChildren (a.2 ++ ys))) ∧
      (a.1.slides = 0 → ∀ m ∈ a.2 ++ ys, m.elementsNamed c.wrapper = [])) := by
  have hlacks := Node.lacks_iff.mpr hfresh
  have hbehind {node : Node} (h : node.Lacks c.wrapper) {xs ys : List Node} {n : Node}
      (hchildren : node.children? = some (xs ++ n :: ys)) :
      ∀ m ∈ ys, m.elementsNamed c.wrapper = [] := by
    intro m hm
    refine Node.lacks_iff.mp (h.child ?_)
    rw [hchildren, Option.getD_some]
    exact List.mem_append_right _ (List.mem_cons_of_mem n hm)
  refine ⟨?_, c.rootExcluded_iff tree, ?_⟩
  · intro s site d xs n ys comes fires discards before left
    have hsite := lacks_of_comes hlacks comes
    have hleft : left = site.node.withChildren (before ++ ys) :=
      fires.left_node discards (rootExcluded_of_comes comes)
    refine ⟨hleft, ?_⟩
    have hslides : c.slidesIn [left] = c.slidesIn (before ++ ys) := by
      rw [hleft, slidesIn_singleton, Node.isElementNamed_withChildren,
        hsite site.node site.node.mem_preorder_self, Node.children?_withChildren, fires.children]
      rfl
    rw [← List.forall_mem_singleton (p := fun m : Node => m.elementsNamed c.wrapper = []),
      ← slidesIn_eq_zero_iff, ← slidesIn_eq_zero_iff, hslides, slidesIn_append,
      slidesIn_eq_zero_iff.mpr (hbehind hsite fires.children), Nat.add_zero]
  · intro d xs n ys fires discards a
    refine ⟨fires.cut_eq discards, fun hzero m hm => ?_⟩
    rcases List.mem_append.mp hm with hm | hm
    · exact elementsNamed_of_slides_eq_zero hlacks fires hzero m hm
    · exact hbehind hlacks fires.children m hm

theorem wrappers_of_fires_behind_text :
    let c := Cutter.ofKeyword "hr" "Slide" ⟨[]⟩ "skip"
    let hr : Node := .element "hr" ⟨[]⟩ []
    let tree : Node := .root [.text "a", hr, .text "b", .note "skip inner", hr]
    tree.elementsNamed c.wrapper = [] ∧ (c.cut tree).1 = ⟨1, true, .stopped, false⟩ := by
  intro c hr tree
  have hfresh : tree.elementsNamed c.wrapper = [] := by
    rw [Node.elementsNamed_eq]
    rfl
  have hfires : c.Fires {} (Site.top tree) .inner [.text "a", hr, .text "b"] (.note "skip inner")
      [hr] :=
    ⟨rfl, rfl, rfl, .inner, by decide +kernel⟩
  have hcut := ((c.wrappers_of_fires hfresh).2.2 _ _ _ _ hfires rfl).1
  refine ⟨hfresh, ?_⟩
  rw [hcut, if_pos]
  decide +kernel

/-- Slides that were built in a child stay there when `outer` fires behind it. -/
theorem slides_kept_by_outer :
    let c := Cutter.ofKeyword "hr" "Slide" ⟨[]⟩ "skip"
    let hr : Node := .element "hr" ⟨[]⟩ []
    let box (cs : List Node) : Node := .component (some "Box") ⟨[]⟩ cs
    let tree : Node := .root [box [.text "a", hr, .text "b"], .note "skip outer"]
    tree.elementsNamed c.wrapper = [] ∧ (c.cut tree).1 = ⟨2, false, .stopped, true⟩ ∧
      ((c.cut tree).2.elementsNamed c.wrapper).length = 2 := by
  intro c hr box tree
  refine ⟨?_, by decide +kernel, ?_⟩
  · rw [Node.elementsNamed_eq]
    rfl
  · rw [Node.elementsNamed_eq]
    decide +kernel

end Cutter
end SlideDeck
