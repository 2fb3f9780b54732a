import SlideDeck.Proofs.Slides.Counting
import SlideDeck.Proofs.Slides.Survival
import SlideDeck.Proofs.Slides.Thinned

/-!
What slides look like. A slide that is planned has no preamble in it and begins and ends with a
child that is no boundary, and this stays so while the plan grows. Every slide in a document was
built from a plan, or is the single slide of a document with nothing to cut at.
-/
namespace SlideDeck

namespace Lays

variable {i : Nat} {ns lost nodes : List Node} {es : List Entry} {ps : List Piece}

/-- Every slide that is put down has an entry. -/
theorem exists_slide (h : Lays i ns es ps lost) (hmem : .slide nodes ∈ ps) :
    ∃ front back, ns = front ++ nodes ++ back ∧
      .slide (i + front.length) (i + front.length + nodes.length) ∈ es := by
  induction h with
  | done i => cases hmem
  | @keep i n ns es ps lost _ ih =>
    rcases List.mem_cons.mp hmem with hp | hp
    · cases hp
    · obtain ⟨front, back, rfl, he⟩ := ih hp
      refine ⟨n :: front, back, rfl, List.mem_cons_of_mem _ ?_⟩
      rwa [List.length_cons, Nat.add_comm front.length, ← Nat.add_assoc]
  | @slide i run ns es ps lost _ _ ih =>
    rcases List.mem_cons.mp hmem with hp | hp
    · injection hp with hrun
      subst hrun
      exact ⟨[], ns, rfl, List.mem_cons_self⟩
    · obtain ⟨front, back, rfl, he⟩ := ih hp
      refine ⟨run ++ front, back, by simp, List.mem_cons_of_mem _ ?_⟩
      rwa [List.length_append, ← Nat.add_assoc]
  | @skip i n ns es ps lost _ ih =>
    obtain ⟨front, back, rfl, he⟩ := ih hmem
    refine ⟨n :: front, back, rfl, ?_⟩
    rwa [List.length_cons, Nat.add_comm front.length, ← Nat.add_assoc]

end Lays

namespace Plan

/-- The children of a slide from the index `start` on: there are some, none of them is preamble, and
the ones at the ends are no boundaries. -/
structure Trimmed (boundary : Child → Bool) (start : Nat) (core : List Node) : Prop where
  nonempty : core ≠ []
  bare : ∀ n ∈ core, n.isPreamble = false
  first : ∀ n ∈ core.head?, boundary (n, start) = false
  last : ∀ n ∈ core.getLast?, boundary (n, start + core.length - 1) = false

/-- The slides that the plan has for the children are trimmed. -/
def Fits (plan : Plan) (children : List Node) : Prop :=
  ∀ start stop, .slide start stop ∈ plan.entries → ∃ front core back,
    children = front ++ core ++ back ∧ start = front.length ∧ stop = start + core.length ∧
      Trimmed plan.isBoundary start core

variable {boundary boundary' : Child → Bool} {plan : Plan} {children : List Node} {start stop : Nat}

theorem Trimmed.congr {core : List Node} (h : Trimmed boundary start core)
    (hsame : ∀ n i, start ≤ i → i < start + core.length → boundary' (n, i) = boundary (n, i)) :
    Trimmed boundary' start core := by
  have hpos := List.length_pos_iff.mpr h.nonempty
  refine ⟨h.nonempty, h.bare, fun n hn => ?_, fun n hn => ?_⟩
  · rw [hsame n start (Nat.le_refl _) (by omega)]
    exact h.first n hn
  · rw [hsame n _ (by omega) (by omega)]
    exact h.last n hn

theorem trimmed_segmentEntries (boundary : Child → Bool) (i : Nat) {segment : List Node}
    (hsegment : ∀ n ∈ segment, n.isPreamble = false)
    (h : .slide start stop ∈ segmentEntries boundary (segment.zipIdx i)) :
    ∃ front core back, segment = front ++ core ++ back ∧ start = i + front.length ∧
      stop = start + core.length ∧ Trimmed boundary start core := by
  have happ := Ends.append boundary (segment.zipIdx i)
  obtain ⟨front, back, rfl, hfront, hback⟩ := List.zipIdx_eq_append_iff.mp happ.symm
  obtain ⟨ahead, core, rfl, hahead, hcore⟩ := List.zipIdx_eq_append_iff.mp hfront.symm
  have hentries : Entry.slide start stop ∈ slideAround (core.zipIdx (i + ahead.length)) := by
    have hmem : Entry.slide start stop ∈
        (ahead.zipIdx i).map (fun c => .keep c.2) ++ slideAround (core.zipIdx (i + ahead.length)) ++
          (back.zipIdx (i + (ahead ++ core).length)).map (fun c => .keep c.2) := by
      rw [← hahead, ← hcore, ← hback]
      exact h
    simpa using hmem
  cases core with
  | nil => cases hentries
  | cons n rest =>
    rw [List.zipIdx_cons, slideAround, List.mem_singleton] at hentries
    injection hentries with hstart hstop
    have hlength : stop = start + (n :: rest).length := by
      rw [hstop, hstart, List.length_cons, List.length_cons, List.length_zipIdx]
    refine ⟨ahead, n :: rest, back, rfl, hstart, hlength, List.cons_ne_nil _ _, ?_, ?_, ?_⟩
    · intro m hm
      exact hsegment m (List.mem_append_left _ (List.mem_append_right _ hm))
    · intro m hm
      apply Ends.head_core boundary ((ahead ++ n :: rest ++ back).zipIdx i)
      rw [hcore, List.head?_zipIdx, hm, hstart]
      rfl
    · intro m hm
      apply Ends.last_core boundary ((ahead ++ n :: rest ++ back).zipIdx i)
      rw [hcore, List.getLast?_zipIdx, hm, hstart]
      rfl

theorem trimmed_runEntries (boundary : Child → Bool) (i : Nat) (segment run : List Node)
    (hsegment : ∀ n ∈ segment, n.isPreamble = false)
    (h : .slide start stop ∈
      runEntries boundary (segment.zipIdx i) (run.zipIdx (i + segment.length))) :
    ∃ front core back, segment ++ run = front ++ core ++ back ∧ start = i + front.length ∧
      stop = start + core.length ∧ Trimmed boundary start core := by
  induction run generalizing i segment with
  | nil =>
    rw [List.append_nil]
    rw [List.zipIdx_nil, runEntries] at h
    exact trimmed_segmentEntries boundary i hsegment h
  | cons n rest ih =>
    rw [List.zipIdx_cons, runEntries] at h
    by_cases hp : n.isPreamble = true
    · rw [if_pos hp, List.mem_append, List.mem_cons] at h
      rcases h with h | h | h
      · obtain ⟨front, core, back, rfl, hstart, hstop, htrimmed⟩ :=
          trimmed_segmentEntries boundary i hsegment h
        exact ⟨front, core, back ++ n :: rest, by simp, hstart, hstop, htrimmed⟩
      · cases h
      · obtain ⟨front, core, back, hrest, hstart, hstop, htrimmed⟩ :=
          ih (i + segment.length + 1) [] (fun m hm => by cases hm) h
        rw [List.nil_append] at hrest
        refine ⟨segment ++ n :: front, core, back, ?_, ?_, hstop, htrimmed⟩
        · simp [hrest]
        · rw [hstart, List.length_append, List.length_cons]
          omega
    · rw [if_neg hp] at h
      have hsegment' : ∀ m ∈ segment ++ [n], m.isPreamble = false := by
        intro m hm
        rcases List.mem_append.mp hm with hm | hm
        · exact hsegment m hm
        · rw [List.mem_singleton.mp hm]
          simpa using hp
      have hrest := ih i _ hsegment' (by simpa [List.zipIdx_append, Nat.add_assoc] using h)
      rwa [List.append_assoc] at hrest

theorem fits_new (children : List Node) : Fits {} children := fun _ _ h => by cases h

theorem Fits.append (h : plan.Fits children) (more : List Node) : plan.Fits (children ++ more) := by
  intro start stop hmem
  obtain ⟨front, core, back, rfl, hstart, hstop, htrimmed⟩ := h start stop hmem
  exact ⟨front, core, back ++ more, by simp, hstart, hstop, htrimmed⟩

theorem Fits.flush (h : plan.Fits children) (tail : List Node) :
    (plan.flush (children ++ tail) children.length).Fits children := by
  intro start stop hmem
  rw [Plan.flush, run_eq, List.mem_append] at hmem
  rcases hmem with hmem | hmem
  · exact h start stop hmem
  · obtain ⟨front, core, back, hdrop, hstart, hstop, htrimmed⟩ :=
      trimmed_runEntries plan.isBoundary plan.cursor [] _ (fun m hm => by cases hm) hmem
    have hpos := List.length_pos_iff.mpr htrimmed.nonempty
    have hlength := congrArg List.length hdrop
    simp only [List.nil_append, List.length_append, List.length_drop] at hlength
    refine ⟨children.take plan.cursor ++ front, core, back, ?_, ?_, hstop, htrimmed⟩
    · rw [List.append_assoc, List.append_assoc, ← List.append_assoc front, ← hdrop, List.nil_append,
        List.take_append_drop]
    · rw [hstart, List.length_append, List.length_take]
      omega

theorem Fits.keep (h : plan.Fits children) (indices : List Nat) :
    (plan.keep indices).Fits children := by
  intro start stop hmem
  have hold : .slide start stop ∈ plan.entries := by simpa [Plan.keep] using hmem
  exact h start stop hold

/-- Keeping a child to come out of slides leaves the slides before it as they are. -/
theorem Fits.exclude (h : plan.Fits children) : (plan.exclude children.length).Fits children := by
  intro start stop hmem
  obtain ⟨front, core, back, rfl, hstart, hstop, htrimmed⟩ := h start stop hmem
  refine ⟨front, core, back, rfl, hstart, hstop, htrimmed.congr fun n i _ hi => ?_⟩
  have hne : i ≠ (front ++ core ++ back).length := by
    rw [List.length_append, List.length_append]
    omega
  show ((_ :: plan.excluded).contains i || n.isWhitespace) = _
  rw [List.contains_cons, beq_eq_false_iff_ne.mpr hne, Bool.false_or]
  rfl

end Plan

theorem Goes.fits {c : Cutter} {before before' : List Node} {slot slot' : Option Plan}
    (h : Goes c before slot before' slot') (hfits : (slot.getD {}).Fits before) :
    (slot'.getD {}).Fits before' := by
  induction h with
  | refl => exact hfits
  | @amend before' after slot' slot'' goes amends ih =>
    cases amends with
    | @cut n indices next kept cursor =>
      exact (ih.flush (n :: after)).keep indices
    | @outer n =>
      rw [Option.getD_some]
      unfold Cutter.planOuter
      simp only
      split
      · exact ih.exclude.keep _
      · exact ih.exclude
  | child _ ih => exact ih.append _

namespace Cutter

variable {c : Cutter} {s : Progress} {site : Site} {n : Node} {start stop : Nat}

/-- `outer` fires in the child that stands at the index when the node is left. -/
def KeptOut (c : Cutter) (s : Progress) (site : Site) (k : Nat) : Prop :=
  ∃ xs m ys us n vs, site.node.children? = some (xs ++ m :: ys) ∧
    (Walk.arrival c.visitor c.visitor_nonGrowing s site xs (m :: ys)).2.length = k ∧
    c.Fires (Walk.arrival c.visitor c.visitor_nonGrowing s site xs (m :: ys)).1
      (Walk.childSite c.visitor c.visitor_nonGrowing s site xs m ys) .outer us n vs

/-- The layout of a node that the walk goes below has a slide around the children `core`, which
stand between `front` and `back` when the node is left. There are some, none of them is preamble,
and those at the ends are neither blank nor kept out of slides. -/
structure Wraps (c : Cutter) (s : Progress) (site : Site) (front core back : List Node) : Prop where
  kept : (c.enter s site).removed = false
  entered : (c.enter s site).skipped = false
  children : (Walk.below c.visitor c.visitor_nonGrowing s site).2 = front ++ core ++ back
  planned : .slide front.length (front.length + core.length) ∈ c.layout s site
  nonempty : core ≠ []
  bare : ∀ n ∈ core, n.isPreamble = false
  first : ∀ n ∈ core.head?, n.isWhitespace = false
  last : ∀ n ∈ core.getLast?, n.isWhitespace = false
  firstIn : ¬ c.KeptOut s site front.length
  lastIn : ¬ c.KeptOut s site (front.length + core.length - 1)

/-- At the end the plan of a node excludes the children that are kept out of slides. -/
theorem KeptOut.excluded {k : Nat} (h : c.KeptOut s site k) (hroot : s.rootExcluded = false)
    (kept : (c.enter s site).removed = false) (entered : (c.enter s site).skipped = false)
    {plan : Plan}
    (hplan : (Walk.below c.visitor c.visitor_nonGrowing s site).1.slots.head?.join = some plan) :
    k ∈ plan.excluded := by
  obtain ⟨xs, m, ys, us, n, vs, children, rfl, fires⟩ := h
  obtain ⟨_, _, harrival⟩ := tracks_child hroot kept entered xs (m :: ys)
  obtain ⟨slot, hslots, -⟩ := harrival.slots
  obtain ⟨cs, behind, -, -, hextends⟩ := fires.extends rfl hroot kept entered children hslots
  exact (hextends plan hplan).excluded (mem_excluded_slotBehind c _ ⟨_, ys⟩ _)

theorem wraps_of_mem_layout (hroot : s.rootExcluded = false)
    (kept : (c.enter s site).removed = false) (entered : (c.enter s site).skipped = false)
    (h : .slide start stop ∈ c.layout s site) :
    ∃ front core back, c.Wraps s site front core back ∧ start = front.length ∧
      stop = start + core.length := by
  have hlayout := h
  rw [layout] at hlayout
  cases hplan : (Walk.below c.visitor c.visitor_nonGrowing s site).1.slots.head?.join with
  | none =>
    rw [hplan] at hlayout
    simp at hlayout
  | some plan =>
    have hfits := ((goes_inside hroot kept entered hplan).fits (Plan.fits_new [])).flush []
    rw [List.append_nil] at hfits
    rw [hplan] at hlayout
    obtain ⟨front, core, back, hchildren, rfl, rfl, htrimmed⟩ := hfits start stop hlayout
    have hin {k : Nat} {n : Node} (hk : plan.isBoundary (n, k) = false) :
        n.isWhitespace = false ∧ ¬ c.KeptOut s site k := by
      rw [Plan.isBoundary, Bool.or_eq_false_iff] at hk
      refine ⟨hk.2, fun hkept => ?_⟩
      have hmem := hkept.excluded hroot kept entered hplan
      rw [← List.contains_iff_mem, hk.1] at hmem
      cases hmem
    have hfirst := hin (htrimmed.first _ (List.head?_eq_some_head htrimmed.nonempty))
    have hlast := hin (htrimmed.last _ (List.getLast?_eq_some_getLast htrimmed.nonempty))
    exact ⟨front, core, back, ⟨kept, entered, hchildren, h, htrimmed.nonempty, htrimmed.bare,
      fun n hn => (hin (htrimmed.first n hn)).1, fun n hn => (hin (htrimmed.last n hn)).1,
      hfirst.2, hlast.2⟩, rfl, rfl⟩

/-- The slide was built by the plan of a node that the walk over the document came to. -/
def Built (c : Cutter) (tree slide : Node) : Prop :=
  ∃ s site front core back, Walk.Comes c.visitor c.visitor_nonGrowing {} tree s site ∧
    c.Wraps s site front core back ∧ slide = c.wrap core

/-- The slides that the walk leaves at and below a node were all built by it. -/
theorem built_of_subtree {tree n' w : Node} (hlacks : tree.Lacks c.wrapper)
    (comes : Walk.Comes c.visitor c.visitor_nonGrowing {} tree s site)
    (hn' : (Walk.subtree c.visitor c.visitor_nonGrowing s site).2 = some n')
    (hw : w ∈ n'.preorder) (hslide : w.isElementNamed c.wrapper = true) : c.Built tree w := by
  generalize hsize : site.node.size = size
  induction size using Nat.strongRecOn generalizing s site n' with
  | ind size ih =>
    subst hsize
    have hsite := lacks_of_comes hlacks comes
    have hroot := rootExcluded_of_comes comes
    have hvisits := c.visits_subtree s site
    generalize Walk.subtree c.visitor c.visitor_nonGrowing s site = r at hn' hvisits
    cases hvisits with
    | removed removed => cases hn'
    | skipped kept skipped =>
      cases hn'
      rw [hsite w hw] at hslide
      cases hslide
    | left kept entered =>
      cases hn'
      have hbelow : ∀ m ∈ (Walk.below c.visitor c.visitor_nonGrowing s site).2,
          w ∈ m.preorder → c.Built tree w := by
        intro m hm hwm
        obtain ⟨xs, n, ys, hchildren, hvisit⟩ := Walk.mem_below c.visitor_nonGrowing hm
        have hlt : n.size < site.node.size := Node.size_lt_of_mem
          (Node.mem_children ((c.children?_enter s site).symm.trans hchildren))
        exact ih n.size hlt (.child comes kept entered hchildren) hvisit hwm rfl
      rw [left_node_layout hroot kept entered, Node.preorder_eq] at hw
      rcases List.mem_cons.mp hw with rfl | hw
      · rw [Node.isElementNamed_withChildren, hsite _ site.node.mem_preorder_self] at hslide
        cases hslide
      · obtain ⟨x, hx, hwx⟩ := Node.mem_preorderAll.mp hw
        have hx : x ∈ (c.layout s site).flatMap
            (Entry.shown c.wrap (Walk.below c.visitor c.visitor_nonGrowing s site).2) := by
          rw [Node.children?_withChildren] at hx
          cases hchildren : site.node.children? with
          | none => simp [hchildren] at hx
          | some children => simpa [hchildren] using hx
        obtain ⟨e, he, hx⟩ := List.mem_flatMap.mp hx
        cases e with
        | keep i => exact hbelow x (List.mem_of_getElem? (Option.mem_toList.mp hx)) hwx
        | slide start stop =>
          rw [Entry.shown, List.mem_singleton] at hx
          subst hx
          obtain ⟨front, core, back, hwraps, rfl, rfl⟩ := wraps_of_mem_layout hroot kept entered he
          have hcore : ((Walk.below c.visitor c.visitor_nonGrowing s site).2.take
              (front.length + core.length)).drop front.length = core := by
            rw [hwraps.children, List.append_assoc, drop_take_run]
          rw [hcore, Node.preorder_eq] at hwx
          rcases List.mem_cons.mp hwx with rfl | hwx
          · exact ⟨s, site, front, core, back, comes, hwraps, rfl⟩
          · obtain ⟨m, hm, hwm⟩ := Node.mem_preorderAll.mp hwx
            refine hbelow m ?_ hwm
            rw [hwraps.children]
            exact List.mem_append_left _ (List.mem_append_right _ hm)

theorem mayGo_of_isPreamble (h : n.isPreamble = true) : c.mayGo n = false := by
  cases n <;> first | rfl | cases h

theorem filter_isPreamble_of_thinned {ns ms : List Node} (h : Thinned c.mayGo ns ms) :
    ms.filter Node.isPreamble = ns.filter Node.isPreamble := by
  induction h with
  | nil => rfl
  | @drop n ns ms gone _ ih =>
    have hn : n.isPreamble = false := by
      cases hp : n.isPreamble with
      | false => rfl
      | true => rw [mayGo_of_isPreamble hp] at gone; cases gone
    rw [ih, List.filter_cons, hn]
    rfl
  | @keep n ns ms cs _ _ _ ih =>
    rw [List.filter_cons, List.filter_cons, ih, Node.isPreamble_withChildren]
    cases hp : n.isPreamble with
    | false => rfl
    | true => rw [Node.withChildren_of_leaf (Node.children?_of_isPreamble hp)]

theorem filter_isPreamble_unwrappedAll {tag : String} {nodes : List Node}
    (h : ∀ n ∈ nodes, n.isElementNamed tag = false) :
    (Node.unwrappedAll tag nodes).filter Node.isPreamble = nodes.filter Node.isPreamble := by
  rw [Node.unwrappedAll_eq_map h]
  induction nodes with
  | nil => rfl
  | cons n rest ih =>
    rw [List.map_cons, List.filter_cons, List.filter_cons, Node.isPreamble_unwrapped,
      ih fun m hm => h m (List.mem_cons_of_mem n hm)]
    cases hp : n.isPreamble with
    | false => rfl
    | true => rw [Node.unwrapped_eq, Node.withChildren_of_leaf (Node.children?_of_isPreamble hp)]

theorem filter_isPreamble_build {pieces : List Piece}
    (h : ∀ nodes, .slide nodes ∈ pieces → ∀ n ∈ nodes, n.isPreamble = false) :
    (pieces.map (Piece.build c.wrap)).filter Node.isPreamble =
      (Piece.contents pieces).filter Node.isPreamble := by
  induction pieces with
  | nil => rfl
  | cons p ps ih =>
    have hrest := ih fun nodes hp => h nodes (List.mem_cons_of_mem p hp)
    rw [List.map_cons, List.filter_cons, hrest, Piece.contents_cons, List.filter_append]
    cases p with
    | bare node =>
      rw [Piece.nodes, List.filter_cons, List.filter_nil]
      cases hp : node.isPreamble <;> simp [Piece.build, hp]
    | slide nodes =>
      have hnone : nodes.filter Node.isPreamble = [] := by
        rw [List.filter_eq_nil_iff]
        intro n hn
        rw [h nodes List.mem_cons_self n hn]
        exact Bool.false_ne_true
      rw [Piece.nodes, hnone]
      rfl

theorem bare_of_slide_mem (hroot : s.rootExcluded = false)
    (kept : (c.enter s site).removed = false) (entered : (c.enter s site).skipped = false)
    {nodes : List Node}
    (h : .slide nodes ∈ (c.levelBelow site.node (.ofProgress s)).pieces) :
    ∀ n ∈ nodes, n.isPreamble = false := by
  obtain ⟨lost, hlays⟩ := lays_layout hroot kept entered
  obtain ⟨ahead, behind, hsplit, hmem⟩ := hlays.exists_slide h
  obtain ⟨front, core, back, hwraps, hstart, hstop⟩ := wraps_of_mem_layout hroot kept entered hmem
  have hnodes : ahead ++ nodes ++ behind = front ++ core ++ back :=
    hsplit.symm.trans hwraps.children
  rw [Nat.zero_add] at hstart hstop
  rw [List.append_assoc, List.append_assoc] at hnodes
  have hcore : nodes = core := by
    have hbehind := List.append_inj_right hnodes hstart
    exact List.append_inj_left hbehind (by omega)
  rw [hcore]
  exact hwraps.bare

/-- Cutting leaves the preamble among the children of the top as it is. -/
theorem filter_isPreamble_childrenOf {tree : Node} (hroot : tree.isContainer = true)
    (hlacks : tree.Lacks c.wrapper) :
    (c.childrenOf (c.levelOf tree)).filter Node.isPreamble =
      (tree.children?.getD []).filter Node.isPreamble := by
  have hsound := sound_levelOf hlacks
  have hbare : ∀ nodes, .slide nodes ∈ (c.levelOf tree).pieces →
      ∀ n ∈ nodes, n.isPreamble = false := fun nodes h =>
    bare_of_slide_mem (s := {}) rfl (kept_top hroot) (entered_top hroot) h
  calc (c.childrenOf (c.levelOf tree)).filter Node.isPreamble
      = (c.levelOf tree).assembly.contents.filter Node.isPreamble := by
        rw [childrenOf, filter_isPreamble_build hbare, contents_pieces]
    _ = (Node.unwrappedAll c.wrapper (c.levelOf tree).assembly.contents).filter
          Node.isPreamble := by
        rw [filter_isPreamble_unwrappedAll hsound.contents.bare]
    _ = (tree.children?.getD []).filter Node.isPreamble :=
        filter_isPreamble_of_thinned hsound.contents.thinned

/-- Behind the walk a document either stays as it is or becomes a single slide. -/
theorem cut_cases (c : Cutter) (tree : Node) :
    ((c.cut tree).1.fellBack = false ∧ (c.cut tree).2 = (c.walk tree).2) ∨
      ((c.cut tree).1.fellBack = true ∧ (c.cut tree).1.slides = 1 ∧
        ∃ children, (c.walk tree).2.children? = some children ∧
          (c.cut tree).2 = (c.walk tree).2.withChildren (c.wrapWhole children)) := by
  simp only [cut]
  split
  · next children hfallback hchildren =>
    have hzero : (c.walk tree).1.slides = 0 := by
      simp only [needsFallback, Bool.and_eq_true, beq_iff_eq] at hfallback
      exact hfallback.1.1
    exact .inr ⟨rfl, congrArg (· + 1) hzero, children, hchildren, rfl⟩
  · exact .inl ⟨rfl, rfl⟩

theorem walk_eq_left {tree : Node} (hroot : tree.isContainer = true) :
    (Walk.subtree c.visitor c.visitor_nonGrowing {} (Site.top tree)).2 = some (c.walk tree).2 := by
  rw [walk, Walk.toEnd_eq, subtree_of_entered (kept_top hroot) (entered_top hroot)]
  rfl

/-- The single slide of a document that became one is the only one in it. -/
theorem elementsNamed_of_fellBack {tree : Node} (hroot : tree.isContainer = true)
    (hfresh : tree.elementsNamed c.wrapper = []) {children : List Node}
    (hslides : (c.cut tree).1.slides = 1)
    (hchildren : (c.walk tree).2.children? = some children)
    (hcut : (c.cut tree).2 = (c.walk tree).2.withChildren (c.wrapWhole children)) :
    (c.cut tree).2.elementsNamed c.wrapper = [c.wrap (children.filter (!·.isPreamble))] := by
  have hlength := c.slides_eq_add hroot hfresh
  have hmem : c.wrap (children.filter (!·.isPreamble)) ∈
      (c.cut tree).2.elementsNamed c.wrapper := by
    rw [Node.elementsNamed_eq, List.mem_filter]
    refine ⟨?_, by simp [wrap, Node.isElementNamed]⟩
    rw [hcut]
    apply Node.mem_preorder_of_child _ (Node.mem_preorder_self _)
    rw [Node.children?_withChildren, hchildren]
    simp [wrapWhole]
  have hpos := List.length_pos_of_mem hmem
  have hone : ((c.cut tree).2.elementsNamed c.wrapper).length = 1 := by omega
  obtain ⟨w, hw⟩ := List.length_eq_one_iff.mp hone
  rw [hw] at hmem ⊢
  rw [List.mem_singleton.mp hmem]

/-- No slide in a document has preamble among its children. A document that became one slide has
no other; every other slide was built around a run of children of a node, which is not empty and
begins and ends with a child that is neither blank nor kept out of slides. The preamble among the
children of the top stays as it is. -/
theorem slides_trimmed (c : Cutter) {tree : Node} (hroot : tree.isContainer = true)
    (hfresh : tree.elementsNamed c.wrapper = []) :
    let out := (c.cut tree).2
    (∀ w ∈ out.elementsNamed c.wrapper, ∀ n ∈ w.children?.getD [], n.isPreamble = false) ∧
      ((c.cut tree).1.fellBack = true → ∃ content, out.elementsNamed c.wrapper = [c.wrap content]) ∧
      ((c.cut tree).1.fellBack = false → ∀ w ∈ out.elementsNamed c.wrapper,
        ∃ s site front core back, Walk.Comes c.visitor c.visitor_nonGrowing {} tree s site ∧
          c.Wraps s site front core back ∧ w = c.wrap core) ∧
      (out.children?.getD []).filter Node.isPreamble =
        (tree.children?.getD []).filter Node.isPreamble := by
  intro out
  have hlacks := Node.lacks_iff.mpr hfresh
  have hbuilt : ∀ w ∈ (c.walk tree).2.elementsNamed c.wrapper, c.Built tree w := by
    intro w hw
    rw [Node.elementsNamed_eq, List.mem_filter] at hw
    exact built_of_subtree hlacks .top (walk_eq_left hroot) hw.1 hw.2
  have hpreamble : ((c.walk tree).2.children?.getD []).filter Node.isPreamble =
      (tree.children?.getD []).filter Node.isPreamble := by
    rw [walk_eq c hroot, Node.children?_withChildren_of_isContainer hroot]
    exact filter_isPreamble_childrenOf hroot hlacks
  rcases c.cut_cases tree with ⟨hfellBack, hcut⟩ | ⟨hfellBack, hslides, children, hchildren, hcut⟩
  · rw [show out = _ from hcut, hfellBack]
    refine ⟨fun w hw n hn => ?_, fun h => (by cases h), fun _ => hbuilt, hpreamble⟩
    obtain ⟨s, site, front, core, back, -, hwraps, rfl⟩ := hbuilt w hw
    exact hwraps.bare n hn
  · have hsingle := elementsNamed_of_fellBack hroot hfresh hslides hchildren hcut
    rw [hfellBack, show out.elementsNamed c.wrapper = _ from hsingle]
    refine ⟨fun w hw n hn => ?_, fun _ => ⟨_, rfl⟩, fun h => (by cases h), ?_⟩
    · rw [List.mem_singleton.mp hw] at hn
      simpa using (List.mem_filter.mp hn).2
    · rw [← hpreamble, show out = _ from hcut, Node.children?_withChildren, hchildren]
      have hslide (nodes : List Node) : (c.wrap nodes).isPreamble = false := rfl
      simp [wrapWhole, hslide]

theorem slides_trimmed_nested :
    let c := Cutter.ofKeyword "hr" "Slide" ⟨[]⟩ "skip"
    let hr : Node := .element "hr" ⟨[]⟩ []
    let box (cs : List Node) : Node := .component (some "Box") ⟨[]⟩ cs
    let tree : Node := .root [.doctype "html", .text " ", box [.text "a", hr, .text "b"],
      .esm "x" [], box [.note "skip outer"], .text "c"]
    tree.isContainer = true ∧ tree.elementsNamed c.wrapper = [] ∧
      ((c.cut tree).2.children?.getD []).filter Node.isPreamble =
        [.doctype "html", .esm "x" []] := by
  intro c hr box tree
  have hfresh : tree.elementsNamed c.wrapper = [] := by
    rw [Node.elementsNamed_eq]
    rfl
  exact ⟨rfl, hfresh, (c.slides_trimmed rfl hfresh).2.2.2⟩

end Cutter
end SlideDeck
