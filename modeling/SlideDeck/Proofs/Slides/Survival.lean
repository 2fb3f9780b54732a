import SlideDeck.Proofs.Slides.Layout
import SlideDeck.Proofs.Slides.Passing
import SlideDeck.Proofs.Slides.Whole

/-!
What becomes of a node in which `inner` or `outer` fires when its parent is left. Whether a marker
stands among the new children is settled when it is entered, before the directive in it is known.
For `outer` that is made good when the node is left, for `inner` it is not.
-/
namespace SlideDeck

namespace Agrees

variable {c : Cutter} {l : Level} {m : Node} {ys : List Node} {slot : Option Plan}

/-- When a child is entered, no entry names it yet. -/
theorem names_slotAt (h : Agrees c l.done (m :: ys) slot l.assembly?)
    (hm : m.isWhitespace = false) (mode : SkipMode) :
    ((c.slotAt mode m ⟨l.done, ys⟩ slot).getD {}).names l.done.length = false := by
  have hlays := h.stands.flush (by simp [hm]) (m :: ys)
  have hflush : ((slot.getD {}).flush (l.done ++ m :: ys) l.done.length).names l.done.length =
      false := by
    rw [Bool.eq_false_iff]
    intro hnames
    have hlt := hlays.lt_of_names hnames
    omega
  unfold Cutter.slotAt
  split
  · exact hflush
  · rw [Plan.names, Plan.flush, List.any_append, Bool.or_eq_false_iff] at hflush
    exact hflush.1

/-- Where the plan goes on behind a child that is entered, the child is named as markers are. -/
theorem isMarker_of_passed (h : Agrees c l.done (m :: ys) slot l.assembly?)
    (hl : Cutter.Coherent c l (m :: ys)) (hm : m.isWhitespace = false) (mode : SkipMode)
    (hpassed : l.done.length < ((c.slotAt mode m ⟨l.done, ys⟩ slot).getD {}).cursor) :
    c.isMarker m = true := by
  unfold Cutter.slotAt at hpassed
  split at hpassed
  · next hmarker => exact (Bool.and_eq_true_iff.mp hmarker).2
  · cases slot with
    | none => exact absurd hpassed (Nat.not_lt_zero _)
    | some plan => exact (hl.comes (h.passed_iff.mp ⟨plan, rfl, hpassed⟩)).head hm

end Agrees

namespace Cutter

variable {c : Cutter} {m n : Node} {xs ys us vs : List Node} {s p : Progress} {site : Site}
  {d : Directive} {place : Place} {depth : Nat} {slot : Option Plan} {outside : List (Option Plan)}

/-- At the end the layout names the children that the plan holds, and all when there is no plan. -/
theorem any_names_layout (c : Cutter) (s : Progress) (site : Site) {k : Nat}
    (hk : k < (Walk.below c.visitor c.visitor_nonGrowing s site).2.length) :
    (c.layout s site).any (·.names k) =
      (Walk.below c.visitor c.visitor_nonGrowing s site).1.slots.head?.join.all (·.holds k) := by
  rw [layout]
  cases (Walk.below c.visitor c.visitor_nonGrowing s site).1.slots.head?.join with
  | some plan => exact plan.names_flush_end _ hk
  | none =>
    rw [Option.all_none, List.any_map, List.any_eq_true]
    exact ⟨k, List.mem_range.mpr hk, beq_self_eq_true k⟩

theorem countP_layout (hroot : s.rootExcluded = false) (kept : (c.enter s site).removed = false)
    (entered : (c.enter s site).skipped = false) {k : Nat}
    (hk : k < (Walk.below c.visitor c.visitor_nonGrowing s site).2.length) :
    (c.layout s site).countP (·.names k) =
      ((Walk.below c.visitor c.visitor_nonGrowing s site).1.slots.head?.join.all
        (·.holds k)).toNat := by
  obtain ⟨lost, hlays⟩ := lays_layout hroot kept entered
  rw [hlays.countP_names, any_names_layout c s site hk]

/-- An entry that a node has planned at the end stands in its layout. -/
theorem mem_layout {plan : Plan} {e : Entry}
    (hplan : (Walk.below c.visitor c.visitor_nonGrowing s site).1.slots.head?.join = some plan)
    (he : e ∈ plan.entries) : e ∈ c.layout s site := by
  rw [layout, hplan]
  exact List.mem_append_left _ he

theorem layout_of_none
    (hplan : (Walk.below c.visitor c.visitor_nonGrowing s site).1.slots.head?.join = none) :
    c.layout s site =
      (List.range (Walk.below c.visitor c.visitor_nonGrowing s site).2.length).map .keep := by
  rw [layout, hplan]

/-- The slot around a node when it is left in which a directive fires that takes back what was
planned. -/
def slotBehind (c : Cutter) (d : Directive) (n : Node) (place : Place) (slot : Option Plan) :
    Option Plan :=
  if d = .outer then some (c.planOuter n place.index (slot.getD {})) else slot

/-- The plan around such a node holds it, unless it went on behind the node before and `inner`
fires. -/
theorem holds_slotBehind (hd : d.discardsParent = true)
    (hnames : (slot.getD {}).names place.index = false)
    (hmarker : place.index < (slot.getD {}).cursor → c.isMarker n = true) :
    ((c.slotBehind d n place slot).getD {}).holds place.index =
      !decide (d = .inner ∧ place.index < (slot.getD {}).cursor) := by
  unfold slotBehind
  cases d with
  | start => cases hd
  | stop => cases hd
  | inner =>
    rw [if_neg (by decide), Plan.holds, hnames, Bool.false_or, ← decide_not, decide_eq_decide]
    simp
  | outer =>
    rw [if_pos rfl, Option.getD_some]
    by_cases hpassed : place.index < (slot.getD {}).cursor
    · rw [planOuter_of_passed (hmarker hpassed) hpassed, Plan.holds, Plan.names_keep]
      simp
    · rw [planOuter_of_behind hpassed, Plan.holds]
      simp [Plan.exclude, Nat.le_of_not_lt hpassed]

theorem mem_excluded_slotBehind (c : Cutter) (n : Node) (place : Place) (slot : Option Plan) :
    place.index ∈ ((c.slotBehind .outer n place slot).getD {}).excluded := by
  rw [slotBehind, if_pos rfl, Option.getD_some, planOuter]
  split
  · exact List.mem_cons_self
  · exact List.mem_cons_self

/-- A marker that cuts and in which `outer` fires stands by itself. -/
theorem keep_mem_slotBehind {mode : SkipMode} (hsplits : mode.splits = true)
    (hm : c.isMarker m = true) (cs : List Node) :
    Entry.keep place.index ∈ ((c.slotBehind .outer (m.withChildren cs) place
      (c.slotAt mode m place slot)).getD {}).entries := by
  have hmarker : c.isMarker (m.withChildren cs) = true := by
    rw [Node.isMarker_withChildren, hm]
  rw [slotAt, hsplits, hm, Bool.and_self, if_pos rfl, slotBehind, if_pos rfl, Option.getD_some,
    Option.getD_some, planOuter_of_passed hmarker (Nat.lt_succ_self place.index)]
  exact List.mem_append_right _ List.mem_cons_self

theorem Fires.slots_subtree (h : c.Fires p ⟨m, depth, some place⟩ d us n vs)
    (hd : d.discardsParent = true) (hroot : p.rootExcluded = false)
    (hslots : p.slots = slot :: outside) :
    let r := Walk.subtree c.visitor c.visitor_nonGrowing p ⟨m, depth, some place⟩
    ∃ cs, r.2 = some (m.withChildren cs) ∧ r.1.rootExcluded = false ∧
      r.1.slots = c.slotBehind d (m.withChildren cs) place (c.slotAt p.mode m place slot) ::
        outside := by
  intro r
  obtain ⟨-, houter, hassembly, -, -⟩ := h.levelBelow hd hroot
  obtain ⟨es, _, hend⟩ := tracks_leaving hroot h.kept h.entered
  obtain ⟨hbelow, inner, hinner⟩ := slots_below hslots hroot h.kept h.entered
  have hnone := hend.uncut_iff.mpr hassembly
  rw [hinner, List.head?_cons, Option.some.injEq] at hnone
  rw [hnone] at hinner
  have hmode : (Walk.below c.visitor c.visitor_nonGrowing p
      ⟨m, depth, some place⟩).1.mode = .outer ↔ d = .outer := by
    rw [hend.mode]
    exact houter
  obtain ⟨hnode, hleave⟩ := leave_without_plan (c := c) hinner (m.withChildren
    (Walk.below c.visitor c.visitor_nonGrowing p ⟨m, depth, some place⟩).2) depth place
  rw [show r = _ from subtree_of_entered h.kept h.entered, Walk.left, leaving_eq]
  refine ⟨_, congrArg some hnode, (c.rootExcluded_leave _ _ _ _).trans hbelow, ?_⟩
  simp only [hmode] at hleave
  exact hleave

/-- Behind a child in which such a directive fires, the plan of the parent goes on to the end. -/
theorem Fires.extends
    (h : c.Fires (Walk.arrival c.visitor c.visitor_nonGrowing s site xs (m :: ys)).1
      (Walk.childSite c.visitor c.visitor_nonGrowing s site xs m ys) d us n vs)
    (hd : d.discardsParent = true) (hroot : s.rootExcluded = false)
    (kept : (c.enter s site).removed = false) (entered : (c.enter s site).skipped = false)
    (children : site.node.children? = some (xs ++ m :: ys))
    (hslots : (Walk.arrival c.visitor c.visitor_nonGrowing s site xs (m :: ys)).1.slots =
      slot :: outside) :
    let a := Walk.arrival c.visitor c.visitor_nonGrowing s site xs (m :: ys)
    let below := Walk.below c.visitor c.visitor_nonGrowing s site
    ∃ cs behind, (Walk.subtree c.visitor c.visitor_nonGrowing a.1
        (Walk.childSite c.visitor c.visitor_nonGrowing s site xs m ys)).2 =
          some (m.withChildren cs) ∧
      below.2 = a.2 ++ m.withChildren cs :: behind ∧
      ∀ plan ∈ below.1.slots.head?.join, ((c.slotBehind d (m.withChildren cs) ⟨a.2, ys⟩
        (c.slotAt a.1.mode m ⟨a.2, ys⟩ slot)).getD {}).Extends a.2.length plan := by
  intro a below
  obtain ⟨_, _, harrival⟩ := tracks_child hroot kept entered xs (m :: ys)
  let r := Walk.subtree c.visitor c.visitor_nonGrowing a.1
    (Walk.childSite c.visitor c.visitor_nonGrowing s site xs m ys)
  obtain ⟨cs, hsubtree, hroot', hslot⟩ : ∃ cs, r.2 = some (m.withChildren cs) ∧
      r.1.rootExcluded = false ∧ r.1.slots = c.slotBehind d (m.withChildren cs) ⟨a.2, ys⟩
        (c.slotAt a.1.mode m ⟨a.2, ys⟩ slot) :: outside :=
    h.slots_subtree hd harrival.rootExcluded hslots
  obtain ⟨behind, hbehind⟩ : a.2 ++ r.2.toList <+: below.2 :=
    Walk.prefix_below c.visitor_nonGrowing ((c.children?_enter s site).trans children)
  rw [hsubtree, List.append_assoc] at hbehind
  refine ⟨cs, behind, hsubtree, hbehind.symm, fun plan hplan => ?_⟩
  have hgoes : Goes c (a.2 ++ r.2.toList) _ below.2 (some plan) :=
    goes_below hroot kept entered children rfl hslot hroot' hplan
  rw [hsubtree] at hgoes
  exact hgoes.plan_extends (by simp)

/-- At the end the plan of the parent holds such a child, unless it went on behind the child as soon
as that was entered and `inner` fires in it. -/
theorem Fires.holds
    (h : c.Fires (Walk.arrival c.visitor c.visitor_nonGrowing s site xs (m :: ys)).1
      (Walk.childSite c.visitor c.visitor_nonGrowing s site xs m ys) d us n vs)
    (hd : d.discardsParent = true) (hroot : s.rootExcluded = false)
    (kept : (c.enter s site).removed = false) (entered : (c.enter s site).skipped = false)
    (hslots : (Walk.arrival c.visitor c.visitor_nonGrowing s site xs (m :: ys)).1.slots =
      slot :: outside) {cs : List Node} {plan : Plan} :
    let a := Walk.arrival c.visitor c.visitor_nonGrowing s site xs (m :: ys)
    let around := c.slotAt a.1.mode m ⟨a.2, ys⟩ slot
    ((c.slotBehind d (m.withChildren cs) ⟨a.2, ys⟩ around).getD {}).Extends a.2.length plan →
      plan.holds a.2.length = !decide (d = .inner ∧ a.2.length < (around.getD {}).cursor) := by
  intro a around hextends
  have hblank : m.isWhitespace = false :=
    Node.isWhitespace_of_isContainer (Node.isContainer_of_children? h.children)
  let l := c.levelAll xs (m :: ys) (Level.ofProgress s).inside
  have hl : Coherent c l (m :: ys) := coherent_levelAll (coherent_of_none rfl _)
  obtain ⟨_, _, harrival⟩ := tracks_child hroot kept entered xs (m :: ys)
  obtain ⟨slot', hslots', hagree⟩ := harrival.slots
  obtain ⟨rfl, -⟩ := List.cons.inj (hslots.symm.trans hslots')
  have hdone : l.done = a.2 := harrival.done
  rw [← hdone] at hagree
  have hunnamed : (around.getD {}).names a.2.length = false := by
    have hnames := hagree.names_slotAt hblank a.1.mode
    rwa [hdone] at hnames
  have hmarker : a.2.length < (around.getD {}).cursor → c.isMarker (m.withChildren cs) = true := by
    have hpassed := hagree.isMarker_of_passed hl hblank a.1.mode
    rw [hdone] at hpassed
    rwa [Node.isMarker_withChildren]
  exact hextends.holds.trans (holds_slotBehind hd hunnamed hmarker)

/-- The plan of a node goes on behind its child `m` as soon as that is entered, and the plan is
carried out. -/
structure Drops (c : Cutter) (s : Progress) (site : Site) (xs : List Node) (m : Node)
    (ys : List Node) : Prop where
  passed : ∃ plan, (c.enter (Walk.arrival c.visitor c.visitor_nonGrowing s site xs (m :: ys)).1
      (Walk.childSite c.visitor c.visitor_nonGrowing s site xs m ys)).state.slots[1]? =
    some (some plan) ∧
    (Walk.arrival c.visitor c.visitor_nonGrowing s site xs (m :: ys)).2.length < plan.cursor
  planned : ∃ plan, (Walk.below c.visitor c.visitor_nonGrowing s site).1.slots.head? =
    some (some plan)

theorem drops_iff (kept : (c.enter (Walk.arrival c.visitor c.visitor_nonGrowing s site xs
      (m :: ys)).1 (Walk.childSite c.visitor c.visitor_nonGrowing s site xs m ys)).removed = false)
    (entered : (c.enter (Walk.arrival c.visitor c.visitor_nonGrowing s site xs (m :: ys)).1
      (Walk.childSite c.visitor c.visitor_nonGrowing s site xs m ys)).skipped = false)
    (hslots : (Walk.arrival c.visitor c.visitor_nonGrowing s site xs (m :: ys)).1.slots =
      slot :: outside) :
    let a := Walk.arrival c.visitor c.visitor_nonGrowing s site xs (m :: ys)
    c.Drops s site xs m ys ↔
      a.2.length < ((c.slotAt a.1.mode m ⟨a.2, ys⟩ slot).getD {}).cursor ∧
        (Walk.below c.visitor c.visitor_nonGrowing s site).1.slots.head?.join.isSome = true := by
  intro a
  have henter : (c.enter a.1 (Walk.childSite c.visitor c.visitor_nonGrowing s site xs m
      ys)).state.slots[1]? = some (c.slotAt a.1.mode m ⟨a.2, ys⟩ slot) := by
    rw [show (c.enter a.1 (Walk.childSite c.visitor c.visitor_nonGrowing s site xs m
      ys)).state.slots = _ from slots_enter hslots kept entered]
    rfl
  constructor
  · rintro ⟨⟨plan, hplan, hpassed⟩, ⟨plan', hplanned⟩⟩
    rw [henter] at hplan
    rw [Option.some.inj hplan, hplanned]
    exact ⟨hpassed, rfl⟩
  · rintro ⟨hpassed, hplanned⟩
    refine ⟨?_, ?_⟩
    · cases hslot : c.slotAt a.1.mode m ⟨a.2, ys⟩ slot with
      | none =>
        rw [hslot] at hpassed
        exact absurd hpassed (Nat.not_lt_zero _)
      | some plan =>
        rw [hslot] at hpassed henter
        exact ⟨plan, henter, hpassed⟩
    · obtain ⟨plan, hplan⟩ := Option.isSome_iff_exists.mp hplanned
      exact ⟨plan, Option.join_eq_some_iff.mp hplan⟩

/-- A child in which `inner` or `outer` fires stands once among the new children of its parent, bare
or in a slide, and by itself when it is a marker that cuts and `outer` fires in it. Only after
`inner` it can be gone: when the plan of the parent went on behind it as soon as it was entered, and
that plan is carried out. -/
theorem survives_unless_drops (c : Cutter) {tree : Node} {s : Progress} {site : Site}
    (comes : Walk.Comes c.visitor c.visitor_nonGrowing {} tree s site)
    (kept : (c.enter s site).removed = false) (entered : (c.enter s site).skipped = false)
    (children : site.node.children? = some (xs ++ m :: ys))
    (fires : c.Fires (Walk.arrival c.visitor c.visitor_nonGrowing s site xs (m :: ys)).1
      (Walk.childSite c.visitor c.visitor_nonGrowing s site xs m ys) d us n vs)
    (discards : d.discardsParent = true) :
    let a := Walk.arrival c.visitor c.visitor_nonGrowing s site xs (m :: ys)
    let below := Walk.below c.visitor c.visitor_nonGrowing s site
    let left := Walk.left c.visitor c.visitor_nonGrowing s site
    let layout := c.layout s site
    ∃ m' behind,
      (Walk.subtree c.visitor c.visitor_nonGrowing a.1
        (Walk.childSite c.visitor c.visitor_nonGrowing s site xs m ys)).2 = some m' ∧
      (∃ cs, m' = m.withChildren cs) ∧ below.2 = a.2 ++ m' :: behind ∧
      (∃ pieces lost, Lays 0 below.2 layout pieces lost) ∧
      left.node = site.node.withChildren (layout.flatMap (Entry.shown c.wrap below.2)) ∧
      (¬ (d = .inner ∧ c.Drops s site xs m ys) → layout.countP (·.names a.2.length) = 1) ∧
      (d = .inner ∧ c.Drops s site xs m ys → layout.countP (·.names a.2.length) = 0) ∧
      (d = .outer → a.1.mode.splits = true → c.isMarker m = true →
        Entry.keep a.2.length ∈ layout) := by
  intro a below left layout
  have hroot := rootExcluded_of_comes comes
  obtain ⟨_, _, harrival⟩ := tracks_child hroot kept entered xs (m :: ys)
  obtain ⟨slot, hslots, -⟩ := harrival.slots
  let around := (c.slotAt a.1.mode m ⟨a.2, ys⟩ slot).getD {}
  have hdrops : c.Drops s site xs m ys ↔
      a.2.length < around.cursor ∧ below.1.slots.head?.join.isSome = true :=
    drops_iff fires.kept fires.entered hslots
  obtain ⟨cs, behind, hsubtree, hbelow, hextends⟩ :=
    fires.extends discards hroot kept entered children hslots
  have hbelow : below.2 = a.2 ++ m.withChildren cs :: behind := hbelow
  have hlt : a.2.length < below.2.length := by
    rw [hbelow, List.length_append, List.length_cons]
    omega
  have hcount : layout.countP (·.names a.2.length) =
      (below.1.slots.head?.join.all (·.holds a.2.length)).toNat :=
    countP_layout hroot kept entered hlt
  obtain ⟨lost, hlays⟩ := lays_layout hroot kept entered
  refine ⟨_, behind, hsubtree, ⟨cs, rfl⟩, hbelow, ⟨_, lost, hlays⟩,
    left_node_layout hroot kept entered, ?_⟩
  rw [hcount, hdrops]
  cases hplan : below.1.slots.head?.join with
  | none =>
    have hlayout : layout = (List.range below.2.length).map .keep := layout_of_none hplan
    refine ⟨fun _ => rfl, fun hgone => absurd hgone.2.2 Bool.false_ne_true, fun _ _ _ => ?_⟩
    rw [hlayout]
    exact List.mem_map_of_mem (List.mem_range.mpr hlt)
  | some plan =>
    have hgoes := hextends plan hplan
    have hholds : plan.holds a.2.length = !decide (d = .inner ∧ a.2.length < around.cursor) :=
      fires.holds discards hroot kept entered hslots hgoes
    simp only [Option.all_some, hholds, Option.isSome_some, and_true]
    refine ⟨fun hstays => ?_, fun hgone => ?_, fun houter hsplits hm => ?_⟩
    · rw [decide_eq_false hstays]
      rfl
    · rw [decide_eq_true hgone]
      rfl
    · subst houter
      exact mem_layout hplan (hgoes.entries.subset (keep_mem_slotBehind hsplits hm cs))

/-- A marker with a comment for `outer`, that was passed over before the walk came to it. -/
theorem survives_unless_drops_outer :
    let c := Cutter.ofKeyword "hr" "Slide" ⟨[]⟩ "skip"
    let hr (cs : List Node) : Node := .element "hr" ⟨[]⟩ cs
    let box : Node := .component (some "Box") ⟨[]⟩ [.text "a", hr [], .text "b"]
    let note := Node.note "skip outer"
    let top := Site.top (.root [box, hr [note]])
    let a := Walk.arrival c.visitor c.visitor_nonGrowing {} top [box] [hr [note]]
    c.Fires a.1 (Walk.childSite c.visitor c.visitor_nonGrowing {} top [box] (hr [note]) [])
        .outer [] note [] ∧
      Entry.keep 1 ∈ c.layout {} top := by
  intro c hr box note top a
  have htop : Walk.Comes c.visitor c.visitor_nonGrowing {} top.node {} top := .top
  have hfires : c.Fires a.1 (Walk.childSite c.visitor c.visitor_nonGrowing {} top [box] (hr [note])
      []) .outer [] note [] :=
    ⟨by decide +kernel, by decide +kernel, rfl, .outer, by decide +kernel⟩
  have hlength : a.2.length = 1 := by decide +kernel
  obtain ⟨-, -, -, -, -, -, -, -, -, hkeep⟩ := c.survives_unless_drops htop (by decide +kernel)
    (by decide +kernel) rfl hfires rfl
  refine ⟨hfires, ?_⟩
  rw [← hlength]
  exact hkeep rfl (by decide +kernel) rfl

/-- A marker with a comment for `inner`. -/
theorem marker_dropped_by_inner :
    let c := Cutter.ofKeyword "hr" "Slide" ⟨[]⟩ "skip"
    let hr : Node := .element "hr" ⟨[]⟩ [.text "b", .note "skip inner"]
    let top := Site.top (.root [.text "a", hr, .text "c"])
    let a := Walk.arrival c.visitor c.visitor_nonGrowing {} top [.text "a"] [hr, .text "c"]
    c.Fires a.1 (Walk.childSite c.visitor c.visitor_nonGrowing {} top [.text "a"] hr [.text "c"])
        .inner [.text "b"] (.note "skip inner") [] ∧
      (c.layout {} top).countP (·.names a.2.length) = 0 ∧
      (c.cut top.node).2.elementsNamed "hr" = [] := by
  intro c hr top a
  refine ⟨⟨by decide +kernel, by decide +kernel, rfl, .inner, by decide +kernel⟩,
    by decide +kernel, ?_⟩
  rw [Node.elementsNamed_eq]
  exact List.isEmpty_iff.mp (by decide +kernel)

end Cutter
end SlideDeck
