import SlideDeck.Proofs.Slides.Upkeep
import SlideDeck.Proofs.Walk.Frames

/-!
The plans of the open nodes through a whole walk. Behind every call each of them is sound for the
children that its node has there, and the index of a child that it names or excludes goes on
denoting that child. When the node is left, carrying out its plan comes to nothing that is missing.
-/
namespace SlideDeck

/-- What holds at a call of the cutter, with the children `frames` of the nodes that are open before
the call. -/
structure Callback (c : Cutter) (frames : List (List Node)) (e : Event Progress) : Prop where
  /-- Behind the call every open node has a slot, and a plan in it is sound. -/
  sound : List.Forall₂ (SoundSlot c) (e.reframe frames) e.reply.state.slots
  carries : ∀ {k : Nat} {slot slot' : Option Plan} {children children' : List Node},
    (e.outside e.state.slots)[k]? = some slot →
    (e.outsideAfter e.reply.state.slots)[k]? = some slot' →
    (e.outside frames)[k]? = some children →
    (e.outsideAfter (e.reframe frames))[k]? = some children' → Carries slot slot' children children'
  /-- Only a node with a directive is removed, at no index below the cursor of its parent's plan and
  above all indices of that plan. -/
  removed : e.reply.removed = true → e.phase = .enter ∧ (c.directive? e.site.node).isSome = true ∧
    ∀ {place plan}, e.site.place? = some place → e.state.slots.head? = some (some plan) →
      plan.cursor ≤ place.index ∧ ∀ i ∈ plan.named ++ plan.excluded, i < place.index
  /-- A node that has a plan gets its new children from it. -/
  carriedOut : e.phase = .leave → ∀ {plan children}, e.state.slots.head? = some (some plan) →
    e.site.node.children? = some children → plan.CarriedOut c children ∧
      e.reply.node = e.site.node.withChildren
        ((plan.flush children children.length).build c.wrap children).1

variable {c : Cutter} {slot slot' : Option Plan} {outside : List (Option Plan)}
  {before after rest todo children children' : List Node} {outer : List (List Node)} {n : Node}
  {p q : Progress} {l : Level} {depth : Nat}

namespace Cutter

section Run

variable {e : Event Progress} {es : List (Event Progress)} {left : List Node}

/-- What a call does to the innermost of the open nodes around its own, where the slots and frames
of these are known. -/
theorem carries_outside {frames : List (List Node)} (outside : List (Option Plan))
    (outer : List (List Node)) (h : Carries slot slot' children children')
    (slots : e.outside e.state.slots = slot :: outside)
    (slots' : e.outsideAfter e.reply.state.slots = slot' :: outside)
    (frame : e.outside frames = children :: outer)
    (frame' : e.outsideAfter (e.reframe frames) = children' :: outer)
    {k : Nat} {x x' : Option Plan} {cs cs' : List Node}
    (hx : (e.outside e.state.slots)[k]? = some x)
    (hx' : (e.outsideAfter e.reply.state.slots)[k]? = some x')
    (hcs : (e.outside frames)[k]? = some cs)
    (hcs' : (e.outsideAfter (e.reframe frames))[k]? = some cs') : Carries x x' cs cs' := by
  rw [slots] at hx
  rw [slots'] at hx'
  rw [frame] at hcs
  rw [frame'] at hcs'
  exact h.cons hx hx' hcs hcs'

/-- What the two ways to pass a node have in common. -/
theorem callback_of_passed (phase : e.phase = .enter) (opens : e.opens = false)
    (site : e.site = .among depth before n rest) (deep : 0 < depth)
    (houter : List.Forall₂ (SoundSlot c) outer outside)
    (hslots : e.state.slots = slot :: outside)
    (hslots' : e.reply.state.slots = slot' :: outside)
    (hcarries : Carries slot slot' (before ++ n :: rest) (before ++ e.kept?.toList ++ rest))
    (hsteady : Steady c e.reply.state outside (before ++ e.kept?.toList) rest l)
    (hremoved : e.reply.removed = true → (c.directive? n).isSome = true ∧
      ∀ plan, slot = some plan → plan.cursor ≤ before.length ∧
        ∀ i ∈ plan.named ++ plan.excluded, i < before.length) :
    Callback c ((before ++ n :: rest) :: outer) e := by
  have hreframe := Walk.reframe_passed phase opens deep site (before ++ n :: rest) outer
  rw [Site.among_of_pos deep] at site
  refine ⟨?_, carries_outside outside outer hcarries ?_ ?_ ?_ ?_,
    fun hr => ⟨phase, ?_, fun hplace hplan => ?_⟩, fun hleave => ?_⟩
  · rw [hreframe]
    exact hsteady.sound houter
  · rw [Event.outside_enter phase, hslots]
  · rw [Event.outsideAfter_of_not_opens opens, hslots']
  · exact Event.outside_enter phase _
  · rw [Event.outsideAfter_of_not_opens opens, hreframe]
  · rw [site]
    exact (hremoved hr).1
  · rw [site] at hplace
    rw [hslots] at hplan
    cases hplace
    exact (hremoved hr).2 _ (Option.some.inj hplan)
  · rw [phase] at hleave
    cases hleave

theorem callback_passed (h : Steady c p outside before (n :: rest) l)
    (enter : e = c.visitor.entering p (.among depth before n rest)) (opens : e.opens = false)
    (deep : depth = outer.length + 1) (houter : List.Forall₂ (SoundSlot c) outer outside) :
    Callback c ((before ++ n :: rest) :: outer) e ∧
      Steady c e.reply.state outside (before ++ e.kept?.toList) rest (c.level n rest l) := by
  obtain ⟨hphase, hsite, -⟩ := Visitor.eq_of_entering enter
  have hstate : e.state = p := congrArg Event.state enter
  have hdeep : 0 < depth := by omega
  rw [Site.among_of_pos hdeep] at enter
  cases hr : e.reply.removed with
  | true =>
    obtain ⟨hsteady, hdirective, slot, slot', hslots, hslots', hcarries, habove⟩ :=
      steady_removed h enter hr
    have hkept : e.kept?.toList = [] := by
      rw [Event.kept?, hr, if_pos rfl, Option.toList_none]
    rw [← List.append_nil before, ← hkept] at hsteady
    refine ⟨callback_of_passed hphase opens hsite hdeep houter (hstate ▸ hslots) hslots' ?_ hsteady
      fun _ => ⟨hdirective, habove⟩, hsteady⟩
    rwa [hkept, List.append_nil]
  | false =>
    have hskipped : e.reply.skipped = true := by
      simpa [Event.opens, Event.enters, hphase, hr] using opens
    obtain ⟨hp, -, hsteady⟩ := steady_skipped h enter hskipped
    have hnode : e.reply.node = n := by
      rw [enter]
      exact c.enter_node p _
    have hkept : e.kept?.toList = [n] := by
      rw [Event.kept?, hr, if_neg Bool.false_ne_true, hnode, Option.toList_some]
    obtain ⟨record, htracks⟩ := hsteady.tracks
    obtain ⟨slot, hslots, -⟩ := htracks.slots
    rw [← hp, ← hkept] at hsteady
    refine ⟨callback_of_passed hphase opens hsite hdeep houter (hstate ▸ hslots) (hp ▸ hslots) ?_
      hsteady fun hr' => ?_, hsteady⟩
    · rw [hkept, List.append_assoc, List.singleton_append]
      exact .refl _ _
    · rw [hr] at hr'
      cases hr'

/-- The walk goes below a node. -/
theorem callback_opened (h : Steady c p outside before (n :: rest) l)
    (enter : e = c.visitor.entering p (.among depth before n rest)) (opens : e.opens = true)
    (deep : depth = outer.length + 1) (houter : List.Forall₂ (SoundSlot c) outer outside) :
    Callback c ((before ++ n :: rest) :: outer) e ∧ ∃ slot, Pending c slot n rest l ∧
      Steady c e.reply.state (slot :: outside) [] (n.children?.getD []) l.inside := by
  obtain ⟨hphase, hsite, -⟩ := Visitor.eq_of_entering enter
  have hstate : e.state = p := congrArg Event.state enter
  have hnode : e.reply.node = n := by
    rw [enter]
    exact c.enter_node p _
  have hreframe := Walk.reframe_opened opens (by omega) hsite (before ++ n :: rest) outer
  rw [hnode] at hreframe
  rw [Site.among_of_pos (by omega)] at enter
  obtain ⟨slot, slot', hslots, hslots', hcarries, hpending, hsteady⟩ := steady_opened h enter opens
  have hslot := hpending.soundSlot
  rw [h.done] at hslot
  refine ⟨⟨?_, carries_outside outside outer hcarries ?_ ?_ ?_ ?_, fun hr => ?_,
    fun hleave => ?_⟩, slot', hpending, hsteady⟩
  · rw [hreframe, hslots']
    exact .cons (fun plan hplan => by cases hplan) (.cons hslot houter)
  · rw [Event.outside_enter hphase, hstate, hslots]
  · rw [Event.outsideAfter_of_opens opens, hslots', List.tail_cons]
  · exact Event.outside_enter hphase _
  · rw [Event.outsideAfter_of_opens opens, hreframe, List.tail_cons]
  · simp [Event.opens, hr] at opens
  · rw [hphase] at hleave
    cases hleave

theorem callback_left (h : Pending c slot n rest l)
    (hq : Steady c q (slot :: outside) children [] (c.levelBelow n l))
    (leave : e = c.visitor.leaving q (.among depth l.done (n.withChildren children) rest))
    (deep : depth = outer.length + 1) (houter : List.Forall₂ (SoundSlot c) outer outside) :
    Callback c (children :: (l.done ++ n :: rest) :: outer) e ∧
      Steady c e.reply.state outside (l.done ++ e.kept?.toList) rest (c.level n rest l) := by
  obtain ⟨hphase, hsite, hreply⟩ := Visitor.eq_of_leaving leave
  have hstate : e.state = q := congrArg Event.state leave
  have hremoved : e.reply.removed = false := by
    rw [hreply]
    rfl
  have hkept : e.kept? = some e.reply.node := by
    rw [Event.kept?, hremoved, if_neg Bool.false_ne_true]
  have hreframe := Walk.reframe_left hphase (by omega) hsite children (l.done ++ n :: rest) outer
  rw [Site.among_of_pos (by omega)] at leave hsite
  obtain ⟨record, htracks⟩ := hq.tracks
  obtain ⟨inner, hinner, -⟩ := htracks.slots
  obtain ⟨hsteady, ⟨slot', hslots', hcarries⟩, hcarried⟩ := steady_left h hq leave
  rw [hkept, Option.toList_some] at hreframe ⊢
  have hopens := Event.opens_of_leave hphase
  refine ⟨⟨?_, carries_outside outside outer hcarries ?_ ?_ ?_ ?_, fun hr => ?_,
    fun _ _ _ hplan hchildren => ?_⟩, hsteady⟩
  · rw [hreframe]
    exact hsteady.sound houter
  · rw [Event.outside_leave hphase, hstate, show q.slots = inner :: slot :: outside from hinner,
      List.tail_cons]
  · rw [Event.outsideAfter_of_not_opens hopens, hslots']
  · exact Event.outside_leave hphase _
  · rw [Event.outsideAfter_of_not_opens hopens, hreframe]
  · rw [hremoved] at hr
    cases hr
  · rw [hsite] at hchildren ⊢
    rw [hstate] at hplan
    exact hcarried hplan hchildren

/-- The calls for siblings, where the walk is at a level among them. -/
theorem callbacks (h : Walk.Calls c.visitor p depth before todo es q left)
    (hsteady : Steady c p outside before todo l) (deep : depth = outer.length + 1)
    (houter : List.Forall₂ (SoundSlot c) outer outside) :
    Event.Throughout (Callback c) ((before ++ todo) :: outer) es ∧
      Steady c q outside left [] (c.levelAll todo [] l) := by
  induction h generalizing outside outer l with
  | none =>
    rw [levelAll_nil]
    exact ⟨trivial, hsteady⟩
  | @passed p depth before n rest e es q left enter opens further ih =>
    obtain ⟨hphase, hsite, -⟩ := Visitor.eq_of_entering enter
    obtain ⟨hcallback, hnext⟩ := callback_passed hsteady enter opens deep houter
    obtain ⟨hcallbacks, hend⟩ := ih hnext deep houter
    rw [Event.Throughout, Walk.reframe_passed hphase opens (by omega) hsite, levelAll_cons,
      List.append_nil]
    exact ⟨⟨hcallback, hcallbacks⟩, hend⟩
  | @visited p depth before n rest e inner u children k es q left enter opens inside leave further
      ihInside ih =>
    obtain ⟨-, hsite, hreply⟩ := Visitor.eq_of_entering enter
    obtain ⟨hphase, hleft, -⟩ := Visitor.eq_of_leaving leave
    obtain ⟨hcallback, slot, hpending, hinside⟩ := callback_opened hsteady enter opens deep houter
    have hslot := hpending.soundSlot
    obtain rfl := hsteady.done
    have hnode : e.reply.node = n := by
      rw [hreply]
      exact c.enter_node p _
    have hchildren : e.children = n.children?.getD [] := by rw [Event.children, hnode]
    have hdeeper : depth + 1 = ((l.done ++ n :: rest) :: outer).length + 1 := by
      rw [List.length_cons, deep]
    rw [hchildren] at ihInside inside
    rw [hnode] at leave
    obtain ⟨hinner, hbelow⟩ := ihInside hinside hdeeper (.cons hslot houter)
    obtain ⟨hcallback', hnext⟩ := callback_left hpending hbelow leave deep houter
    obtain ⟨hcallbacks, hend⟩ := ih hnext deep houter
    have hframes := (inside.framed hdeeper).2
    rw [List.nil_append] at hinner hframes
    rw [Event.Throughout, Event.throughout_append, Walk.reframe_opened opens (by omega) hsite,
      hnode, hchildren, hframes, Event.Throughout, Walk.reframe_left hphase (by omega) hleft,
      levelAll_cons, List.append_nil]
    exact ⟨⟨hcallback, hinner, hcallback', hcallbacks⟩, hend⟩

theorem slots_leave_top {inner : Option Plan} (hslots : q.slots = [inner]) (n : Node) :
    (c.leave q ⟨n, 0, none⟩).state.slots = [] := by
  have hend (n : Node) (p : Progress) : (c.endSkip ⟨n, 0, none⟩ p).slots = p.slots := by
    unfold endSkip
    cases p.mode <;> rfl
  have hclosed : q.closed = (inner, { q with slots := [] }) := by
    rw [Progress.closed, hslots]
    rfl
  simp only [leave, hclosed, hend]
  cases inner with
  | none => rfl
  | some plan =>
    unfold finish
    cases n.children? <;> rfl

/-- A top that is taken out because of a directive has no open node around it. -/
theorem callback_top_passed {tree : Node} (enter : e = c.visitor.entering {} (.top tree))
    (opens : e.opens = false) : Callback c [] e := by
  subst enter
  have hremoved : (c.enter {} (.top tree)).removed = true := by
    have hskipped : (c.enter {} (.top tree)).skipped = false := by
      rw [Bool.eq_false_iff]
      intro hs
      cases (enter_of_skipped hs).1
    simpa [Event.opens, Event.enters, Visitor.entering, visitor, hskipped] using opens
  obtain ⟨d, mode, hfires, hstate⟩ := enter_of_removed hremoved
  have hslots : (c.enter {} (.top tree)).state.slots = [] := by
    rw [hstate, follow]
    split <;> rfl
  have hreframe : Event.reframe [] (c.visitor.entering {} (.top tree)) = [] := by
    rw [Event.reframe, opens, if_neg Bool.false_ne_true]
    rfl
  refine ⟨?_, fun hx => ?_, fun _ => ⟨rfl, ?_, fun hplace => ?_⟩, fun hleave => ?_⟩
  · rw [hreframe, show (c.visitor.entering {} (.top tree)).reply.state.slots = [] from hslots]
    exact .nil
  · cases hx
  · exact Option.isSome_of_eq_some (transition_of_fires? hfires).1
  · cases hplace
  · cases hleave

theorem steady_top {tree : Node} (enter : e = c.visitor.entering {} (.top tree))
    (opens : e.opens = true) :
    e.reply.node = tree ∧ e.reply.state.slots = [none] ∧
      Steady c e.reply.state [] [] (tree.children?.getD []) {} := by
  subst enter
  obtain ⟨kept, entered⟩ : (c.enter {} (.top tree)).removed = false ∧
      (c.enter {} (.top tree)).skipped = false := by
    simpa [Event.opens, Event.enters, Visitor.entering, visitor] using opens
  have hfires : c.fires? .stopped tree = none := by
    cases hf : c.fires? .stopped tree with
    | none => rfl
    | some r => simp [enter, Site.top, Site.hasParent, SkipMode.suppressesDescent, hf] at kept
  have hreply : c.enter {} (.top tree) = ⟨Progress.opened {}, tree, false, false⟩ := by
    simp [enter, Site.top, Site.hasParent, SkipMode.suppressesDescent, hfires]
  rw [show (c.visitor.entering {} (.top tree)).reply = _ from hreply]
  have hinside := tracks_inside (c := c) (p := {}) (l := {}) [] (tree.children?.getD []) rfl rfl rfl
    rfl
  refine ⟨rfl, rfl, ⟨[], hinside⟩, coherent_of_none rfl _, fun m hm => ?_⟩
  cases hm

theorem callback_top_left {tree : Node} {l : Level}
    (hq : Steady c q [] children [] l) (leave : e = c.visitor.leaving q
      ⟨tree.withChildren children, 0, none⟩) : Callback c [children] e := by
  subst leave
  obtain ⟨⟨record, htracks⟩, -, hmarkers⟩ := hq
  obtain rfl := htracks.done
  obtain ⟨inner, hinner, hagree⟩ := htracks.slots
  have hslots : q.slots = [inner] := hinner
  refine ⟨?_, fun hx => ?_, fun hr => ?_, fun _ {plan cs} hplan hchildren => ⟨?_, ?_⟩⟩
  · rw [show (c.visitor.leaving q _).reply.state.slots = [] from slots_leave_top hslots _]
    exact .nil
  · rw [Event.outside_leave rfl,
      show (c.visitor.leaving q _).state.slots = [inner] from hslots] at hx
    cases hx
  · cases hr
  · rw [show (c.visitor.leaving q _).state.slots.head? = some inner from
      congrArg List.head? hslots] at hplan
    obtain rfl := Option.some.inj hplan
    have hcs : cs = l.done := by
      have hsome : (tree.withChildren l.done).children? = some cs := hchildren
      rw [Node.children?_withChildren, Option.map_eq_some_iff] at hsome
      obtain ⟨-, -, hdone⟩ := hsome
      exact hdone.symm
    subst hcs
    exact hagree.carriedOut hmarkers
  · exact c.node_leave_of_plan hplan hchildren

/-- The calls for a tree, whatever the tree. -/
theorem callbacks_top {tree : Node} (h : Walk.Calls c.visitor {} 0 [] [tree] es q left) :
    Event.Throughout (Callback c) [] es := by
  cases h with
  | passed enter opens further =>
    cases further
    exact ⟨callback_top_passed enter opens, trivial⟩
  | @visited _ _ _ _ _ e inner u children k _ _ _ enter opens inside leave further =>
    cases further
    obtain ⟨hnode, hslots, hsteady⟩ := steady_top enter opens
    have hchildren : e.children = tree.children?.getD [] := by rw [Event.children, hnode]
    rw [hchildren] at inside
    rw [hnode] at leave
    have hreframe : Event.reframe [] e = [tree.children?.getD []] := by
      rw [Event.reframe, opens, if_pos rfl, hchildren, enter]
      rfl
    have hdeep : 0 + 1 = ([] : List (List Node)).length + 1 := rfl
    obtain ⟨hinner, hbelow⟩ := callbacks inside hsteady hdeep .nil
    have hframes := (inside.framed hdeep).2
    rw [List.nil_append] at hinner hframes
    rw [Event.Throughout, Event.throughout_append, hreframe, hframes]
    refine ⟨⟨?_, fun hx => ?_, fun hr => ?_, fun hleave => ?_⟩, hinner,
      callback_top_left hbelow leave, trivial⟩
    · rw [hreframe, hslots]
      exact .cons (fun plan hplan => by cases hplan) .nil
    · rw [enter] at hx
      cases hx
    · rw [Event.opens, hr] at opens
      simp at opens
    · rw [enter] at hleave
      cases hleave

end Run

/-- Through the whole walk over any tree, with any names and any skip comments, the frames are the
children that the calls see, the plans of all open nodes are sound for them behind every call, and
every plan that is carried out finds all it names. -/
theorem sound_throughout (c : Cutter) (tree : Node) :
    Event.Throughout (fun frames e => e.Framed frames ∧ Callback c frames e) []
      (Walk.calls c.visitor c.visitor_nonGrowing {} tree) := by
  obtain ⟨kept?, hcalls, -⟩ := Walk.calls_of_toEnd c.visitor_nonGrowing {} tree
  exact (Walk.framed_calls c.visitor_nonGrowing {} tree).and (callbacks_top hcalls)

/-- When the section at index 1 is left, the plan around it names the blanks behind the section, and
its cursor is past the marker that comes then. -/
example :
    let c := Cutter.ofKeyword "hr" "Slide" ⟨[]⟩ "skip"
    let hr : Node := .element "hr" {} []
    let tree : Node :=
      .root [.text "a", .element "section" {} [.text "b", hr], .text " ", hr, .text "c"]
    ((Walk.calls c.visitor c.visitor_nonGrowing {} tree)[8]?).map (fun e => (e.phase,
        e.site.index?, e.reply.state.slots)) =
      some (.leave, some 1, [some ⟨[.slide 0 1, .keep 1, .keep 2], 4, []⟩]) := by
  cbv

end Cutter
end SlideDeck
