import SlideDeck.Proofs.Slides.Callbacks
import SlideDeck.Proofs.Walk.Lineage

/-!
The slots of a cutter belong to the open nodes. The slot that the call entering a node pushes is
popped by the call that leaves this node, and between them it is changed by calls for the children
of the node only. So a plan is made, read, taken back and carried out for the node that has the
children whose indices it holds.
-/
namespace SlideDeck

namespace Event

/-- The calls that pushed the slots behind a call, with those that pushed the slots before it. -/
def reown (owners : List (Event Progress)) (e : Event Progress) : List (Event Progress) :=
  if e.state.slots.length < e.reply.state.slots.length then e :: owners
  else owners.drop (e.state.slots.length - e.reply.state.slots.length)

/-- The calls that pushed the slots behind the calls of a walk, the one on top first. -/
def ownersAfter (es : List (Event Progress)) : List (Event Progress) := es.foldl reown []

/-- What a call does to the slots. It pushes or pops that of its own node, and changes none of the
others but that of the parent, in which plans for the node are made. -/
structure Handles (c : Cutter) (e : Event Progress) : Prop where
  /-- The slot of a node that the walk goes below is empty. -/
  pushed : e.opens = true → e.reply.state.slots.head? = some none
  popped : e.phase = .leave → e.state.slots ≠ []
  /-- The plan of the parent is taken back only when the node is removed. -/
  parent : ∀ {place}, e.site.place? = some place → ∃ slot slot' above,
    e.outside e.state.slots = slot :: above ∧ e.outsideAfter e.reply.state.slots = slot' :: above ∧
      (Relation.ReflTransGen (Planned c e.reply.node place) slot slot' ∨
        e.reply.removed = true ∧ slot' = none)
  /-- Around the top of the tree there are no slots. -/
  top : e.site.place? = none →
    e.outside e.state.slots = [] ∧ e.outsideAfter e.reply.state.slots = []

namespace Handles

variable {c : Cutter} {e : Event Progress}

theorem length_eq (h : e.Handles c) :
    (e.outsideAfter e.reply.state.slots).length = (e.outside e.state.slots).length := by
  cases hplace : e.site.place? with
  | none =>
    obtain ⟨hslots, hslots'⟩ := h.top hplace
    rw [hslots, hslots']
  | some place =>
    obtain ⟨slot, slot', above, hslots, hslots', -⟩ := h.parent hplace
    rw [hslots, hslots', List.length_cons, List.length_cons]

theorem length_of_opens (h : e.Handles c) (opens : e.opens = true) (phase : e.phase = .enter) :
    e.reply.state.slots.length = e.state.slots.length + 1 := by
  have hlength := h.length_eq
  rw [outside_enter phase, outsideAfter_of_opens opens, List.length_tail] at hlength
  have hslots : e.reply.state.slots ≠ [] := by
    intro hnil
    have hpushed := h.pushed opens
    rw [hnil] at hpushed
    cases hpushed
  have hpos := List.length_pos_iff.mpr hslots
  omega

theorem length_of_passed (h : e.Handles c) (opens : e.opens = false) (phase : e.phase = .enter) :
    e.reply.state.slots.length = e.state.slots.length := by
  have hlength := h.length_eq
  rwa [outside_enter phase, outsideAfter_of_not_opens opens] at hlength

theorem length_of_leave (h : e.Handles c) (phase : e.phase = .leave) :
    e.reply.state.slots.length + 1 = e.state.slots.length := by
  have hlength := h.length_eq
  rw [outside_leave phase, outsideAfter_of_not_opens (opens_of_leave phase),
    List.length_tail] at hlength
  have hpos := List.length_pos_iff.mpr (h.popped phase)
  omega

/-- The slots show which nodes are open. -/
theorem reown_eq (h : e.Handles c) (owners : List (Event Progress)) :
    reown owners e = reopen owners e := by
  cases hphase : e.phase with
  | enter =>
    cases hopens : e.opens with
    | true => rw [reown, h.length_of_opens hopens hphase, reopen_opened hopens,
        if_pos (Nat.lt_succ_self _)]
    | false => rw [reown, h.length_of_passed hopens hphase, reopen_passed hphase hopens,
        if_neg (Nat.lt_irrefl _), Nat.sub_self, List.drop_zero]
  | leave =>
    have hlength := h.length_of_leave hphase
    rw [reown, reopen_left hphase, if_neg (by omega), ← hlength, Nat.add_sub_cancel_left,
      List.drop_one]

/-- A call goes on with a slot for each open node. -/
theorem length_reopen (h : e.Handles c) {owners : List (Event Progress)}
    (height : owners.length = e.state.slots.length) :
    (reopen owners e).length = e.reply.state.slots.length := by
  cases hphase : e.phase with
  | enter =>
    cases hopens : e.opens with
    | true => rw [reopen_opened hopens, h.length_of_opens hopens hphase, List.length_cons, height]
    | false => rw [reopen_passed hphase hopens, h.length_of_passed hopens hphase, height]
  | leave => rw [reopen_left hphase, List.length_tail, height, ← h.length_of_leave hphase,
      Nat.add_sub_cancel]

end Handles
end Event

open Event

/-- What holds of the slots at a call of the walk over a tree, behind the calls `front`. -/
structure Owned (c : Cutter) (tree : Node) (front : List (Event Progress)) (e : Event Progress) :
    Prop where
  height : (ownersAfter front).length = e.state.slots.length
  /-- When a node is entered the slots are those of its ancestors, with that of its parent on top.
  There are none at the top of the tree only. -/
  entered : e.phase = .enter → Lineage tree (ownersAfter front) e.site ∧
    (e.state.slots = [] ↔ e.site = .top tree)
  /-- When a node is left the slot on top is the one that was pushed when this node was entered,
  and those below it are the slots of its ancestors, with that of its parent first. -/
  left : e.phase = .leave → ∃ outer a inner children, front = outer ++ a :: inner ∧
    a.Bracket inner e ∧ e.site = { a.site with node := a.reply.node.withChildren children } ∧
    ownersAfter front = a :: ownersAfter outer ∧ Lineage tree (ownersAfter outer) a.site
  /-- The slot of a node is pushed when the walk goes below it, and popped when it is left. -/
  turns : ownersAfter (front ++ [e]) =
    if e.opens then e :: ownersAfter front else e.outside (ownersAfter front)
  passed : e.phase = .enter → e.reply.removed = true ∨ e.reply.skipped = true →
    e.reply.state.slots.length = e.state.slots.length
  handles : e.Handles c
  /-- The frames are the children of the nodes that have the slots: the innermost is what the call
  sees, and each of the others what the call for the next open node has left. -/
  framed : e.Framed (framesAfter [] front)
  frames : (framesAfter [] front).tail = (ownersAfter front).filterMap siblingsLeft?
  /-- The plan in a slot holds indices of the children of the node that has the slot. -/
  sound : List.Forall₂ (SoundSlot c) (framesAfter [] front) e.state.slots
  /-- A plan that is popped is carried out on the children of the node that is left. -/
  carriedOut : e.phase = .leave → ∀ {plan children}, e.state.slots.head? = some (some plan) →
    e.site.node.children? = some children → plan.CarriedOut c children ∧
      e.reply.node = e.site.node.withChildren
        ((plan.flush children children.length).build c.wrap children).1

namespace Cutter

variable {c : Cutter} {p q : Progress} {tree : Node} {site : Site}
  {above front es : List (Event Progress)} {e : Event Progress}

section Steps

variable {n : Node} {depth : Nat} {place : Place} {slot inner : Option Plan}
  {outside : List (Option Plan)}

/-- A call with an open node around its own, where the slots are known. -/
theorem handles_of_place {slot' : Option Plan} (hplace : e.site.place? = some place)
    (slots : e.outside e.state.slots = slot :: outside)
    (slots' : e.outsideAfter e.reply.state.slots = slot' :: outside)
    (change : Relation.ReflTransGen (Planned c e.reply.node place) slot slot' ∨
      e.reply.removed = true ∧ slot' = none)
    (pushed : e.opens = true → e.reply.state.slots.head? = some none)
    (popped : e.phase = .leave → e.state.slots ≠ []) : e.Handles c := by
  refine ⟨pushed, popped, fun {place'} hplace' => ?_, fun hnone => ?_⟩
  · obtain rfl := Option.some.inj (hplace.symm.trans hplace')
    exact ⟨slot, slot', outside, slots, slots', change⟩
  · rw [hplace] at hnone
    cases hnone

theorem handles_opened (hslots : p.slots = slot :: outside)
    (opens : (c.visitor.entering p ⟨n, depth, some place⟩).opens = true) :
    (c.visitor.entering p ⟨n, depth, some place⟩).Handles c := by
  obtain ⟨kept, entered⟩ : (c.enter p ⟨n, depth, some place⟩).removed = false ∧
      (c.enter p ⟨n, depth, some place⟩).skipped = false := by
    simpa [Event.opens, Event.enters, Visitor.entering, visitor] using opens
  have hslots' := slots_enter hslots kept entered
  have hnode : (c.visitor.entering p ⟨n, depth, some place⟩).reply.node = n := c.enter_node p _
  refine handles_of_place rfl ((outside_enter rfl _).trans hslots)
    ((outsideAfter_of_opens opens _).trans (congrArg List.tail hslots')) (.inl ?_)
    (fun _ => congrArg List.head? hslots') fun hphase => by cases hphase
  rw [hnode]
  exact c.planned_slotAt p.mode n place slot

theorem handles_passed (hslots : p.slots = slot :: outside)
    (opens : (c.visitor.entering p ⟨n, depth, some place⟩).opens = false) :
    (c.visitor.entering p ⟨n, depth, some place⟩).Handles c := by
  have hchange : ∃ slot', (c.enter p ⟨n, depth, some place⟩).state.slots = slot' :: outside ∧
      (slot' = slot ∨ (c.enter p ⟨n, depth, some place⟩).removed = true ∧ slot' = none) := by
    cases hremoved : (c.enter p ⟨n, depth, some place⟩).removed with
    | true =>
      obtain ⟨d, mode, -, hstate⟩ := enter_of_removed hremoved
      rw [hstate]
      refine ⟨_, slots_follow hslots d mode, ?_⟩
      cases d.discardsParent with
      | true => exact .inr ⟨rfl, rfl⟩
      | false => exact .inl rfl
    | false =>
      have hskipped : (c.enter p ⟨n, depth, some place⟩).skipped = true := by
        simpa [Event.opens, Event.enters, Visitor.entering, visitor, hremoved] using opens
      rw [(enter_of_skipped hskipped).2]
      exact ⟨slot, hslots, .inl rfl⟩
  obtain ⟨slot', hslots', hchange⟩ := hchange
  refine handles_of_place rfl ((outside_enter rfl _).trans hslots)
    ((outsideAfter_of_not_opens opens _).trans hslots') ?_ (fun hopens => ?_)
    fun hphase => by cases hphase
  · rcases hchange with rfl | hremoved
    · exact .inl .refl
    · exact .inr hremoved
  · rw [opens] at hopens
    cases hopens

theorem handles_left (hslots : p.slots = inner :: slot :: outside) :
    (c.visitor.leaving p ⟨n, depth, some place⟩).Handles c := by
  have hopens : (c.visitor.leaving p ⟨n, depth, some place⟩).opens = false := opens_of_leave rfl
  obtain ⟨slot', hslots', hplanned⟩ := planned_leave (c := c) (n := n) hslots depth place
  refine handles_of_place rfl ((outside_leave rfl _).trans (congrArg List.tail hslots))
    ((outsideAfter_of_not_opens hopens _).trans hslots') (.inl hplanned) (fun h => ?_) fun _ => ?_
  · rw [hopens] at h
    cases h
  · show p.slots ≠ []
    rw [hslots]
    exact List.cons_ne_nil _ _

theorem slots_enter_top (hslots : p.slots = []) (tree : Node) :
    (c.enter p (.top tree)).state.slots =
      if (c.visitor.entering p (.top tree)).opens then [none] else [] := by
  have hfollow (d : Directive) (mode : SkipMode) : (follow d mode p).slots = [] := by
    unfold follow
    cases d.discardsParent with
    | true => simp only [if_true, Progress.discard, hslots]
    | false => exact hslots
  show (c.enter p (.top tree)).state.slots = if !(c.enter p (.top tree)).removed &&
    !(c.enter p (.top tree)).skipped then [none] else []
  unfold enter
  split
  · exact hslots
  · split
    · next hmarker => simp [Site.top, Site.hasParent] at hmarker
    · split
      · exact hfollow _ _
      · exact congrArg (none :: ·) hslots

end Steps

/-- A node is entered with a slot for each of its ancestors. -/
theorem handles_entering (lineage : Lineage tree above site)
    (height : above.length = p.slots.length) : (c.visitor.entering p site).Handles c := by
  cases lineage with
  | top =>
    have hslots : p.slots = [] := List.length_eq_zero_iff.mp height.symm
    have hslots' := slots_enter_top (c := c) hslots tree
    refine ⟨fun hopens => ?_, fun hphase => (by cases hphase), fun hplace => (by cases hplace),
      fun _ => ⟨(outside_enter rfl _).trans hslots, ?_⟩⟩
    · rw [if_pos hopens] at hslots'
      exact congrArg List.head? hslots'
    · rw [outsideAfter]
      split
      · next hopens =>
        rw [if_pos hopens] at hslots'
        exact congrArg List.tail hslots'
      · next hopens =>
        rw [if_neg hopens] at hslots'
        exact hslots'
  | @child a above visited before after n parent opens children =>
    obtain ⟨slot, outside, hslots⟩ : ∃ slot outside, p.slots = slot :: outside :=
      List.exists_cons_of_length_eq_add_one height.symm
    cases hopens : (c.visitor.entering p ⟨n, a.site.depth + 1, some ⟨before, after⟩⟩).opens with
    | true => exact handles_opened hslots hopens
    | false => exact handles_passed hslots hopens

/-- A node is left with its own slot above those of its ancestors. -/
theorem handles_leaving (lineage : Lineage tree above site) (n : Node)
    (height : above.length + 1 = p.slots.length) :
    (c.visitor.leaving p { site with node := n }).Handles c := by
  cases lineage with
  | top =>
    obtain ⟨inner, hslots⟩ : ∃ inner, p.slots = [inner] := List.length_eq_one_iff.mp height.symm
    have hslots' := slots_leave_top (c := c) hslots n
    have hopens : (c.visitor.leaving p ⟨n, 0, none⟩).opens = false := opens_of_leave rfl
    refine ⟨fun h => (by cases hopens.symm.trans h), fun _ => ?_, fun hplace => (by cases hplace),
      fun _ => ⟨(outside_leave rfl _).trans (congrArg List.tail hslots),
        (outsideAfter_of_not_opens hopens _).trans hslots'⟩⟩
    show p.slots ≠ []
    rw [hslots]
    exact List.cons_ne_nil _ _
  | @child a above visited before after m parent opens children =>
    obtain ⟨inner, outside, hslots⟩ : ∃ inner outside, p.slots = inner :: outside :=
      List.exists_cons_of_length_eq_add_one height.symm
    rw [hslots, List.length_cons, List.length_cons] at height
    obtain ⟨slot, outside, rfl⟩ := List.exists_cons_of_length_eq_add_one
      (Nat.succ.inj height.symm)
    exact handles_left hslots

theorem handles_of_nested (nested : e.Nested tree [] front)
    (call : e = c.visitor.entering e.state e.site ∨ e = c.visitor.leaving e.state e.site)
    (height : (openAfter [] front).length = e.state.slots.length) : e.Handles c := by
  rcases call with hcall | hcall
  · have hlineage := nested.entered (congrArg Event.phase hcall)
    rw [hcall]
    exact handles_entering hlineage height
  · obtain ⟨outer, a, inner, children, -, -, hsite, hopen, hlineage⟩ :=
      nested.left (congrArg Event.phase hcall)
    rw [hopen, List.length_cons] at height
    rw [hcall, hsite]
    exact handles_leaving hlineage _ height

section Run

variable {rest : List (Event Progress)} {left : List Node}
  (h : Walk.Calls c.visitor {} 0 [] [tree] es q left)

include h

/-- Behind calls of the walk, the slots are those that the calls for the open nodes have pushed. -/
theorem owners_eq (hes : es = front ++ rest) :
    ownersAfter front = openAfter [] front ∧
      (openAfter [] front).length = (stateAfter {} front).slots.length := by
  induction front using List.reverseRecOn generalizing rest with
  | nil => exact ⟨rfl, rfl⟩
  | append_singleton front e ih =>
    rw [List.append_assoc, List.singleton_append] at hes
    obtain ⟨howners, hheight⟩ := ih hes
    obtain ⟨hstate, hcall⟩ := h.threads hes
    rw [← hstate] at hheight
    have hhandles := handles_of_nested (h.nested_top hes) hcall hheight
    refine ⟨?_, ?_⟩
    · rw [ownersAfter, openAfter, List.foldl_append, List.foldl_append]
      show reown (ownersAfter front) e = reopen (openAfter [] front) e
      rw [howners, hhandles.reown_eq]
    · rw [openAfter, stateAfter, List.foldl_append, List.foldl_append]
      exact hhandles.length_reopen hheight

theorem sound_before (hes : es = front ++ rest) :
    List.Forall₂ (SoundSlot c) (framesAfter [] front) (stateAfter {} front).slots := by
  cases front using List.reverseRecOn with
  | nil => exact .nil
  | append_singleton front e =>
    rw [List.append_assoc, List.singleton_append] at hes
    have hcallback := (callbacks_top h).split hes
    rw [framesAfter, stateAfter, List.foldl_append, List.foldl_append]
    exact hcallback.sound

theorem owned (hes : es = front ++ e :: rest) : Owned c tree front e := by
  obtain ⟨howners, hheight⟩ := owners_eq h hes
  obtain ⟨hstate, hcall⟩ := h.threads hes
  have hsound := sound_before h hes
  rw [← hstate] at hheight hsound
  have hnested := h.nested_top hes
  have hhandles := handles_of_nested hnested hcall hheight
  refine ⟨howners ▸ hheight, fun hphase => ?_, fun hphase => ?_, ?_, fun hphase hpassed => ?_,
    hhandles, h.framed_top.split hes, howners ▸ h.tail_framesAfter hes, hsound,
    ((callbacks_top h).split hes).carriedOut⟩
  · have hlineage := hnested.entered hphase
    rw [howners, ← hlineage.eq_nil_iff, ← List.length_eq_zero_iff, ← hheight,
      List.length_eq_zero_iff]
    exact ⟨hlineage, Iff.rfl⟩
  · obtain ⟨outer, a, inner, children, rfl, hbracket, hsite, hopen, hlineage⟩ :=
      hnested.left hphase
    have houter : es = outer ++ a :: (inner ++ e :: rest) := by simp [hes]
    rw [← (owners_eq h houter).1] at hopen hlineage
    exact ⟨outer, a, inner, children, rfl, hbracket, hsite, howners.trans hopen, hlineage⟩
  · have hturned : es = front ++ [e] ++ rest := by simp [hes]
    rw [(owners_eq h hturned).1, openAfter_append, howners]
    rfl
  · refine hhandles.length_of_passed ?_ hphase
    rcases hpassed with hpassed | hpassed <;> simp [Event.opens, hpassed]

end Run

/-- Over any tree, with any names and any skip comments, every slot is pushed, changed, popped and
carried out for one and the same node, and no slot is left at the end. -/
theorem owned_throughout (c : Cutter) (tree : Node) :
    let es := Walk.calls c.visitor c.visitor_nonGrowing {} tree
    (∀ front e rest, es = front ++ e :: rest → Owned c tree front e) ∧
      ownersAfter es = [] ∧ (c.walk tree).1.slots = [] := by
  obtain ⟨kept?, hcalls, -⟩ := Walk.calls_of_toEnd c.visitor_nonGrowing {} tree
  obtain ⟨howners, hheight⟩ := owners_eq hcalls (List.append_nil _).symm
  rw [hcalls.openAfter_eq, hcalls.stateAfter_eq] at hheight
  rw [hcalls.openAfter_eq] at howners
  exact ⟨fun front e rest hes => owned hcalls hes, howners,
    List.length_eq_zero_iff.mp hheight.symm⟩

/-- Behind the last child of a section the slots belong to the section and to the root. A comment
that is removed has none, nor has a text that is skipped. -/
example :
    let c := Cutter.ofKeyword "hr" "Slide" ⟨[]⟩ "skip"
    let tree : Node := .root [.element "section" {} [.text "a", .note "skip inner", .text "b"]]
    let es := Walk.calls c.visitor c.visitor_nonGrowing {} tree
    (ownersAfter (es.take 6)).map (·.site.node.name?) = [some "section", none] := by
  cbv

end Cutter
end SlideDeck
