import Mathlib.Data.List.Forall2
import SlideDeck.Proofs.Slides.Soundness
import SlideDeck.Proofs.Slides.Whole
import SlideDeck.Proofs.Walk.Calls

/-!
What the calls for a child do to the plan around it. Whatever becomes of the child, the plan goes on
or is taken back as a whole, the indices that it has denote the children that they denoted before,
and it is sound again.
-/
namespace SlideDeck

/-- A plan in the slot of a node with the children is sound. -/
def SoundSlot (c : Cutter) (children : List Node) (slot : Option Plan) : Prop :=
  ∀ plan, slot = some plan → plan.Sound c children

/-- The plan `q` goes on from `p`, and takes nothing back. -/
structure Plan.Continues (p q : Plan) : Prop where
  entries : p.entries <+: q.entries
  excluded : p.excluded ⊆ q.excluded

/-- What becomes of the slot and of the children of an open node during a call. -/
structure Carries (slot slot' : Option Plan) (children children' : List Node) : Prop where
  /-- A plan is taken back as a whole or goes on. -/
  continues : ∀ plan, slot = some plan →
    slot' = none ∨ ∃ plan', slot' = some plan' ∧ plan.Continues plan'
  /-- The index of a child that it names or excludes denotes the same child behind the call. -/
  stays : ∀ plan, slot = some plan → ∀ i ∈ plan.named ++ plan.excluded, children'[i]? = children[i]?

variable {c : Cutter} {slot slot' : Option Plan} {outside : List (Option Plan)}
  {before after rest todo children children' : List Node} {outer : List (List Node)} {n : Node}
  {p q : Progress} {l : Level} {depth : Nat}

namespace Carries

theorem refl (slot : Option Plan) (children : List Node) : Carries slot slot children children :=
  ⟨fun plan h => .inr ⟨plan, h, List.prefix_rfl, List.Subset.refl _⟩, fun _ _ _ _ => rfl⟩

/-- What a call does to the innermost of some open nodes, where it leaves the others alone. -/
theorem cons (h : Carries slot slot' children children') {k : Nat} {x x' : Option Plan}
    {cs cs' : List Node} (hx : (slot :: outside)[k]? = some x)
    (hx' : (slot' :: outside)[k]? = some x') (hcs : (children :: outer)[k]? = some cs)
    (hcs' : (children' :: outer)[k]? = some cs') : Carries x x' cs cs' := by
  cases k with
  | zero =>
    simp only [List.getElem?_cons_zero, Option.some.injEq] at hx hx' hcs hcs'
    subst hx hx' hcs hcs'
    exact h
  | succ k =>
    rw [List.getElem?_cons_succ] at hx hx' hcs hcs'
    obtain rfl := Option.some.inj (hx.symm.trans hx')
    obtain rfl := Option.some.inj (hcs.symm.trans hcs')
    exact .refl _ _

end Carries

theorem Amends.continues {place : Place} (h : Amends c place slot slot') :
    ∃ plan', slot' = some plan' ∧ (slot.getD {}).Continues plan' := by
  cases h with
  | cut kept cursor =>
    refine ⟨_, rfl, ?_, List.Subset.refl _⟩
    show _ <+: _ ++ _ ++ _
    rw [List.append_assoc]
    exact List.prefix_append _ _
  | outer =>
    refine ⟨_, rfl, ?_⟩
    unfold Cutter.planOuter
    simp only
    split
    · exact ⟨List.prefix_append _ _, List.subset_cons_self _ _⟩
    · exact ⟨List.prefix_rfl, List.subset_cons_self _ _⟩

theorem Goes.continues (h : Goes c before slot after slot') {plan : Plan}
    (hplan : slot = some plan) : ∃ plan', slot' = some plan' ∧ plan.Continues plan' := by
  induction h with
  | refl => exact ⟨plan, hplan, List.prefix_rfl, List.Subset.refl _⟩
  | amend after goes amends ih =>
    obtain ⟨plan₁, hplan₁, hcontinues⟩ := ih
    obtain ⟨plan₂, hplan₂, hamends⟩ := amends.continues
    rw [hplan₁, Option.getD_some] at hamends
    exact ⟨plan₂, hplan₂, hcontinues.entries.trans hamends.entries,
      List.Subset.trans hcontinues.excluded hamends.excluded⟩
  | child _ ih => exact ih

namespace Agrees

variable {a? : Option Assembly}

theorem soundSlot (h : Agrees c before todo slot a?)
    (markers : ∀ n ∈ a?.elim [] Assembly.dropped, c.isMarker n = true) :
    SoundSlot c (before ++ todo) slot := by
  intro plan hplan
  cases h with
  | neither => cases hplan
  | both stands =>
    cases hplan
    exact stands.sound markers

/-- Changing the node at the walk, or removing it, moves no child that is named or excluded. -/
theorem stays (h : Agrees c before (n :: after) slot a?) (hn : n.isWhitespace = false)
    (kept : List Node) {plan : Plan} (hplan : slot = some plan) {i : Nat}
    (hi : i ∈ plan.named ++ plan.excluded) :
    (before ++ kept ++ after)[i]? = (before ++ n :: after)[i]? := by
  cases h with
  | neither => cases hplan
  | both stands =>
    cases hplan
    have hlt := stands.lt_length hn hi
    rw [List.append_assoc, List.getElem?_append_left hlt, List.getElem?_append_left hlt]

theorem above (h : Agrees c before (n :: after) slot a?) (hn : n.isWhitespace = false)
    (hm : c.isMarker n = false) {plan : Plan} (hplan : slot = some plan) :
    plan.cursor ≤ before.length ∧ ∀ i ∈ plan.named ++ plan.excluded, i < before.length := by
  cases h with
  | neither => cases hplan
  | both stands =>
    cases hplan
    exact ⟨stands.cursor_le hn hm, fun i hi => stands.lt_length hn hi⟩

theorem carriedOut {plan : Plan} (h : Agrees c children [] (some plan) a?)
    (markers : ∀ n ∈ a?.elim [] Assembly.dropped, c.isMarker n = true) :
    plan.CarriedOut c children := by
  cases h with
  | both stands => exact stands.carriedOut markers

end Agrees

namespace Cutter

/-- The walk is at the level, and the markers that the level loses are markers. -/
structure Steady (c : Cutter) (p : Progress) (outside : List (Option Plan))
    (before todo : List Node) (l : Level) : Prop where
  tracks : ∃ record, Tracks c (p, record) outside before todo l
  coherent : Coherent c l todo
  markers : ∀ n ∈ l.losses, c.isMarker n = true

theorem Steady.done (h : Steady c p outside before todo l) : l.done = before := by
  obtain ⟨record, htracks⟩ := h.tracks
  exact htracks.done

theorem Steady.sound (h : Steady c p outside before todo l)
    (houter : List.Forall₂ (SoundSlot c) outer outside) :
    List.Forall₂ (SoundSlot c) ((before ++ todo) :: outer) p.slots := by
  obtain ⟨record, htracks⟩ := h.tracks
  obtain ⟨slot, hslots, hagree⟩ := htracks.slots
  rw [show p.slots = slot :: outside from hslots]
  exact .cons (hagree.soundSlot h.markers) houter

/-- Whatever becomes of a child, the level loses markers only. -/
theorem markers_level (h : Coherent c l (n :: after))
    (markers : ∀ m ∈ l.losses, c.isMarker m = true) :
    ∀ m ∈ (c.level n after l).losses, c.isMarker m = true := by
  have hpassage := passage_level h
  generalize c.level n after l = r at hpassage ⊢
  rw [Level.losses_eq] at markers ⊢
  cases hpassage with
  | keep visited done contents dropped planned =>
    rw [dropped]
    exact markers
  | lose visited marker done contents dropped planned =>
    intro m hm
    rw [dropped] at hm
    rcases List.mem_append.mp hm with hm | hm
    · exact markers m hm
    · rw [List.mem_singleton.mp hm]
      cases visited with
      | skipped => exact marker
      | left => rw [Node.isMarker_withChildren, marker]
  | remove directive done assembly =>
    rcases assembly with hsame | ⟨hnone, -⟩
    · rw [Level.assembly_congr hsame done]
      exact markers
    · rw [← Level.losses_eq, Level.losses, hnone]
      intro m hm
      cases hm

/-- The level at which a node is entered. -/
def levelAt (c : Cutter) (n : Node) (l : Level) : Level :=
  if l.mode.splits && c.isMarker n then l.meetMarker else l

@[simp] theorem levelAt_done (c : Cutter) (n : Node) (l : Level) :
    (c.levelAt n l).done = l.done := by
  unfold levelAt
  split <;> rfl

theorem losses_levelAt (c : Cutter) (n : Node) (l : Level) :
    (c.levelAt n l).losses = l.losses := by
  rw [Level.losses_eq, Level.losses_eq, levelAt]
  split <;> rfl

theorem agrees_slotAt (h : Agrees c l.done (n :: after) slot l.assembly?) :
    Agrees c l.done (n :: after) (c.slotAt l.mode n ⟨l.done, after⟩ slot)
      (c.levelAt n l).assembly? := by
  unfold slotAt levelAt
  by_cases hm : (l.mode.splits && c.isMarker n) = true
  · rw [if_pos hm, if_pos hm]
    exact .both (h.stands.meetMarker (Bool.and_eq_true_iff.mp hm).2 (n :: after))
  · rw [if_neg hm, if_neg hm]
    exact h

/-- A child that the walk goes below is a step of the level where it is entered. -/
theorem level_of_entered (hmode : p.mode = l.mode) {place : Place}
    (kept : (c.enter p ⟨n, depth, some place⟩).removed = false)
    (entered : (c.enter p ⟨n, depth, some place⟩).skipped = false) (after : List Node) :
    l.mode.suppressesDescent = false ∧
      c.level n after l = c.ascend n after (c.levelAt n l) (c.levelBelow n l) := by
  unfold enter at kept entered
  rw [hmode] at kept entered
  rw [level_eq, around, levelAt]
  by_cases hs : l.mode.suppressesDescent = true
  · rw [if_pos hs] at entered
    cases entered
  · rw [if_neg hs] at kept ⊢
    refine ⟨by simpa using hs, ?_⟩
    simp only [Site.hasParent, Option.isSome_some, Bool.and_true] at kept
    by_cases hm : (l.mode.splits && c.isMarker n) = true
    · rw [if_pos hm, if_pos hm]
      rfl
    · rw [if_neg hm] at kept ⊢
      rw [if_neg hm]
      cases hf : c.fires? l.mode n with
      | some r =>
        rw [hf] at kept
        cases kept
      | none => rfl

/-- The walk is below the child `n`, with the plan for the children around it in the slot. -/
structure Pending (c : Cutter) (slot : Option Plan) (n : Node) (rest : List Node) (l : Level) :
    Prop where
  agrees : Agrees c l.done (n :: rest) slot (c.levelAt n l).assembly?
  coherent : Coherent c l (n :: rest)
  markers : ∀ m ∈ l.losses, c.isMarker m = true
  awake : l.mode.suppressesDescent = false
  level : c.level n rest l = c.ascend n rest (c.levelAt n l) (c.levelBelow n l)

theorem Pending.soundSlot (h : Pending c slot n rest l) :
    SoundSlot c (l.done ++ n :: rest) slot := by
  have hmarkers := h.markers
  rw [← c.losses_levelAt n l] at hmarkers
  exact h.agrees.soundSlot hmarkers

theorem slots_follow (hslots : p.slots = slot :: outside) (d : Directive) (mode : SkipMode) :
    (follow d mode p).slots = (if d.discardsParent then none else slot) :: outside := by
  unfold follow
  cases d.discardsParent with
  | true => simp only [if_true, Progress.discard, hslots]
  | false => simpa using hslots

section Calls

variable (h : Steady c p outside before (n :: rest) l) {e : Event Progress}
  (enter : e = c.visitor.entering p ⟨n, depth, some ⟨before, rest⟩⟩)

include h enter

/-- A node that is taken out because of a directive. -/
theorem steady_removed (removed : e.reply.removed = true) :
    Steady c e.reply.state outside before rest (c.level n rest l) ∧
      (c.directive? n).isSome = true ∧ ∃ slot slot', p.slots = slot :: outside ∧
        e.reply.state.slots = slot' :: outside ∧
        Carries slot slot' (before ++ n :: rest) (before ++ rest) ∧
        ∀ plan, slot = some plan → plan.cursor ≤ before.length ∧
          ∀ i ∈ plan.named ++ plan.excluded, i < before.length := by
  subst enter
  obtain ⟨⟨record, htracks⟩, hcoherent, hmarkers⟩ := h
  obtain ⟨hmode, hslides, hdropped, rfl, ⟨slot, hslots, hagree⟩, hroot, -⟩ := htracks
  obtain ⟨d, mode, hfires, hstate⟩ := enter_of_removed removed
  have hfires' : c.fires? l.mode n = some (d, mode) := hmode ▸ hfires
  obtain ⟨hblank, hmarker⟩ := of_fires? hfires
  have hstate' : (c.visitor.entering p ⟨n, depth, some ⟨l.done, rest⟩⟩).reply.state =
      follow d mode p := hstate
  rw [hstate', level_of_fires? hfires']
  refine ⟨⟨⟨record, tracks_follow hslides hdropped hroot hslots hagree hfires'⟩, ?_, ?_⟩, ?_, slot,
    _, hslots, slots_follow hslots d mode, ⟨fun plan hplan => ?_, fun plan hplan i hi => ?_⟩,
    fun plan hplan => ?_⟩
  · rw [← level_of_fires? hfires' rest]
    exact coherent_level hcoherent
  · rw [← level_of_fires? hfires' rest]
    exact markers_level hcoherent hmarkers
  · rw [(transition_of_fires? hfires).1, Option.isSome_some]
  · cases d.discardsParent with
    | true => exact .inl rfl
    | false => exact .inr ⟨plan, hplan, List.prefix_rfl, List.Subset.refl _⟩
  · rw [← List.append_nil l.done]
    have hstays := hagree.stays hblank [] hplan hi
    simpa using hstays
  · exact hagree.above hblank hmarker hplan

/-- A node that is passed where nothing is visited any more. -/
theorem steady_skipped (skipped : e.reply.skipped = true) :
    e.reply.state = p ∧ e.reply.removed = false ∧
      Steady c p outside (before ++ [n]) rest (c.level n rest l) := by
  subst enter
  obtain ⟨⟨record, htracks⟩, hcoherent, hmarkers⟩ := h
  have hcoherent' := coherent_level hcoherent
  have hmarkers' := markers_level hcoherent hmarkers
  obtain ⟨hmode, hslides, hdropped, rfl, ⟨slot, hslots, hagree⟩, hroot, hquiet⟩ := htracks
  obtain ⟨hsuppressed, hstate⟩ := enter_of_skipped skipped
  have hs : l.mode.suppressesDescent = true := hmode ▸ hsuppressed
  have hlevel : c.level n rest l = l.pass n := by rw [level_eq, around, if_pos hs]
  have hpass : l.pass n = { l with done := l.done ++ [n] } := by
    rw [Level.pass, hquiet hs]
    rfl
  rw [hquiet hs] at hagree
  cases hagree
  rw [hlevel] at hcoherent' hmarkers' ⊢
  refine ⟨hstate, congrArg Reply.removed (enter_of_suppressed hsuppressed _),
    ⟨record, hmode, hslides, hdropped, rfl, ⟨none, hslots, ?_⟩, hroot, fun _ => ?_⟩, hcoherent',
    hmarkers'⟩
  · rw [hpass, hquiet hs]
    exact .neither
  · rw [hpass, hquiet hs]

/-- A node that the walk goes below. -/
theorem steady_opened (opens : e.opens = true) :
    ∃ slot slot', p.slots = slot :: outside ∧ e.reply.state.slots = none :: slot' :: outside ∧
      Carries slot slot' (before ++ n :: rest) (before ++ n :: rest) ∧ Pending c slot' n rest l ∧
      Steady c e.reply.state (slot' :: outside) [] (n.children?.getD []) l.inside := by
  subst enter
  obtain ⟨⟨record, htracks⟩, hcoherent, hmarkers⟩ := h
  obtain ⟨hmode, hslides, hdropped, rfl, ⟨slot, hslots, hagree⟩, hroot, -⟩ := htracks
  obtain ⟨kept, entered⟩ : (c.enter p ⟨n, depth, some ⟨l.done, rest⟩⟩).removed = false ∧
      (c.enter p ⟨n, depth, some ⟨l.done, rest⟩⟩).skipped = false := by
    simpa [Event.opens, Event.enters, Visitor.entering, visitor] using opens
  have hslotsIn := slots_enter hslots kept entered
  obtain ⟨awake, hlevel⟩ := level_of_entered hmode kept entered rest
  obtain ⟨p', henter, hmode', hslides', hroot'⟩ := enter_of_entered kept entered
  have hgoes := c.goes_slotAt p.mode n ⟨l.done, rest⟩ slot
  have hagree' := agrees_slotAt hagree
  rw [show p.mode = l.mode from hmode] at hslotsIn hgoes
  rw [henter] at hslotsIn
  have hslots' : p'.slots = c.slotAt l.mode n ⟨l.done, rest⟩ slot :: outside :=
    (List.cons.inj hslotsIn).2
  have hinside := tracks_inside (c := c) (p := p') (l := l) record (n.children?.getD [])
    (hmode'.trans hmode) (hslides'.trans hslides) hdropped (hroot'.trans hroot)
  rw [hslots'] at hinside
  rw [show (c.visitor.entering p ⟨n, depth, some ⟨l.done, rest⟩⟩).reply =
    ⟨p'.opened, n, false, false⟩ from henter]
  exact ⟨slot, _, hslots, hslotsIn,
    ⟨fun plan hplan => .inr (hgoes.continues hplan), fun _ _ _ _ => rfl⟩,
    ⟨hagree', hcoherent, hmarkers, awake, hlevel⟩, ⟨record, hinside⟩, coherent_of_none rfl _,
    fun m hm => by cases hm⟩

end Calls

theorem node_leave_of_plan (c : Cutter) {plan : Plan} {site : Site}
    (hplan : q.slots.head? = some (some plan)) (hchildren : site.node.children? = some children) :
    (c.leave q site).node =
      site.node.withChildren ((plan.flush children children.length).build c.wrap children).1 := by
  have hclosed : q.closed.1 = some plan := by
    rw [Progress.closed, hplan, Option.join_some]
  simp only [leave, hclosed, finish, hchildren]

/-- A node that is left. -/
theorem steady_left (h : Pending c slot n rest l)
    (hq : Steady c q (slot :: outside) children [] (c.levelBelow n l)) {e : Event Progress}
    (leave : e = c.visitor.leaving q ⟨n.withChildren children, depth, some ⟨l.done, rest⟩⟩) :
    Steady c e.reply.state outside (l.done ++ [e.reply.node]) rest (c.level n rest l) ∧
      (∃ slot', e.reply.state.slots = slot' :: outside ∧
        Carries slot slot' (l.done ++ n :: rest) (l.done ++ [e.reply.node] ++ rest)) ∧
      ∀ {plan cs}, q.slots.head? = some (some plan) →
        (n.withChildren children).children? = some cs → plan.CarriedOut c cs ∧
          e.reply.node = (n.withChildren children).withChildren
            ((plan.flush cs cs.length).build c.wrap cs).1 := by
  subst leave
  obtain ⟨⟨record, htracks⟩, -, hbelow⟩ := hq
  have hdone := htracks.done
  subst hdone
  obtain ⟨inner, hinner, hagree⟩ := htracks.slots
  have hleaf (hn : n.children? = none) : (c.levelBelow n l).assembly? = none ∧
      (c.levelBelow n l).mode.suppressesDescent = false := by
    rw [levelBelow, hn, Option.getD_none, levelAll_nil]
    exact ⟨rfl, h.awake⟩
  have hagrees := h.agrees
  rw [← c.levelAt_done n l] at hagrees
  obtain ⟨-, hascend⟩ := tracks_ascend htracks hagrees hleaf depth
  rw [← h.level, levelAt_done] at hascend
  obtain ⟨slot', hslot', hgoes⟩ := goes_leave (c := c) (n := n.withChildren
    (c.levelBelow n l).done) hinner depth ⟨l.done, rest⟩
  refine ⟨⟨⟨_, hascend⟩, coherent_level h.coherent, markers_level h.coherent h.markers⟩,
    ⟨slot', hslot', fun plan hplan => .inr (hgoes.continues hplan), fun plan hplan i hi => ?_⟩,
    fun {plan cs} hplan hchildren => ⟨?_, c.node_leave_of_plan hplan hchildren⟩⟩
  · cases hn : n.isWhitespace with
    | false => exact h.agrees.stays hn _ hplan hi
    | true =>
      rw [(hleaf (Node.children?_of_isWhitespace hn)).1] at hagree
      cases hagree
      have hnode : (c.visitor.leaving q ⟨n, depth, some ⟨l.done, rest⟩⟩).reply.node = n :=
        (leave_without_plan hinner n depth ⟨l.done, rest⟩).1
      rw [Node.withChildren_of_isWhitespace hn, hnode, List.append_assoc, List.singleton_append]
  · rw [show q.slots.head? = some inner from congrArg List.head? hinner] at hplan
    obtain rfl := Option.some.inj hplan
    have hcs : cs = (c.levelBelow n l).done := by
      obtain ⟨cs', hcs'⟩ : ∃ cs', n.children? = some cs' := by
        cases hn : n.children? with
        | none => simp [hn] at hchildren
        | some cs' => exact ⟨cs', rfl⟩
      simpa [hcs'] using hchildren.symm
    subst hcs
    exact hagree.carriedOut hbelow

end Cutter
end SlideDeck
