import Mathlib.Logic.Relation
import SlideDeck.Proofs.Slides.Arrival

/-!
The entries by which a node gets its new children. They name the children by their indices, each
index once at most, so that a child can be followed from the time it is planned for to the time its
parent is left. From one child to a later one the plan of their parent only grows, unless it is
taken back.
-/
namespace SlideDeck

/-- The new children that an entry stands for. -/
def Entry.shown (wrap : List Node → Node) (children : List Node) : Entry → List Node
  | .slide start stop => [wrap ((children.take stop).drop start)]
  | .keep index => children[index]?.toList

/-- The run of a list between a front and a rest. -/
theorem drop_take_run {α : Type} (front run rest : List α) :
    ((front ++ (run ++ rest)).take (front.length + run.length)).drop front.length = run := by
  rw [List.take_length_add_append, List.drop_left, List.take_left]

namespace Lays

variable {i k : Nat} {ns lost : List Node} {es : List Entry} {ps : List Piece}

theorem flatMap_shown (h : Lays i ns es ps lost) (wrap : List Node → Node) (front : List Node)
    (hf : front.length = i) :
    es.flatMap (Entry.shown wrap (front ++ ns)) = ps.map (Piece.build wrap) := by
  induction h generalizing front with
  | done i => rfl
  | @keep i n ns es ps lost _ ih =>
    have hrest := ih (front ++ [n]) (by simp [hf])
    rw [List.append_assoc, List.singleton_append] at hrest
    rw [List.flatMap_cons, hrest]
    simp [Entry.shown, Piece.build, ← hf]
  | @slide i run ns es ps lost _ _ ih =>
    have hrest := ih (front ++ run) (by simp [hf])
    rw [List.append_assoc] at hrest
    rw [List.flatMap_cons, hrest, Entry.shown, ← hf, drop_take_run]
    rfl
  | @skip i n ns es ps lost _ ih =>
    have hrest := ih (front ++ [n]) (by simp [hf])
    rwa [List.append_assoc, List.singleton_append] at hrest

theorem lt_of_names (h : Lays i ns es ps lost) (hk : es.any (·.names k) = true) :
    k < i + ns.length := by
  induction h with
  | done i => cases hk
  | @keep i n ns es ps lost _ ih =>
    rw [List.length_cons]
    rw [List.any_cons, Bool.or_eq_true] at hk
    rcases hk with hk | hk
    · have : i = k := beq_iff_eq.mp hk
      omega
    · have := ih hk
      omega
  | @slide i run ns es ps lost _ _ ih =>
    rw [List.length_append]
    rw [List.any_cons, Bool.or_eq_true] at hk
    rcases hk with hk | hk
    · have : i ≤ k ∧ k < i + run.length := by simpa [Entry.names] using hk
      omega
    · have := ih hk
      omega
  | @skip i n ns es ps lost _ ih =>
    have := ih hk
    rw [List.length_cons]
    omega

/-- Each child is named once at most. -/
theorem countP_names (h : Lays i ns es ps lost) (k : Nat) :
    es.countP (·.names k) = (es.any (·.names k)).toNat := by
  induction h with
  | done i => rfl
  | @keep i n ns es ps lost rest ih =>
    rw [List.countP_cons, List.any_cons, ih]
    cases hk : (Entry.keep i).names k with
    | false => simp
    | true =>
      have : i = k := beq_iff_eq.mp hk
      rw [rest.names_eq_false (by omega)]
      rfl
  | @slide i run ns es ps lost _ rest ih =>
    rw [List.countP_cons, List.any_cons, ih]
    cases hk : (Entry.slide i (i + run.length)).names k with
    | false => simp
    | true =>
      have : i ≤ k ∧ k < i + run.length := by simpa [Entry.names] using hk
      rw [rest.names_eq_false (by omega)]
      rfl
  | skip _ ih => exact ih

/-- Where nothing is left out, every child is named. -/
theorem names_of_lost_nil (h : Lays i ns es ps []) (hi : i ≤ k) (hk : k < i + ns.length) :
    es.any (·.names k) = true := by
  generalize hlost : ([] : List Node) = lost at h
  induction h with
  | done i =>
    rw [List.length_nil] at hk
    omega
  | @keep i n ns es ps lost _ ih =>
    rw [List.length_cons] at hk
    rw [List.any_cons]
    by_cases heq : i = k
    · simp [Entry.names, heq]
    · rw [ih (by omega) (by omega) hlost, Bool.or_true]
  | @slide i run ns es ps lost _ _ ih =>
    rw [List.length_append] at hk
    rw [List.any_cons]
    by_cases hlt : k < i + run.length
    · simp [Entry.names, hi, hlt]
    · rw [ih (by omega) (by omega) hlost, Bool.or_true]
  | skip _ _ => cases hlost

end Lays

namespace Plan

/-- An entry of the plan names the child at the index. -/
def names (plan : Plan) (k : Nat) : Bool := plan.entries.any (·.names k)

theorem names_keep (indices : List Nat) (plan : Plan) (k : Nat) :
    (plan.keep indices).names k = (plan.names k || indices.contains k) := by
  have hsame : (fun e : Entry => e.names k) ∘ Entry.keep = fun i => k == i := by
    funext i
    exact Bool.beq_comm
  rw [names, keep, List.any_append, List.any_map, hsame, List.contains_eq_any_beq]
  rfl

/-- Planning for the children before an index names those from the cursor on. -/
theorem names_flush (plan : Plan) (before tail : List Node) {k : Nat} (hk : k < before.length) :
    (plan.flush (before ++ tail) before.length).names k =
      (plan.names k || decide (plan.cursor ≤ k)) := by
  have hlays := plan.lays_runEntries plan.cursor [] (before.drop plan.cursor)
  simp only [List.zipIdx_nil, List.map_nil, List.nil_append, List.length_nil,
    Nat.add_zero] at hlays
  rw [names, flush, run_eq, List.any_append]
  congr 1
  by_cases hle : plan.cursor ≤ k
  · rw [hlays.names_of_lost_nil hle (by rw [List.length_drop]; omega), decide_eq_true hle]
  · rw [hlays.names_eq_false (by omega), decide_eq_false hle]

/-- The child at the index is named, or it is still to be planned for. -/
def holds (plan : Plan) (k : Nat) : Bool := plan.names k || decide (plan.cursor ≤ k)

/-- At the end of the children, those that the plan holds are named. -/
theorem names_flush_end (plan : Plan) (children : List Node) {k : Nat} (hk : k < children.length) :
    (plan.flush children children.length).names k = plan.holds k := by
  have hflush := plan.names_flush children [] hk
  rwa [List.append_nil] at hflush

/-- The plan `q` is the plan `p` gone on with behind the child at index `k`. -/
structure Extends (k : Nat) (p q : Plan) : Prop where
  entries : p.entries <+: q.entries
  excluded : p.excluded ⊆ q.excluded
  holds : q.holds k = p.holds k

theorem extends_refl (k : Nat) (p : Plan) : Extends k p p :=
  ⟨List.prefix_rfl, List.Subset.refl _, rfl⟩

theorem Extends.trans {k : Nat} {p q r : Plan} (h : Extends k p q) (h' : Extends k q r) :
    Extends k p r :=
  ⟨h.entries.trans h'.entries, List.Subset.trans h.excluded h'.excluded, h'.holds.trans h.holds⟩

/-- Planning for a later child that is cut. -/
theorem extends_cut (plan : Plan) {before tail : List Node} {kept : List Nat} {cursor k : Nat}
    (hk : k < before.length) (hkept : ∀ i ∈ kept, before.length ≤ i)
    (hcursor : before.length < cursor) : Extends k plan
      (((plan.flush (before ++ tail) before.length).keep kept).resumeAt cursor) := by
  refine ⟨?_, List.Subset.refl _, ?_⟩
  · show plan.entries <+: plan.entries ++ _ ++ _
    rw [List.append_assoc]
    exact List.prefix_append _ _
  · have hnot : kept.contains k = false := by
      rw [Bool.eq_false_iff, Ne, List.contains_iff_mem]
      intro hmem
      have := hkept k hmem
      omega
    have hahead : ¬ cursor ≤ k := by omega
    have hnames := names_keep kept (plan.flush (before ++ tail) before.length) k
    rw [names_flush plan before tail hk, hnot, Bool.or_false] at hnames
    rw [holds, holds, ← hnames]
    show (_ || decide (cursor ≤ k)) = _
    rw [decide_eq_false hahead, Bool.or_false]
    rfl

/-- Planning for a later child that is kept out of slides. -/
theorem extends_outer (plan : Plan) (c : Cutter) (n : Node) {index k : Nat} (hk : k < index) :
    Extends k plan (c.planOuter n index plan) := by
  have hexcluded : plan.excluded ⊆ index :: plan.excluded := List.subset_cons_self _ _
  unfold Cutter.planOuter
  simp only
  split
  · refine ⟨List.prefix_append _ _, hexcluded, ?_⟩
    have hnot : [index].contains k = false := by
      rw [List.contains_cons, List.contains_nil, Bool.or_false, beq_eq_false_iff_ne]
      omega
    rw [holds, names_keep, hnot, Bool.or_false]
    rfl
  · exact ⟨List.prefix_rfl, hexcluded, rfl⟩

end Plan

namespace Cutter

theorem planCut_eq (c : Cutter) (n : Node) (place : Place) (plan : Plan) :
    ∃ indices next, c.planCut n place plan =
        ((plan.flush (place.around n) place.index).keep indices).resumeAt next ∧
      (∀ i ∈ indices, place.index ≤ i) ∧ place.index < next := by
  unfold planCut
  simp only
  split
  · refine ⟨_, _, rfl, fun i hi => ?_, by omega⟩
    exact (List.mem_range'_1.mp hi).1
  · refine ⟨_, _, rfl, fun i hi => ?_, Nat.lt_succ_self _⟩
    rw [List.mem_singleton.mp hi]

end Cutter

/-- The changes of the slot around a node that the walk goes over. -/
inductive Amends (c : Cutter) (place : Place) (slot : Option Plan) : Option Plan → Prop
  | cut {n : Node} {indices : List Nat} {next : Nat} (kept : ∀ i ∈ indices, place.index ≤ i)
      (cursor : place.index < next) : Amends c place slot
        (some ((((slot.getD {}).flush (place.around n) place.index).keep indices).resumeAt next))
  | outer {n : Node} : Amends c place slot (some (c.planOuter n place.index (slot.getD {})))

/-- The plans that are made for a child, in the slot around it. -/
inductive Planned (c : Cutter) (n : Node) (place : Place) (slot : Option Plan) :
    Option Plan → Prop
  /-- A marker is passed over. -/
  | marker : Planned c n place slot
      (some (((slot.getD {}).flush (place.around n) place.index).resumeAt (place.index + 1)))
  /-- A child that was cut is kept. -/
  | cut : Planned c n place slot (some (c.planCut n place (slot.getD {})))
  /-- A child is kept out of slides. -/
  | outer : Planned c n place slot (some (c.planOuter n place.index (slot.getD {})))

/-- The slot around children that come one after another, where nothing is taken back. -/
inductive Goes (c : Cutter) (before : List Node) (slot : Option Plan) :
    List Node → Option Plan → Prop
  | refl : Goes c before slot before slot
  | amend {before' : List Node} (after : List Node) {slot' slot'' : Option Plan}
      (goes : Goes c before slot before' slot') (amends : Amends c ⟨before', after⟩ slot' slot'') :
      Goes c before slot before' slot''
  | child {before' : List Node} {slot' : Option Plan} {n : Node}
      (goes : Goes c before slot before' slot') : Goes c before slot (before' ++ [n]) slot'

variable {c : Cutter} {before before' after : List Node} {slot slot' slot'' : Option Plan}

theorem Planned.amends {n : Node} {place : Place} (h : Planned c n place slot slot') :
    Amends c place slot slot' := by
  cases h with
  | marker =>
    have hcut : Amends c place slot (some ((((slot.getD {}).flush (place.around n)
        place.index).keep []).resumeAt (place.index + 1))) :=
      .cut (fun i hi => by cases hi) (Nat.lt_succ_self _)
    have hkeep (plan : Plan) : plan.keep [] = plan := by simp [Plan.keep]
    rwa [hkeep] at hcut
  | cut =>
    obtain ⟨indices, next, hcut, hkept, hnext⟩ := c.planCut_eq n place (slot.getD {})
    rw [hcut]
    exact .cut hkept hnext
  | outer => exact .outer

namespace Goes

/-- The plans for a child leave the slot where the walk is. -/
theorem of_planned {n : Node} {place : Place}
    (h : Relation.ReflTransGen (Planned c n place) slot slot') :
    Goes c place.before slot place.before slot' := by
  induction h with
  | refl => exact .refl
  | tail _ planned ih => exact ih.amend place.after planned.amends

theorem trans {nodes : List Node} (h : Goes c before slot before' slot')
    (h' : Goes c before' slot' nodes slot'') : Goes c before slot nodes slot'' := by
  induction h' with
  | refl => exact h
  | amend after _ amends ih => exact ih.amend after amends
  | child _ ih => exact ih.child

theorem length_le (h : Goes c before slot before' slot') : before.length ≤ before'.length := by
  induction h with
  | refl => exact Nat.le_refl _
  | amend _ _ _ ih => exact ih
  | child _ ih =>
    rw [List.length_append]
    omega

/-- Behind a child its plan only grows. -/
theorem plan_extends (h : Goes c before slot before' slot') {k : Nat} (hk : k < before.length) :
    (slot.getD {}).Extends k (slot'.getD {}) := by
  induction h with
  | refl => exact Plan.extends_refl k _
  | @amend before' after slot' slot'' goes amends ih =>
    have hk' : k < before'.length := Nat.lt_of_lt_of_le hk goes.length_le
    cases amends with
    | cut kept cursor => exact ih.trans (Plan.extends_cut _ hk' kept cursor)
    | outer => exact ih.trans (Plan.extends_outer _ c _ hk')
  | child _ ih => exact ih

end Goes

namespace Cutter

variable {n : Node} {p q : Progress} {outside : List (Option Plan)} {inner : Option Plan}
  {s : Progress} {site : Site}

/-- The slot around a node that is entered. -/
def slotAt (c : Cutter) (mode : SkipMode) (n : Node) (place : Place) (slot : Option Plan) :
    Option Plan :=
  if mode.splits && c.isMarker n then
    some (((slot.getD {}).flush (place.around n) place.index).resumeAt (place.index + 1))
  else slot

theorem planned_slotAt (c : Cutter) (mode : SkipMode) (n : Node) (place : Place)
    (slot : Option Plan) :
    Relation.ReflTransGen (Planned c n place) slot (c.slotAt mode n place slot) := by
  unfold slotAt
  split
  · exact .single .marker
  · exact .refl

theorem goes_slotAt (c : Cutter) (mode : SkipMode) (n : Node) (place : Place)
    (slot : Option Plan) :
    Goes c place.before slot place.before (c.slotAt mode n place slot) :=
  .of_planned (c.planned_slotAt mode n place slot)

theorem slots_enter (hslots : p.slots = slot :: outside) {place : Place} {depth : Nat}
    (kept : (c.enter p ⟨n, depth, some place⟩).removed = false)
    (entered : (c.enter p ⟨n, depth, some place⟩).skipped = false) :
    (c.enter p ⟨n, depth, some place⟩).state.slots =
      none :: c.slotAt p.mode n place slot :: outside := by
  unfold enter at kept entered ⊢
  by_cases hs : p.mode.suppressesDescent = true
  · rw [if_pos hs] at entered
    cases entered
  · rw [if_neg hs] at kept ⊢
    simp only [Site.hasParent, Option.isSome_some, Bool.and_true] at kept ⊢
    unfold slotAt
    by_cases hm : (p.mode.splits && c.isMarker n) = true
    · rw [if_pos hm, if_pos hm]
      simp only [cutAt, Progress.plan, hslots, Progress.opened]
    · rw [if_neg hm] at kept ⊢
      rw [if_neg hm]
      cases hf : c.fires? p.mode n with
      | some r =>
        rw [hf] at kept
        cases kept
      | none => simp only [Progress.opened, hslots]

theorem enter_of_removed (removed : (c.enter s site).removed = true) :
    ∃ d mode, c.fires? s.mode site.node = some (d, mode) ∧
      (c.enter s site).state = follow d mode s := by
  unfold enter at removed ⊢
  split at removed
  · cases removed
  · next hs =>
    rw [if_neg hs]
    split at removed
    · cases removed
    · next hm =>
      rw [if_neg hm]
      split at removed
      · next d mode hf =>
        exact ⟨d, mode, hf, rfl⟩
      · cases removed

theorem enter_of_skipped (skipped : (c.enter s site).skipped = true) :
    s.mode.suppressesDescent = true ∧ (c.enter s site).state = s := by
  unfold enter at skipped ⊢
  split at skipped
  · next hs =>
    rw [if_pos hs]
    exact ⟨hs, rfl⟩
  · split at skipped
    · cases skipped
    · split at skipped <;> cases skipped

theorem enter_of_suppressed (hs : s.mode.suppressesDescent = true) (site : Site) :
    c.enter s site = ⟨s, site.node, false, true⟩ := by
  rw [enter, if_pos hs]

theorem slots_endSkip (hslots : p.slots = slot :: outside) (depth : Nat) (place : Place) :
    (c.endSkip ⟨n, depth, some place⟩ p).slots =
      (if p.mode = .outer then some (c.planOuter n place.index (slot.getD {})) else slot) ::
        outside := by
  unfold endSkip
  cases hm : p.mode with
  | outer => simp only [Progress.plan, hslots, if_pos]
  | stopped => simpa using hslots
  | start => simpa using hslots
  | inner => simpa using hslots

/-- A node that is left without a plan stays as it is, and changes the slot around it only where it
is kept out of slides. -/
theorem leave_without_plan (hslots : q.slots = none :: slot :: outside) (n : Node) (depth : Nat)
    (place : Place) :
    (c.leave q ⟨n, depth, some place⟩).node = n ∧
      (c.leave q ⟨n, depth, some place⟩).state.slots =
        (if q.mode = .outer then some (c.planOuter n place.index (slot.getD {})) else slot) ::
          outside := by
  obtain ⟨mode, slots, slides, rootExcluded⟩ := q
  simp only at hslots
  subst hslots
  rw [leave_of_none]
  exact ⟨rfl, slots_endSkip rfl depth place⟩

theorem planned_finish (hslots : p.slots = slot :: outside) (plan : Plan) (depth : Nat)
    (place : Place) :
    ∃ slot', (c.finish plan ⟨n, depth, some place⟩ p).2.slots = slot' :: outside ∧
      Relation.ReflTransGen (Planned c (c.finish plan ⟨n, depth, some place⟩ p).1 place)
        slot slot' := by
  unfold finish
  cases hchildren : n.children? with
  | none => exact ⟨slot, hslots, .refl⟩
  | some children =>
    simp only [reportCut, Progress.plan, hslots]
    exact ⟨_, rfl, .single .cut⟩

theorem planned_leave (hslots : q.slots = inner :: slot :: outside) (depth : Nat)
    (place : Place) :
    ∃ slot', (c.leave q ⟨n, depth, some place⟩).state.slots = slot' :: outside ∧
      Relation.ReflTransGen (Planned c (c.leave q ⟨n, depth, some place⟩).node place)
        slot slot' := by
  have hend {p : Progress} {slot' : Option Plan} (n : Node) (hp : p.slots = slot' :: outside)
      (hplanned : Relation.ReflTransGen (Planned c n place) slot slot') :
      ∃ slot'', (c.endSkip ⟨n, depth, some place⟩ p).slots = slot'' :: outside ∧
        Relation.ReflTransGen (Planned c n place) slot slot'' := by
    refine ⟨_, slots_endSkip hp depth place, ?_⟩
    split
    · exact hplanned.tail .outer
    · exact hplanned
  obtain ⟨mode, slots, slides, rootExcluded⟩ := q
  simp only at hslots
  subst hslots
  cases inner with
  | none => exact hend n rfl .refl
  | some plan =>
    obtain ⟨slot', hslot', hplanned⟩ := planned_finish (c := c) (n := n)
      (p := ⟨mode, slot :: outside, slides, rootExcluded⟩) rfl plan depth place
    exact hend _ hslot' hplanned

theorem goes_leave (hslots : q.slots = inner :: slot :: outside) (depth : Nat) (place : Place) :
    ∃ slot', (c.leave q ⟨n, depth, some place⟩).state.slots = slot' :: outside ∧
      Goes c place.before slot place.before slot' := by
  obtain ⟨slot', hslot', hplanned⟩ := planned_leave (c := c) (n := n) hslots depth place
  exact ⟨slot', hslot', .of_planned hplanned⟩

theorem rootExcluded_leave (c : Cutter) (q : Progress) (n : Node) (depth : Nat) (place : Place) :
    (c.leave q ⟨n, depth, some place⟩).state.rootExcluded = q.rootExcluded := by
  have hend (n : Node) (p : Progress) :
      (c.endSkip ⟨n, depth, some place⟩ p).rootExcluded = p.rootExcluded := by
    unfold endSkip
    cases p.mode with
    | outer => exact Progress.rootExcluded_plan _ _
    | stopped => rfl
    | start => rfl
    | inner => rfl
  have hfinish (plan : Plan) (p : Progress) :
      (c.finish plan ⟨n, depth, some place⟩ p).2.rootExcluded = p.rootExcluded := by
    unfold finish
    cases n.children? with
    | none => rfl
    | some children => exact Progress.rootExcluded_plan _ _
  unfold leave
  simp only [hend]
  cases q.closed.1 with
  | none => rfl
  | some plan => exact hfinish plan _

theorem slots_below (hslots : p.slots = slot :: outside) (hroot : p.rootExcluded = false)
    {place : Place} {depth : Nat} (kept : (c.enter p ⟨n, depth, some place⟩).removed = false)
    (entered : (c.enter p ⟨n, depth, some place⟩).skipped = false) :
    let b := Walk.below c.visitor c.visitor_nonGrowing p ⟨n, depth, some place⟩
    b.1.rootExcluded = false ∧
      ∃ inner, b.1.slots = inner :: c.slotAt p.mode n place slot :: outside := by
  intro b
  obtain ⟨es, htracks⟩ := tracks_outside (l := .ofProgress p) [] rfl rfl rfl hroot kept entered
    (n.children?.getD []) []
  rw [slots_enter hslots kept entered, List.tail_cons] at htracks
  obtain ⟨inner, hinner, -⟩ := htracks.slots
  have hb : b = Walk.arrival c.visitor c.visitor_nonGrowing p ⟨n, depth, some place⟩
      (n.children?.getD []) [] := c.below_eq_arrival p _
  rw [hb]
  exact ⟨htracks.rootExcluded, inner, hinner⟩

/-- The visit of a child takes the slot around it further, unless a directive takes it back. -/
theorem goes_subtree (hslots : p.slots = slot :: outside) (hroot : p.rootExcluded = false)
    (n : Node) (depth : Nat) (before after : List Node) :
    let r := Walk.subtree c.visitor c.visitor_nonGrowing p ⟨n, depth, some ⟨before, after⟩⟩
    r.1.rootExcluded = false ∧ ∃ slot', r.1.slots = slot' :: outside ∧
      (r.1.mode.suppressesDescent = true ∨ Goes c before slot (before ++ r.2.toList) slot') := by
  intro r
  have hvisits : Visits c p ⟨n, depth, some ⟨before, after⟩⟩ r := c.visits_subtree _ _
  clear_value r
  cases hvisits with
  | removed removed =>
    obtain ⟨d, mode, hfires, hstate⟩ := enter_of_removed removed
    have hsuppressed := suppressesDescent_of_fires? hfires
    simp only [hstate, Option.toList_none, List.append_nil]
    unfold follow
    cases hd : d.discardsParent with
    | true =>
      simp only [if_pos, Progress.discard, hslots]
      exact ⟨hroot, none, rfl, .inl (hsuppressed.trans hd)⟩
    | false => exact ⟨hroot, slot, hslots, .inr .refl⟩
  | skipped kept skipped =>
    obtain ⟨hsuppressed, hstate⟩ := enter_of_skipped skipped
    rw [hstate]
    exact ⟨hroot, slot, hslots, .inl hsuppressed⟩
  | left kept entered =>
    obtain ⟨hbelow, inner, hinner⟩ := slots_below hslots hroot kept entered
    obtain ⟨slot', hslot', hgoes⟩ := goes_leave (c := c) (n := n.withChildren
      (Walk.below c.visitor c.visitor_nonGrowing p ⟨n, depth, some ⟨before, after⟩⟩).2) hinner depth
      ⟨before, after⟩
    rw [Walk.left, leaving_eq]
    refine ⟨(c.rootExcluded_leave _ _ _ _).trans hbelow, slot', hslot', .inr ?_⟩
    exact ((c.goes_slotAt p.mode n ⟨before, after⟩ slot).trans hgoes).child

/-- Where no child is visited, siblings stay as they are. -/
theorem siblings_of_suppressed (hs : p.mode.suppressesDescent = true) (depth : Nat)
    (beyond before nodes : List Node) :
    Walk.siblings c.visitor c.visitor_nonGrowing depth beyond p before nodes =
      (p, before ++ nodes) := by
  induction nodes generalizing before with
  | nil => rw [Walk.siblings, List.append_nil]
  | cons n rest ih =>
    have hvisit : Walk.subtree c.visitor c.visitor_nonGrowing p
        ⟨n, depth, some ⟨before, rest ++ beyond⟩⟩ = (p, some n) := by
      rw [Walk.subtree_eq, show c.visitor.enter p _ = _ from enter_of_suppressed hs _]
      rfl
    rw [Walk.siblings, hvisit, ih]
    simp

/-- From one child to a later one the slot around them goes on, unless a directive takes it back. -/
theorem goes_siblings (hslots : p.slots = slot :: outside) (hroot : p.rootExcluded = false)
    (depth : Nat) (beyond before nodes : List Node) :
    let r := Walk.siblings c.visitor c.visitor_nonGrowing depth beyond p before nodes
    ∃ slot', r.1.slots = slot' :: outside ∧
      (r.1.mode.suppressesDescent = true ∨ Goes c before slot r.2 slot') := by
  induction nodes generalizing p slot before with
  | nil => exact ⟨slot, hslots, .inr .refl⟩
  | cons n rest ih =>
    obtain ⟨hroot', slot₁, hslot₁, hstep⟩ :=
      goes_subtree (c := c) hslots hroot n depth before (rest ++ beyond)
    rcases hstep with hs | hgoes
    · rw [Walk.siblings, siblings_of_suppressed hs]
      exact ⟨slot₁, hslot₁, .inl hs⟩
    · obtain ⟨slot₂, hslot₂, hrest⟩ := ih hslot₁ hroot' (before ++ _)
      exact ⟨slot₂, hslot₂, hrest.imp_right hgoes.trans⟩

/-- The entries by which a node gets its new children when it is left. -/
def layout (c : Cutter) (s : Progress) (site : Site) : List Entry :=
  let b := Walk.below c.visitor c.visitor_nonGrowing s site
  match b.1.slots.head?.join with
  | some plan => (plan.flush b.2 b.2.length).entries
  | none => (List.range b.2.length).map .keep

section Entered

variable (hroot : s.rootExcluded = false) (kept : (c.enter s site).removed = false)
  (entered : (c.enter s site).skipped = false)

include hroot kept entered

/-- Where no child is visited any more at the end, the node has no plan. -/
theorem quiet_below {plan : Plan}
    (hplan : (Walk.below c.visitor c.visitor_nonGrowing s site).1.slots.head?.join = some plan) :
    (Walk.below c.visitor c.visitor_nonGrowing s site).1.mode.suppressesDescent = false := by
  obtain ⟨_, _, hend⟩ := tracks_leaving hroot kept entered
  obtain ⟨slot, hslots, hagree⟩ := hend.slots
  rw [hslots, List.head?_cons, Option.join_some] at hplan
  rw [Bool.eq_false_iff, hend.mode]
  intro hs
  rw [hend.quiet hs, hplan] at hagree
  cases hagree

/-- From some point on to the end the plan of the node goes on. -/
theorem goes_to_end {before nodes : List Node}
    (hbelow : Walk.below c.visitor c.visitor_nonGrowing s site =
      Walk.siblings c.visitor c.visitor_nonGrowing (site.depth + 1) [] p before nodes)
    (hslots : p.slots = slot :: outside) (hroot' : p.rootExcluded = false) {plan : Plan}
    (hplan : (Walk.below c.visitor c.visitor_nonGrowing s site).1.slots.head?.join = some plan) :
    Goes c before slot (Walk.below c.visitor c.visitor_nonGrowing s site).2 (some plan) := by
  have hquiet := quiet_below hroot kept entered hplan
  rw [hbelow] at hplan hquiet ⊢
  obtain ⟨slot', hslot', hgoes⟩ := goes_siblings hslots hroot' (site.depth + 1) [] before nodes
  rw [hslot', List.head?_cons, Option.join_some] at hplan
  rw [← hplan]
  exact hgoes.resolve_left fun hs => Bool.false_ne_true (hquiet.symm.trans hs)

/-- The plan that a node has at the end was made by going over its children. -/
theorem goes_inside {plan : Plan}
    (hplan : (Walk.below c.visitor c.visitor_nonGrowing s site).1.slots.head?.join = some plan) :
    Goes c [] none (Walk.below c.visitor c.visitor_nonGrowing s site).2 (some plan) := by
  obtain ⟨p, henter, -, -, hproot⟩ := enter_of_entered kept entered
  have hbelow : Walk.below c.visitor c.visitor_nonGrowing s site =
      Walk.siblings c.visitor c.visitor_nonGrowing (site.depth + 1) [] p.opened []
        (site.node.children?.getD []) := by
    rw [Walk.below, show c.visitor.enter s site = _ from henter]
  exact goes_to_end hroot kept entered hbelow rfl (hproot.trans hroot) hplan

/-- From a child to the end the plan of the node goes on. -/
theorem goes_below {xs ys : List Node} (children : site.node.children? = some (xs ++ n :: ys))
    {r : Progress × Option Node} (hr : Walk.subtree c.visitor c.visitor_nonGrowing
      (Walk.arrival c.visitor c.visitor_nonGrowing s site xs (n :: ys)).1
      (Walk.childSite c.visitor c.visitor_nonGrowing s site xs n ys) = r)
    (hslots : r.1.slots = slot :: outside) (hroot' : r.1.rootExcluded = false) {plan : Plan}
    (hplan : (Walk.below c.visitor c.visitor_nonGrowing s site).1.slots.head?.join = some plan) :
    Goes c ((Walk.arrival c.visitor c.visitor_nonGrowing s site xs (n :: ys)).2 ++ r.2.toList) slot
      (Walk.below c.visitor c.visitor_nonGrowing s site).2 (some plan) := by
  have hbelow := Walk.below_eq c.visitor_nonGrowing ((c.children?_enter s site).trans children)
  rw [show Walk.subtree _ _ _ _ = r from hr] at hbelow
  exact goes_to_end hroot kept entered hbelow hslots hroot' hplan

/-- The layout goes through the children in order and makes the pieces of the level. -/
theorem lays_layout :
    ∃ lost, Lays 0 (Walk.below c.visitor c.visitor_nonGrowing s site).2 (c.layout s site)
      (c.levelBelow site.node (.ofProgress s)).pieces lost := by
  obtain ⟨es, outside, hend⟩ := tracks_leaving hroot kept entered
  obtain ⟨slot, hslots, hagree⟩ := hend.slots
  rw [layout, hslots, ← hend.done, List.head?_cons, Option.join_some]
  rw [← hend.done] at hagree
  cases hassembly : (c.levelBelow site.node (.ofProgress s)).assembly? with
  | none =>
    rw [hassembly] at hagree
    cases hagree
    rw [Level.pieces_of_none hassembly, List.range_eq_range']
    exact ⟨[], .keepAll 0 _⟩
  | some a =>
    rw [hassembly] at hagree
    cases hagree with
    | both stands =>
      have hlays := stands.flush rfl []
      rw [List.append_nil] at hlays
      rw [Level.pieces_of_some hassembly]
      exact ⟨_, hlays⟩

/-- A node is left with the children that its layout shows. -/
theorem left_node_layout :
    (Walk.left c.visitor c.visitor_nonGrowing s site).node =
      site.node.withChildren ((c.layout s site).flatMap
        (Entry.shown c.wrap (Walk.below c.visitor c.visitor_nonGrowing s site).2)) := by
  cases hchildren : site.node.children? with
  | none =>
    rw [left_node_of_leaf hroot kept entered hchildren, Node.withChildren_of_leaf hchildren]
  | some children =>
    have hcontainer := Node.isContainer_of_children? hchildren
    obtain ⟨lost, hlays⟩ := lays_layout hroot kept entered
    have hshown := hlays.flatMap_shown c.wrap [] rfl
    rw [List.nil_append] at hshown
    rw [left_node (l := .ofProgress s) rfl rfl rfl hroot kept entered hcontainer, hshown]
    rfl

end Entered

end Cutter
end SlideDeck
