import SlideDeck.Proofs.Slides.Skipping

/-!
Directives by themselves. Which of them fire, and what is left of a document without them, is said
by plain recursion, with no markers and no slides. The directives that fire on the walk over a
document are those, at the same nodes and in the same order.
-/
namespace SlideDeck

/-- The nodes `kept` are the nodes without `gone`, which were taken out from among and below them
and are given in document order. -/
inductive Pruned : List Node → List Node → List Node → Prop
  | nil : Pruned [] [] []
  | gone {n : Node} {nodes gone kept : List Node} (rest : Pruned nodes gone kept) :
      Pruned (n :: nodes) (n :: gone) kept
  | kept {n : Node} {nodes below gone gone' kept : List Node}
      (inside : Pruned (n.children?.getD []) gone below) (rest : Pruned nodes gone' kept) :
      Pruned (n :: nodes) (gone ++ gone') (n.withChildren below :: kept)

namespace Pruned

theorem append {xs ys gone gone' kept kept' : List Node} (h : Pruned xs gone kept)
    (h' : Pruned ys gone' kept') : Pruned (xs ++ ys) (gone ++ gone') (kept ++ kept') := by
  induction h with
  | nil => exact h'
  | gone _ ih => exact .gone ih
  | kept inside _ _ ih =>
    rw [List.append_assoc]
    exact .kept inside ih

theorem refl_of {nodes : List Node}
    (h : ∀ n ∈ nodes, Pruned (n.children?.getD []) [] (n.children?.getD [])) :
    Pruned nodes [] nodes := by
  induction nodes with
  | nil => exact .nil
  | cons n rest ih =>
    have hn := Pruned.kept (h n List.mem_cons_self) (ih fun m hm => h m (List.mem_cons_of_mem n hm))
    rwa [Node.withChildren_getD] at hn

/-- Nothing is taken out. -/
theorem refl (nodes : List Node) : Pruned nodes [] nodes := by
  have hbelow (n : Node) : Pruned (n.children?.getD []) [] (n.children?.getD []) := by
    induction n using Node.induction_children with
    | step n ih => exact refl_of ih
  exact refl_of fun n _ => hbelow n

end Pruned

/-- The directive that fires when one is read, with the mode it leads to. -/
def SkipMode.firing? (mode : SkipMode) (read? : Option Directive) : Option (Directive × SkipMode) :=
  read?.bind fun d => (mode.transition d).map (d, ·)

theorem SkipMode.firing?_of_suppressed {mode : SkipMode} (h : mode.suppressesDescent = true)
    (read? : Option Directive) : mode.firing? read? = none := by
  cases read? with
  | none => rfl
  | some d => cases mode <;> first | rfl | cases h

/-- How far directives have come among the children of an open node: the mode, the nodes at which
they have fired so far in all of the document, and the children that are left. -/
structure Course where
  mode : SkipMode := .stopped
  fired : List (Node × Directive) := []
  kept : List Node := []
  deriving Repr

namespace Course

/-- The course among the children of a node that is entered. -/
def inside (s : Course) : Course := { s with kept := [] }

def pass (node : Node) (s : Course) : Course := { s with kept := s.kept ++ [node] }

def fire (node : Node) (d : Directive) (mode : SkipMode) (s : Course) : Course :=
  { s with mode := mode, fired := s.fired ++ [(node, d)] }

/-- Goes on behind a node with the course below it. A mode for that node ends with it. -/
def ascend (node : Node) (s inner : Course) : Course where
  mode := if inner.mode.suppressesDescent then .stopped else inner.mode
  fired := inner.fired
  kept := s.kept ++ [node.withChildren inner.kept]

/-- Visits a node whose children are visited by `below`. -/
def around (read : Node → Option Directive) (node : Node) (below : Course → Course) (s : Course) :
    Course :=
  if s.mode.suppressesDescent then s.pass node
  else
    match s.mode.firing? (read node) with
    | some (d, mode) => s.fire node d mode
    | none => s.ascend node (below s.inside)

mutual

def visit (read : Node → Option Directive) : Node → Course → Course
  | .root cs, s => around read (.root cs) (fun inner => visitAll read cs inner) s
  | .element t p cs, s => around read (.element t p cs) (fun inner => visitAll read cs inner) s
  | .component n p cs, s => around read (.component n p cs) (fun inner => visitAll read cs inner) s
  | .text v, s => around read (.text v) id s
  | .expression v cs, s => around read (.expression v cs) id s
  | .doctype n, s => around read (.doctype n) id s
  | .esm v ds, s => around read (.esm v ds) id s
  | .comment v, s => around read (.comment v) id s
  | .raw v, s => around read (.raw v) id s

def visitAll (read : Node → Option Directive) : List Node → Course → Course
  | [], s => s
  | n :: rest, s => visitAll read rest (visit read n s)

end

variable {read : Node → Option Directive} {n : Node} {nodes : List Node} {s : Course}

theorem visit_eq (read : Node → Option Directive) (n : Node) (s : Course) :
    visit read n s = around read n (visitAll read (n.children?.getD [])) s := by
  cases n <;> simp [visit, visitAll, Node.children?] <;> rfl

@[simp] theorem visitAll_nil (s : Course) : visitAll read [] s = s := by
  rw [visitAll]

@[simp] theorem visitAll_cons (n : Node) (rest : List Node) (s : Course) :
    visitAll read (n :: rest) s = visitAll read rest (visit read n s) := by
  rw [visitAll]

theorem visit_of_suppressed (h : s.mode.suppressesDescent = true) : visit read n s = s.pass n := by
  rw [visit_eq, around, if_pos h]

theorem visit_of_firing? (read : Node → Option Directive)
    (h : s.mode.suppressesDescent = false) {d : Directive} {mode : SkipMode}
    (hfiring : s.mode.firing? (read n) = some (d, mode)) : visit read n s = s.fire n d mode := by
  rw [visit_eq, around, h, if_neg Bool.false_ne_true, hfiring]

theorem visit_of_none (read : Node → Option Directive) (h : s.mode.suppressesDescent = false)
    (hfiring : s.mode.firing? (read n) = none) :
    visit read n s = s.ascend n (visitAll read (n.children?.getD []) s.inside) := by
  rw [visit_eq, around, h, if_neg Bool.false_ne_true, hfiring]

/-- Behind further nodes: some were taken out, each where the directive was read that fired, and the
rest of them is left. -/
structure Prunes (read : Node → Option Directive) (s : Course) (nodes : List Node) (s' : Course)
    (gone : List (Node × Directive)) (left : List Node) : Prop where
  fired : s'.fired = s.fired ++ gone
  kept : s'.kept = s.kept ++ left
  pruned : Pruned nodes (gone.map Prod.fst) left
  read : ∀ x ∈ gone, read x.1 = some x.2

theorem prunes_all {nodes : List Node}
    (step : ∀ n ∈ nodes, ∀ s, ∃ gone kept, Prunes read s [n] (visit read n s) gone kept)
    (s : Course) : ∃ gone kept, Prunes read s nodes (visitAll read nodes s) gone kept := by
  induction nodes generalizing s with
  | nil => exact ⟨[], [], by simp, by simp, .nil, by simp⟩
  | cons n rest ih =>
    obtain ⟨gone, kept, hn⟩ := step n List.mem_cons_self s
    obtain ⟨gone', kept', hrest⟩ := ih (fun m hm => step m (List.mem_cons_of_mem n hm))
      (visit read n s)
    refine ⟨gone ++ gone', kept ++ kept', ?_, ?_, ?_, ?_⟩
    · rw [visitAll_cons, hrest.fired, hn.fired, List.append_assoc]
    · rw [visitAll_cons, hrest.kept, hn.kept, List.append_assoc]
    · rw [List.map_append]
      exact hn.pruned.append hrest.pruned
    · exact fun x hx => (List.mem_append.mp hx).elim (hn.read x) (hrest.read x)

theorem prunes_visit (read : Node → Option Directive) (n : Node) (s : Course) :
    ∃ gone kept, Prunes read s [n] (visit read n s) gone kept := by
  induction n using Node.induction_children generalizing s with
  | step n ih =>
    cases hs : s.mode.suppressesDescent with
    | true =>
      rw [visit_of_suppressed hs]
      exact ⟨[], [n], (List.append_nil _).symm, rfl, .refl [n], fun x hx => by cases hx⟩
    | false =>
      cases hfiring : s.mode.firing? (read n) with
      | some r =>
        obtain ⟨d, mode⟩ := r
        have hread : read n = some d := by
          obtain ⟨d', hd', hmode⟩ := Option.bind_eq_some_iff.mp hfiring
          obtain ⟨_, -, hpair⟩ := Option.map_eq_some_iff.mp hmode
          rw [hd', (Prod.mk.inj hpair).1]
        rw [visit_of_firing? read hs hfiring]
        refine ⟨[(n, d)], [], rfl, (List.append_nil _).symm, .gone .nil, ?_⟩
        exact List.forall_mem_singleton.mpr hread
      | none =>
        obtain ⟨gone, kept, hbelow⟩ := prunes_all ih s.inside
        rw [visit_of_none read hs hfiring]
        refine ⟨gone, [n.withChildren kept], hbelow.fired, ?_, ?_, hbelow.read⟩
        · rw [ascend, hbelow.kept]
          rfl
        · have hn := Pruned.kept hbelow.pruned .nil
          rwa [List.append_nil] at hn

theorem prunes_visitAll (read : Node → Option Directive) (nodes : List Node) (s : Course) :
    ∃ gone kept, Prunes read s nodes (visitAll read nodes s) gone kept :=
  prunes_all (fun n _ => prunes_visit read n) s

theorem fired_subset_visitAll (read : Node → Option Directive) (nodes : List Node) (s : Course) :
    s.fired ⊆ (visitAll read nodes s).fired := by
  obtain ⟨gone, kept, h⟩ := prunes_visitAll read nodes s
  rw [h.fired]
  exact List.subset_append_left _ _

end Course

namespace Cutter

variable {c : Cutter} {n : Node} {s : Course} {p : Progress} {es : List (Event Progress)}

/-- The directives that fire in a document, and what is left of it without them. -/
def course (c : Cutter) (tree : Node) : Course := Course.visit c.directive? tree {}

/-- The nodes at which directives have fired in calls, with the directives. -/
def firedIn (c : Cutter) (es : List (Event Progress)) : List (Option Node × Option Directive) :=
  ((es.map (Event.turn c)).filter fun turn => turn.fires?.isSome).map fun turn =>
    (turn.entered?, turn.fires?)

/-- The walk, with the record of its calls, is where the course is. -/
structure InCourse (c : Cutter) (s : Course) (w : Progress × List (Event Progress)) : Prop where
  mode : w.1.mode = s.mode
  fired : c.firedIn w.2 = s.fired.map fun x => (some x.1, some x.2)

theorem firedIn_append (c : Cutter) (es es' : List (Event Progress)) :
    c.firedIn (es ++ es') = c.firedIn es ++ c.firedIn es' := by
  simp [firedIn]

theorem firedIn_enter (site : Site) (r : Reply Progress) :
    c.firedIn [⟨.enter, p, site, r⟩] =
      ((c.fires? p.mode site.node).map fun f => (some site.node, some f.1)).toList := by
  cases h : c.fires? p.mode site.node with
  | none => simp [firedIn, Event.turn, h]
  | some f => simp [firedIn, Event.turn, h]

theorem firedIn_leave (site : Site) (r : Reply Progress) :
    c.firedIn [⟨.leave, p, site, r⟩] = [] := by
  simp [firedIn, Event.turn]

/-- Wherever the walk comes to the node in the course, it is in the course again behind it. -/
def VisitsInCourse (c : Cutter) (n : Node) : Prop :=
  ∀ (s : Course) (w : Progress × List (Event Progress)) (depth : Nat) (place? : Option Place),
    InCourse c s w → InCourse c (s.visit c.directive? n)
      (Walk.subtree c.recorder c.recorder_nonGrowing w ⟨n, depth, place?⟩).1

theorem inCourse_siblings {nodes : List Node} (h : ∀ n ∈ nodes, c.VisitsInCourse n) (depth : Nat)
    (beyond before : List Node) {w : Progress × List (Event Progress)} (hw : InCourse c s w) :
    InCourse c (s.visitAll c.directive? nodes)
      (Walk.siblings c.recorder c.recorder_nonGrowing depth beyond w before nodes).1 := by
  induction nodes generalizing s w before with
  | nil => rwa [Course.visitAll_nil]
  | cons n rest ih =>
    rw [Course.visitAll_cons]
    exact ih (fun m hm => h m (List.mem_cons_of_mem n hm)) _
      (h n List.mem_cons_self s w depth (some ⟨before, rest ++ beyond⟩) hw)

theorem mode_enter (c : Cutter) (p : Progress) (site : Site) : (c.enter p site).state.mode =
    ((c.fires? p.mode site.node).map Prod.snd).getD p.mode :=
  congrArg Skipping.mode (c.enter_skipping p site).2.2

theorem firedIn_recorder_enter (c : Cutter) (p : Progress) (es : List (Event Progress))
    (site : Site) : c.firedIn (c.recorder.enter (p, es) site).state.2 = c.firedIn es ++
      ((c.fires? p.mode site.node).map fun f => (some site.node, some f.1)).toList := by
  show c.firedIn (es ++ [⟨.enter, p, site, c.enter p site⟩]) = _
  rw [firedIn_append, firedIn_enter]

theorem inCourse_leave {site : Site} {w : Progress × List (Event Progress)} (h : InCourse c s w)
    {n : Node} {outer : Course} :
    InCourse c (outer.ascend n s) (c.recorder.leave w site).state := by
  have hmode : (c.leave w.1 site).state.mode = _ :=
    congrArg Skipping.mode (c.leave_skipping w.1 site).2
  refine ⟨?_, ?_⟩
  · show (c.leave w.1 site).state.mode = _
    rw [hmode, Course.ascend, ← h.mode]
    rfl
  · show c.firedIn (w.2 ++ [⟨.leave, w.1, site, c.leave w.1 site⟩]) = _
    rw [firedIn_append, firedIn_leave, List.append_nil, h.fired]
    rfl

theorem visitsInCourse (c : Cutter) (n : Node) : c.VisitsInCourse n := by
  induction n using Node.induction_children with
  | step n ih =>
    rintro s ⟨p, es⟩ depth place? ⟨hmode, hfired⟩
    obtain ⟨hremoved, hskipped, -⟩ := c.enter_skipping p ⟨n, depth, place?⟩
    have hmode' := c.mode_enter p ⟨n, depth, place?⟩
    have hfired' := c.firedIn_recorder_enter p es ⟨n, depth, place?⟩
    simp only at hmode hfired hremoved hskipped hmode' hfired'
    rw [hmode] at hremoved hskipped hmode' hfired'
    rw [hfired] at hfired'
    have hfires : c.fires? s.mode n = s.mode.firing? (c.directive? n) := rfl
    rw [Walk.subtree_eq]
    simp only [show (c.recorder.enter (p, es) ⟨n, depth, place?⟩).removed = _ from hremoved,
      show (c.recorder.enter (p, es) ⟨n, depth, place?⟩).skipped = _ from hskipped]
    cases hs : s.mode.suppressesDescent with
    | true =>
      have hnone : c.fires? s.mode n = none := SkipMode.firing?_of_suppressed hs _
      rw [hnone] at hmode' hfired' ⊢
      rw [Course.visit_of_suppressed hs]
      exact ⟨hmode', hfired'.trans (List.append_nil _)⟩
    | false =>
      cases hf : c.fires? s.mode n with
      | some f =>
        rw [hf] at hmode' hfired'
        rw [Course.visit_of_firing? _ hs (hfires.symm.trans hf)]
        refine ⟨hmode', hfired'.trans ?_⟩
        rw [Course.fire, List.map_append]
        rfl
      | none =>
        rw [hf] at hmode' hfired'
        rw [Course.visit_of_none _ hs (hfires.symm.trans hf)]
        have hinside : InCourse c s.inside (c.recorder.enter (p, es) ⟨n, depth, place?⟩).state :=
          ⟨hmode', hfired'.trans (List.append_nil _)⟩
        have hbelow := inCourse_siblings ih (depth + 1) [] [] hinside
        have hnode : (c.recorder.enter (p, es) ⟨n, depth, place?⟩).node = n := c.enter_node p _
        show InCourse c _ (Walk.left c.recorder c.recorder_nonGrowing (p, es) _).state
        rw [Walk.left, Walk.below, hnode]
        exact inCourse_leave hbelow

/-- The directives that fire on the walk over a document are those of its course. -/
theorem firings_eq (c : Cutter) (tree : Node) :
    ((c.firings tree).map fun turn => (turn.entered?, turn.fires?)) =
      (c.course tree).fired.map fun x => (some x.1, some x.2) := by
  have hstart : InCourse c {} ({}, []) := ⟨rfl, rfl⟩
  have hend := (c.visitsInCourse tree {} _ 0 none hstart).fired
  rw [firings, turns, Walk.toEnd_eq]
  exact hend

theorem map_entered?_firings (c : Cutter) (tree : Node) :
    (c.firings tree).filterMap Turn.entered? = (c.course tree).fired.map Prod.fst := by
  have hmap := congrArg (List.filterMap Prod.fst) (c.firings_eq tree)
  simpa [List.filterMap_map, Function.comp_def] using hmap

end Cutter
end SlideDeck
