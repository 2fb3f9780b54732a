import SlideDeck.Proofs.Slides.Confinement
import SlideDeck.Proofs.Walk.InStep

/-!
What directives decide. The mode, and whether the document is kept out of slides, change by the
comments alone: neither the name of the markers nor the slides have a part in it. So the walks of
two cutters with one keyword make the same calls, at the same nodes and in the same modes.
-/
namespace SlideDeck

/-- The part of the state of a cutter that directives decide. -/
structure Skipping where
  mode : SkipMode
  rootExcluded : Bool
  deriving DecidableEq, Repr

/-- At the end of a node, a directive for the enclosing node ends with it. -/
def Skipping.left (hasParent : Bool) (k : Skipping) : Skipping where
  mode := if k.mode.suppressesDescent then .stopped else k.mode
  rootExcluded := k.rootExcluded || (k.mode == .outer && !hasParent)

namespace Progress

def skipping (p : Progress) : Skipping := ⟨p.mode, p.rootExcluded⟩

@[simp] theorem skipping_opened (p : Progress) : p.opened.skipping = p.skipping := rfl

@[simp] theorem skipping_closed (p : Progress) : p.closed.2.skipping = p.skipping := rfl

@[simp] theorem skipping_plan (change : Plan → Plan) (p : Progress) :
    (p.plan change).skipping = p.skipping := by
  unfold plan
  split <;> rfl

@[simp] theorem skipping_discard (p : Progress) : p.discard.skipping = p.skipping := by
  unfold discard
  split <;> rfl

end Progress

namespace Cutter

@[simp] theorem skipping_cutAt (site : Site) (p : Progress) :
    (cutAt site p).skipping = p.skipping := by
  unfold cutAt
  split
  · rfl
  · exact p.skipping_plan _

@[simp] theorem skipping_follow (d : Directive) (mode : SkipMode) (p : Progress) :
    (follow d mode p).skipping = ⟨mode, p.rootExcluded⟩ := by
  unfold follow
  split
  · exact Progress.skipping_discard _
  · rfl

@[simp] theorem skipping_reportCut (c : Cutter) (site : Site) (p : Progress) :
    (c.reportCut site p).skipping = p.skipping := by
  unfold reportCut
  split
  · rfl
  · exact p.skipping_plan _

@[simp] theorem skipping_finish (c : Cutter) (plan : Plan) (site : Site) (p : Progress) :
    (c.finish plan site p).2.skipping = p.skipping := by
  unfold finish
  split
  · rfl
  · exact c.skipping_reportCut _ _

theorem skipping_endSkip (c : Cutter) (site : Site) (p : Progress) :
    (c.endSkip site p).skipping = p.skipping.left site.hasParent := by
  obtain ⟨mode, slots, slides, rootExcluded⟩ := p
  have hleft (hasParent : Bool) (h : mode ≠ .outer) : Skipping.left hasParent ⟨mode, rootExcluded⟩ =
      ⟨if mode.suppressesDescent then .stopped else mode, rootExcluded⟩ := by
    rw [Skipping.left, beq_eq_false_iff_ne.mpr h, Bool.false_and, Bool.or_false]
  cases mode with
  | stopped => exact (hleft _ (by decide)).symm
  | start => exact (hleft _ (by decide)).symm
  | inner => exact (hleft _ (by decide)).symm
  | outer =>
    unfold endSkip Site.hasParent
    cases site.place? with
    | none => simp [Progress.skipping, Skipping.left, SkipMode.suppressesDescent]
    | some place =>
      simp only [Progress.skipping_plan]
      simp [Progress.skipping, Skipping.left, SkipMode.suppressesDescent]

/-- A directive fires at a node just when the node is taken out, and then it decides the mode. -/
theorem enter_skipping (c : Cutter) (p : Progress) (site : Site) :
    (c.enter p site).removed = (c.fires? p.mode site.node).isSome ∧
      (c.enter p site).skipped = p.mode.suppressesDescent ∧
      (c.enter p site).state.skipping =
        ⟨((c.fires? p.mode site.node).map Prod.snd).getD p.mode, p.rootExcluded⟩ := by
  cases hf : c.fires? p.mode site.node with
  | some r =>
    obtain ⟨d, mode⟩ := r
    have hawake : p.mode.suppressesDescent = false := awake_of_fires? (l := .ofProgress p) hf
    have henter : c.enter p site = ⟨follow d mode p, site.node, true, false⟩ := by
      rw [enter, hawake, if_neg Bool.false_ne_true, (of_fires? hf).2, Bool.and_false,
        if_neg Bool.false_ne_true, hf]
    rw [henter]
    exact ⟨rfl, hawake.symm, skipping_follow d mode p⟩
  | none =>
    unfold enter
    by_cases hs : p.mode.suppressesDescent = true
    · rw [if_pos hs]
      exact ⟨rfl, hs.symm, rfl⟩
    · have hawake : p.mode.suppressesDescent = false := by simpa using hs
      rw [if_neg hs, hf]
      by_cases hm : (p.mode.splits && site.hasParent && c.isMarker site.node) = true
      · rw [if_pos hm]
        exact ⟨rfl, hawake.symm, skipping_cutAt site p⟩
      · rw [if_neg hm]
        exact ⟨rfl, hawake.symm, rfl⟩

theorem leave_skipping (c : Cutter) (p : Progress) (site : Site) :
    (c.leave p site).removed = false ∧
      (c.leave p site).state.skipping = p.skipping.left site.hasParent := by
  refine ⟨rfl, ?_⟩
  unfold leave
  simp only [skipping_endSkip]
  rw [← p.skipping_closed]
  cases p.closed.1 with
  | none => rfl
  | some plan => exact congrArg (·.left site.hasParent) (c.skipping_finish plan site p.closed.2)

end Cutter

/-- What a call has to do with directives: where it is made, at which node when the node is entered,
the directive that fires there, what of the state of the cutter it changes, and whether the walk
then takes the node out or goes past it. -/
structure Turn where
  phase : Phase
  depth : Nat
  index? : Option Nat
  /-- The number of siblings behind the node. -/
  behind? : Option Nat
  entered? : Option Node
  fires? : Option Directive
  state : Skipping
  next : Skipping
  removed : Bool
  skipped : Bool

def Event.turn (c : Cutter) (e : Event Progress) : Turn where
  phase := e.phase
  depth := e.site.depth
  index? := e.site.index?
  behind? := e.site.place?.map fun place => place.after.length
  entered? := if e.phase = .enter then some e.site.node else none
  fires? := if e.phase = .enter then (c.fires? e.state.mode e.site.node).map Prod.fst else none
  state := e.state.skipping
  next := e.reply.state.skipping
  removed := e.reply.removed
  skipped := e.reply.skipped

namespace Cutter

/-- The calls of the walk over a document, in their order. -/
def turns (c : Cutter) (tree : Node) : List Turn :=
  (Walk.toEnd c.recorder c.recorder_nonGrowing ({}, []) tree).1.2.map (Event.turn c)

/-- The calls at which a directive fires. -/
def firings (c : Cutter) (tree : Node) : List Turn :=
  (c.turns tree).filter fun turn => turn.fires?.isSome

/-- The walks are at the same point: directives have decided alike, in the same calls. -/
structure Alike (c c' : Cutter) (s t : Progress × List (Event Progress)) : Prop where
  skipping : s.1.skipping = t.1.skipping
  turns : s.2.map (Event.turn c) = t.2.map (Event.turn c')

variable {c c' : Cutter} {s t : Progress × List (Event Progress)} {a b : Site}

theorem fires?_eq_of_skip (hskip : c.skip = c'.skip) (mode : SkipMode) (n : Node) :
    c.fires? mode n = c'.fires? mode n := by
  rw [fires?, fires?, directive?, directive?, hskip]

theorem behind_eq (h : a.Abreast b) : a.place?.map (fun place => place.after.length) =
    b.place?.map fun place => place.after.length := by
  have hafter := congrArg (Option.map List.length) h.after
  rwa [Option.map_map, Option.map_map] at hafter

theorem Alike.enter (hskip : c.skip = c'.skip) (h : Alike c c' s t) (hab : a.Abreast b)
    (hnode : a.node = b.node) :
    (c.enter s.1 a).removed = (c'.enter t.1 b).removed ∧
      (c.enter s.1 a).skipped = (c'.enter t.1 b).skipped ∧
      Alike c c' (c.recorder.enter s a).state (c'.recorder.enter t b).state := by
  have hmode : s.1.mode = t.1.mode := congrArg Skipping.mode h.skipping
  have hexcluded : s.1.rootExcluded = t.1.rootExcluded := congrArg Skipping.rootExcluded h.skipping
  obtain ⟨hremoved, hskipped, hstate⟩ := c.enter_skipping s.1 a
  obtain ⟨hremoved', hskipped', hstate'⟩ := c'.enter_skipping t.1 b
  have hfires : c.fires? s.1.mode a.node = c'.fires? t.1.mode b.node := by
    rw [hmode, hnode, fires?_eq_of_skip hskip]
  have hremoved'' : (c.enter s.1 a).removed = (c'.enter t.1 b).removed := by
    rw [hremoved, hremoved', hfires]
  have hskipped'' : (c.enter s.1 a).skipped = (c'.enter t.1 b).skipped := by
    rw [hskipped, hskipped', hmode]
  have hstate'' : (c.enter s.1 a).state.skipping = (c'.enter t.1 b).state.skipping := by
    rw [hstate, hstate', hfires, hmode, hexcluded]
  refine ⟨hremoved'', hskipped'', hstate'', ?_⟩
  show (s.2 ++ [_]).map _ = (t.2 ++ [_]).map _
  rw [List.map_append, List.map_append, h.turns, List.map_singleton, List.map_singleton]
  simp only [Event.turn, visitor, if_true, hab.depth, hab.index?, behind_eq hab, hnode,
    h.skipping, hremoved'', hskipped'', hstate'', hmode, fires?_eq_of_skip hskip]

theorem Alike.leave (h : Alike c c' s t) (hab : a.Abreast b) :
    Alike c c' (c.recorder.leave s a).state (c'.recorder.leave t b).state := by
  have hstate : (c.leave s.1 a).state.skipping = (c'.leave t.1 b).state.skipping := by
    rw [(c.leave_skipping s.1 a).2, (c'.leave_skipping t.1 b).2, h.skipping, hab.hasParent]
  refine ⟨hstate, ?_⟩
  show (s.2 ++ [_]).map _ = (t.2 ++ [_]).map _
  have hskipped : (c.leave s.1 a).skipped = (c'.leave t.1 b).skipped := rfl
  rw [List.map_append, List.map_append, h.turns, List.map_singleton, List.map_singleton]
  simp only [Event.turn, visitor, hab.depth, hab.index?, behind_eq hab, h.skipping, hstate,
    hskipped, (c.leave_skipping s.1 a).1, (c'.leave_skipping t.1 b).1, reduceCtorEq, if_false]

theorem recorder_inStep (hskip : c.skip = c'.skip) :
    c.recorder.InStep c'.recorder (Alike c c') where
  state_enter h hab hnode := (h.enter hskip hab hnode).2.2
  node {_ _ a b} _ _ hnode := (c.enter_node _ a).trans (hnode.trans (c'.enter_node _ b).symm)
  removed_enter h hab hnode := (h.enter hskip hab hnode).1
  skipped h hab hnode := (h.enter hskip hab hnode).2.1
  state_leave h hab := h.leave hab
  removed_leave _ _ := rfl

theorem cut_skipping (c : Cutter) (tree : Node) :
    (⟨(c.cut tree).1.skipMode, (c.cut tree).1.rootExcluded⟩ : Skipping) =
      (Walk.toEnd c.recorder c.recorder_nonGrowing ({}, []) tree).1.1.skipping := by
  have htraced := congrArg Prod.fst (Walk.toEnd_traced c.visitor_nonGrowing {} tree)
  rw [skipMode_cut, rootExcluded_cut, walk, ← htraced]
  rfl

/-- Markers and slides have no part in what directives do. Cutters with the same keyword go over a
document with the same calls: the same directives fire in the same order, at the same nodes and in
the same modes, and they come to the same in the end. -/
theorem turns_eq_of_keyword (keyword marker marker' wrapper wrapper' : String)
    (props props' : Props) (tree : Node) :
    let c := ofKeyword marker wrapper props keyword
    let c' := ofKeyword marker' wrapper' props' keyword
    c.turns tree = c'.turns tree ∧ c.firings tree = c'.firings tree ∧
      (c.cut tree).1.skipMode = (c'.cut tree).1.skipMode ∧
      (c.cut tree).1.rootExcluded = (c'.cut tree).1.rootExcluded := by
  intro c c'
  have hstart : Alike c c' ({}, []) ({}, []) := ⟨rfl, rfl⟩
  have hstep : c.recorder.InStep c'.recorder (Alike c c') := recorder_inStep rfl
  have halike := Walk.toEnd_inStep hstep c.recorder_nonGrowing c'.recorder_nonGrowing hstart tree
  have hturns : c.turns tree = c'.turns tree := halike.turns
  have hend : (⟨(c.cut tree).1.skipMode, (c.cut tree).1.rootExcluded⟩ : Skipping) =
      ⟨(c'.cut tree).1.skipMode, (c'.cut tree).1.rootExcluded⟩ := by
    rw [cut_skipping, cut_skipping]
    exact halike.skipping
  obtain ⟨hmode, hexcluded⟩ := Skipping.mk.inj hend
  exact ⟨hturns, by rw [firings, firings, hturns], hmode, hexcluded⟩

end Cutter
end SlideDeck
