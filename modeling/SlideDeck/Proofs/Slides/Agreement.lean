import SlideDeck.Proofs.Slides.Stands
import SlideDeck.Proofs.Walk.Subtree

/-!
The walk of the cutter agrees with cutting by plain recursion. At every child the innermost slot
stands for the assembly of the level, and the slots below it are as they were when the node around
the child was entered.
-/
namespace SlideDeck

/-- The children that a node loses when it is left. -/
def Event.dropped (e : Event Progress) : List Node :=
  match e.phase, e.state.closed.1, e.site.node.children? with
  | .leave, some plan, some children => plan.leftOut children
  | _, _, _ => []

abbrev Cutter.recorder (c : Cutter) : Visitor (Progress × List (Event Progress)) := c.visitor.traced

theorem Cutter.recorder_nonGrowing (c : Cutter) : c.recorder.NonGrowing :=
  Visitor.traced_nonGrowing c.visitor_nonGrowing

/-- A slot holds a plan just when there is an assembly, and the plan stands for it. -/
inductive Agrees (c : Cutter) (before todo : List Node) : Option Plan → Option Assembly → Prop
  | neither : Agrees c before todo none none
  | both {plan : Plan} {a : Assembly} (stands : plan.Stands c before todo a) :
      Agrees c before todo (some plan) (some a)

/-- The walk, with the record of its calls, is at the same point as the level: behind the children
`before` and ahead of `todo`, with the slots `outside` for the nodes further out. -/
structure Tracks (c : Cutter) (s : Progress × List (Event Progress)) (outside : List (Option Plan))
    (before todo : List Node) (l : Level) : Prop where
  mode : s.1.mode = l.mode
  slides : s.1.slides = l.slides
  dropped : s.2.flatMap Event.dropped = l.dropped
  done : l.done = before
  slots : ∃ slot, s.1.slots = slot :: outside ∧ Agrees c before todo slot l.assembly?
  rootExcluded : s.1.rootExcluded = false
  quiet : l.mode.suppressesDescent = true → l.assembly? = none

namespace Agrees

variable {c : Cutter} {before after todo : List Node} {n n' : Node} {slot : Option Plan} {l : Level}

/-- The plan of a slot, or a new one, stands for the assembly of the level. -/
theorem stands (h : Agrees c l.done todo slot l.assembly?) :
    (slot.getD {}).Stands c l.done todo l.assembly := by
  rw [Level.assembly]
  generalize l.assembly? = a? at h ⊢
  cases h with
  | neither => exact Plan.stands_new c l.done todo
  | both stands => exact stands

theorem pass {a? : Option Assembly} (h : Agrees c before (n :: after) slot a?)
    (hw : n'.isWhitespace = n.isWhitespace) (hsame : n.isWhitespace = true → n' = n) :
    Agrees c (before ++ [n']) after slot (a?.map (·.add n')) := by
  cases h with
  | neither => exact .neither
  | both stands => exact .both (stands.add hw hsame)

theorem remove {a? : Option Assembly} (h : Agrees c before (n :: after) slot a?)
    (hn : n.isWhitespace = false) (hm : c.isMarker n = false) : Agrees c before after slot a? := by
  cases h with
  | neither => exact .neither
  | both stands => exact .both (stands.remove hn hm)

end Agrees

namespace Cutter

variable {c : Cutter} {before after : List Node} {n : Node} {slot : Option Plan}
  {outside : List (Option Plan)} {q : Progress} {es : List (Event Progress)} {l inner : Level}

theorem leave_of_none (c : Cutter) (mode : SkipMode) (slides : Nat) (x : Bool) (site : Site) :
    c.leave ⟨mode, none :: slot :: outside, slides, x⟩ site =
      ⟨c.endSkip site ⟨mode, slot :: outside, slides, x⟩, site.node, false, false⟩ := rfl

/-- Carrying out a plan puts down the pieces of the assembly that it stands for. -/
theorem finish_eq (c : Cutter) {plan : Plan} {a : Assembly} {children : List Node}
    (hplan : plan.Stands c children [] a) {n : Node} (hn : n.isContainer = true) (depth : Nat)
    (place? : Option Place) (p : Progress) :
    let node := n.withChildren (a.settle.settled.map (Piece.build c.wrap))
    c.finish plan ⟨n.withChildren children, depth, place?⟩ p =
      (node, c.reportCut ⟨node, depth, place?⟩
        { p with slides := p.slides + Piece.slideCount a.settle.settled }) := by
  have hlays := hplan.flush rfl []
  rw [List.append_nil] at hlays
  have hfront : ([] : List (Option Node)).length = 0 := rfl
  have hbuild : (plan.flush children children.length).build c.wrap children =
      (a.settle.settled.map (Piece.build c.wrap), Piece.slideCount a.settle.settled) :=
    hlays.carryOut c.wrap hfront
  obtain ⟨cs, hcs⟩ := Option.isSome_iff_exists.mp hn
  simp only [finish, Node.children?_withChildren, hcs, Option.map_some, hbuild,
    Node.withChildren_withChildren]

theorem leave_of_some (c : Cutter) {mode : SkipMode} (hmode : mode.suppressesDescent = false)
    {plan : Plan} {a : Assembly} {children : List Node} (hplan : plan.Stands c children [] a)
    (slides : Nat) (x : Bool) {n : Node} (hn : n.isContainer = true) (depth : Nat)
    (place? : Option Place) :
    let node := n.withChildren (a.settle.settled.map (Piece.build c.wrap))
    c.leave ⟨mode, some plan :: outside, slides, x⟩ ⟨n.withChildren children, depth, place?⟩ =
      ⟨c.reportCut ⟨node, depth, place?⟩
        ⟨mode, outside, slides + Piece.slideCount a.settle.settled, x⟩, node, false, false⟩ := by
  intro node
  have hfinish := c.finish_eq hplan hn depth place? ⟨mode, outside, slides, x⟩
  have hskip (p : Progress) (hp : p.mode = mode) (site : Site) : c.endSkip site p = p := by
    rw [endSkip, hp]
    cases mode <;> first | rfl | cases hmode
  simp only [leave, Progress.closed, List.head?_cons, Option.join_some, List.drop_succ_cons,
    List.drop_zero, hfinish]
  rw [hskip]
  cases place? with
  | none => rfl
  | some place =>
    simp only [reportCut, Progress.plan]
    split <;> rfl

/-- What a node loses when it is left are the markers that its level dropped. -/
theorem dropped_leave {plan? : Option Plan} (h : Agrees c l.done [] plan? l.assembly?)
    (hq : q.slots = plan? :: outside) (hleaf : n.children? = none → l.assembly? = none)
    (depth : Nat) (place? : Option Place) (r : Reply Progress) :
    Event.dropped ⟨.leave, q, ⟨n.withChildren l.done, depth, place?⟩, r⟩ = l.losses := by
  have hclosed : q.closed.1 = plan? := by
    rw [Progress.closed, hq]
    rfl
  rw [Level.losses]
  generalize l.assembly? = a? at h hleaf ⊢
  cases h with
  | neither => simp only [Event.dropped, hclosed, Option.elim_none]
  | @both plan a stands =>
    have hlays := stands.flush rfl []
    rw [List.append_nil] at hlays
    cases hn : n.children? with
    | none => cases hleaf hn
    | some cs =>
      simp only [Event.dropped, hclosed, Node.children?_withChildren, hn, Option.map_some,
        Option.elim_some, ← hlays.leftOut]
      rfl

/-- Leaving a node carries its level over to the level around it. -/
theorem tracks_ascend (hq : Tracks c (q, es) (slot :: outside) inner.done [] inner)
    (hl : Agrees c l.done (n :: after) slot l.assembly?)
    (hleaf : n.children? = none →
      inner.assembly? = none ∧ inner.mode.suppressesDescent = false) (depth : Nat) :
    let site : Site := ⟨n.withChildren inner.done, depth, some ⟨l.done, after⟩⟩
    (c.leave q site).removed = false ∧
      Tracks c ((c.leave q site).state, es ++ [⟨.leave, q, site, c.leave q site⟩]) outside
        (l.done ++ [(c.leave q site).node]) after (c.ascend n after l inner) := by
  obtain ⟨mode, slots, slides, rootExcluded⟩ := q
  obtain ⟨hmode, hslides, hdropped, -, ⟨slot', hslots, hagree⟩, hroot, hquiet⟩ := hq
  simp only at hmode hslides hdropped hslots hroot
  subst hmode hslides hslots hroot
  intro site
  have hrecord (r : Reply Progress) : (es ++ [Event.mk .leave
      ⟨inner.mode, slot' :: slot :: outside, inner.slides, false⟩ site r]).flatMap Event.dropped =
        (l.after inner).dropped := by
    have hevent := dropped_leave hagree (q := ⟨inner.mode, slot' :: slot :: outside, inner.slides,
      false⟩) rfl (fun hn => (hleaf hn).1) depth (some ⟨l.done, after⟩) r
    rw [List.flatMap_append, hdropped, List.flatMap_singleton, hevent, Level.after]
  cases hassembly : inner.assembly? with
  | none =>
    rw [hassembly] at hagree
    cases hagree
    have hafter : l.after inner = { l with
        mode := inner.modeAfter, slides := inner.slides, dropped := (l.after inner).dropped } := by
      simp [Level.after, Level.pieces_of_none hassembly]
    have hpass : Agrees c (l.done ++ [site.node]) after slot (l.assembly?.map (·.add site.node)) :=
      hl.pass (Node.isWhitespace_withChildren n _)
        (fun h => Node.withChildren_of_isWhitespace h _)
    rw [leave_of_none, ascend, hassembly, hafter, childrenOf_of_none c hassembly]
    refine ⟨rfl, ?_⟩
    cases hm : inner.mode with
    | outer =>
      have hn : n.isWhitespace = false := by
        cases hw : n.isWhitespace with
        | false => rfl
        | true =>
          have := (hleaf (Node.children?_of_isWhitespace hw)).2
          rw [hm] at this
          cases this
      have houter := hl.stands.addOuter hn (Node.isMarker_withChildren c n inner.done)
      rw [hm] at hrecord
      simp only [endSkip, Level.modeAfter, hm, SkipMode.suppressesDescent, Level.put]
      exact ⟨rfl, rfl, hrecord _, rfl, ⟨_, rfl, .both houter⟩, rfl, fun h => by cases h⟩
    | _ =>
      rw [hm] at hrecord
      simp only [endSkip, Level.modeAfter, hm, SkipMode.suppressesDescent, Level.pass]
      exact ⟨rfl, rfl, hrecord _, rfl, ⟨_, rfl, hpass⟩, rfl, fun h => by cases h⟩
  | some a =>
    rw [hassembly] at hagree
    cases hagree with
    | @both plan _ hplan =>
      have hmode : inner.mode.suppressesDescent = false := by
        cases hs : inner.mode.suppressesDescent with
        | false => rfl
        | true => cases (hquiet hs).symm.trans hassembly
      have hn : n.isContainer = true := by
        cases hc : n.children? with
        | none => cases (hleaf hc).1.symm.trans hassembly
        | some cs => rw [Node.isContainer, hc]; rfl
      have hcut := hl.stands.addCut (Node.isWhitespace_of_isContainer hn)
        (n.withChildren (c.childrenOf inner))
      have hpieces := Level.pieces_of_some hassembly
      have hafter : l.after inner = { l with
          mode := inner.mode, slides := inner.slides + Piece.slideCount a.settle.settled,
          dropped := (l.after inner).dropped } := by
        simp [Level.after, hpieces, Level.modeAfter, hmode]
      rw [c.leave_of_some hmode hplan inner.slides false hn, ascend, hassembly, hafter]
      refine ⟨rfl, ?_⟩
      simp only [Option.isSome_some, if_true, Level.put]
      rw [childrenOf, hpieces] at hcut ⊢
      refine ⟨rfl, rfl, hrecord _, rfl, ⟨_, rfl, .both hcut⟩, rfl, fun h => ?_⟩
      rw [hmode] at h
      cases h

theorem tracks_inside {p : Progress} (es : List (Event Progress)) (children : List Node)
    (hmode : p.mode = l.mode) (hslides : p.slides = l.slides)
    (hdropped : es.flatMap Event.dropped = l.dropped) (hroot : p.rootExcluded = false) :
    Tracks c (p.opened, es) p.slots [] children l.inside :=
  ⟨hmode, hslides, hdropped, rfl, ⟨none, rfl, .neither⟩, hroot, fun _ => rfl⟩

/-- Coming to a marker that cuts, the slot around it stands for the assembly that has met it. -/
theorem agrees_cutAt {p : Progress} (hslots : p.slots = slot :: outside)
    (h : Agrees c l.done (n :: after) slot l.assembly?) (hm : c.isMarker n = true) (depth : Nat) :
    ∃ plan, cutAt ⟨n, depth, some ⟨l.done, after⟩⟩ p = { p with slots := some plan :: outside } ∧
      Agrees c l.done (n :: after) (some plan) l.meetMarker.assembly? := by
  refine ⟨_, ?_, .both (h.stands.meetMarker hm (n :: after))⟩
  simp only [cutAt, Progress.plan, hslots]
  rfl

theorem tracks_follow {p : Progress} {d : Directive} {mode : SkipMode}
    (hslides : p.slides = l.slides) (hdropped : es.flatMap Event.dropped = l.dropped)
    (hroot : p.rootExcluded = false) (hslots : p.slots = slot :: outside)
    (hl : Agrees c l.done (n :: after) slot l.assembly?)
    (hf : c.fires? l.mode n = some (d, mode)) :
    Tracks c (follow d mode p, es) outside l.done after (l.follow d mode) := by
  have hquiet := suppressesDescent_of_fires? hf
  obtain ⟨hblank, hmarker⟩ := of_fires? hf
  unfold follow Level.follow
  cases hd : d.discardsParent with
  | true =>
    simp only [if_true, Progress.discard, hslots]
    exact ⟨rfl, hslides, hdropped, rfl, ⟨none, rfl, .neither⟩, hroot, fun _ => rfl⟩
  | false =>
    simp only [Bool.false_eq_true, if_false]
    refine ⟨rfl, hslides, hdropped, rfl, ⟨slot, hslots, hl.remove hblank hmarker⟩, hroot, ?_⟩
    intro h
    rw [← hquiet] at hd
    exact absurd (hd.symm.trans h) Bool.false_ne_true

/-- Wherever the walk tracks a level at the node, it tracks it behind the node again. -/
def VisitTracks (c : Cutter) (n : Node) : Prop :=
  ∀ (s : Progress × List (Event Progress)) (outside : List (Option Plan)) (before after : List Node)
    (l : Level) (depth : Nat), Tracks c s outside before (n :: after) l →
    let r := Walk.subtree c.recorder c.recorder_nonGrowing s ⟨n, depth, some ⟨before, after⟩⟩
    Tracks c r.1 outside (before ++ r.2.toList) after (c.level n after l)

theorem tracks_siblings_of {nodes : List Node} (hnode : ∀ n ∈ nodes, c.VisitTracks n)
    {s : Progress × List (Event Progress)} {beyond : List Node} (depth : Nat)
    (h : Tracks c s outside before (nodes ++ beyond) l) :
    let r := Walk.siblings c.recorder c.recorder_nonGrowing depth
      beyond s before nodes
    Tracks c r.1 outside r.2 beyond (c.levelAll nodes beyond l) := by
  induction nodes generalizing s before l with
  | nil => exact h
  | cons n rest ih =>
    rw [levelAll_cons]
    exact ih (fun m hm => hnode m (List.mem_cons_of_mem _ hm))
      (hnode n List.mem_cons_self _ _ _ _ _ depth h)

/-- Going below a node and leaving it again is one step of the level around it. -/
theorem tracks_below (p : Progress) (l' : Level)
    (hnode : ∀ k ∈ n.children?.getD [], c.VisitTracks k)
    (hmode : p.mode = l.mode) (hslides : p.slides = l.slides)
    (hdropped : es.flatMap Event.dropped = l.dropped) (hroot : p.rootExcluded = false)
    (hslots : p.slots = slot :: outside) (hdone : l'.done = l.done)
    (hl : Agrees c l.done (n :: after) slot l'.assembly?)
    (hquiet : l.mode.suppressesDescent = false) (depth : Nat) :
    let q := Walk.siblings c.recorder c.recorder_nonGrowing
      (depth + 1) [] (p.opened, es) [] (n.children?.getD [])
    let site : Site := ⟨n.withChildren q.2, depth, some ⟨l.done, after⟩⟩
    let r := c.recorder.leave q.1 site
    r.removed = false ∧ Tracks c r.state outside (l.done ++ [r.node]) after
      (c.ascend n after l' (c.levelAll (n.children?.getD []) [] l.inside)) := by
  intro q site r
  have hinside : Tracks c q.1 p.slots q.2 [] (c.levelAll (n.children?.getD []) [] l.inside) :=
    tracks_siblings_of hnode (depth + 1)
      (tracks_inside es (n.children?.getD [] ++ []) hmode hslides hdropped hroot)
  have hdone' : (c.levelAll (n.children?.getD []) [] l.inside).done = q.2 := hinside.done
  rw [hslots, ← hdone'] at hinside
  have hleaf (hn : n.children? = none) :
      (c.levelAll (n.children?.getD []) [] l.inside).assembly? = none ∧
        (c.levelAll (n.children?.getD []) [] l.inside).mode.suppressesDescent = false := by
    rw [hn, Option.getD_none, levelAll_nil]
    exact ⟨rfl, hquiet⟩
  rw [← hdone] at hl
  have hascend := tracks_ascend hinside hl hleaf depth
  rw [hdone', hdone] at hascend
  exact hascend

theorem visitTracks (c : Cutter) (n : Node) : c.VisitTracks n := by
  induction n using Node.induction_children with
  | step n ih =>
    rintro ⟨p, es⟩ outside before after l depth h
    obtain ⟨hmode, hslides, hdropped, rfl, ⟨slot, hslots, hl⟩, hroot, hquiet⟩ := h
    simp only at hmode hslides hdropped hslots hroot
    have hrecord (r : Reply Progress) : (es ++ [Event.mk .enter p
        ⟨n, depth, some ⟨l.done, after⟩⟩ r]).flatMap Event.dropped = l.dropped := by
      rw [List.flatMap_append, hdropped]
      exact List.append_nil _
    rw [Walk.subtree_eq, level_eq, around]
    by_cases hs : l.mode.suppressesDescent = true
    · have henter : c.enter p ⟨n, depth, some ⟨l.done, after⟩⟩ =
          ⟨p, n, false, true⟩ := by
        rw [enter, hmode, if_pos hs]
      rw [hquiet hs] at hl
      cases hl
      simp only [Visitor.traced, visitor, henter, if_pos hs]
      refine ⟨hmode, hslides, hrecord _, rfl, ⟨none, hslots, ?_⟩, hroot, fun _ => ?_⟩
      · rw [Level.pass, hquiet hs]
        exact .neither
      · rw [Level.pass, hquiet hs]
        rfl
    · have hs' : l.mode.suppressesDescent = false := by simpa using hs
      rw [if_neg hs]
      by_cases hm : (l.mode.splits && c.isMarker n) = true
      · have hmarker : c.isMarker n = true := (Bool.and_eq_true_iff.mp hm).2
        have henter : c.enter p ⟨n, depth, some ⟨l.done, after⟩⟩ =
            ⟨(cutAt ⟨n, depth, some ⟨l.done, after⟩⟩ p).opened, n, false, false⟩ := by
          rw [enter, hmode, if_neg hs, if_pos (by simpa [Site.hasParent] using hm)]
        obtain ⟨plan, hcut, hagree⟩ := agrees_cutAt hslots hl hmarker depth
        rw [hcut] at henter
        have hbelow := tracks_below { p with slots := some plan :: outside } l.meetMarker ih hmode
          hslides (hrecord (c.enter p ⟨n, depth, some ⟨l.done, after⟩⟩)) hroot rfl rfl hagree hs'
          depth
        rw [if_pos hm]
        simp only [Visitor.traced, visitor, henter, Walk.left, Walk.leaving, Walk.below] at hbelow ⊢
        simp only [hbelow.1, Bool.false_eq_true, if_false]
        exact hbelow.2
      · rw [if_neg hm]
        have hm' : ¬ (l.mode.splits && Site.hasParent ⟨n, depth, some ⟨l.done, after⟩⟩ &&
            c.isMarker n) = true := by
          simpa [Site.hasParent] using hm
        cases hf : c.fires? l.mode n with
        | some r =>
          obtain ⟨d, mode⟩ := r
          have henter : c.enter p ⟨n, depth, some ⟨l.done, after⟩⟩ =
              ⟨follow d mode p, n, true, false⟩ := by
            rw [enter, hmode, if_neg hs, if_neg hm', hf]
          have hfollow := tracks_follow hslides
            (hrecord (c.enter p ⟨n, depth, some ⟨l.done, after⟩⟩)) hroot hslots hl hf
          simp only [Visitor.traced, visitor, henter] at hfollow ⊢
          simpa using hfollow
        | none =>
          have henter : c.enter p ⟨n, depth, some ⟨l.done, after⟩⟩ =
              ⟨p.opened, n, false, false⟩ := by
            rw [enter, hmode, if_neg hs, if_neg hm', hf]
          have hbelow := tracks_below p l ih hmode hslides
            (hrecord (c.enter p ⟨n, depth, some ⟨l.done, after⟩⟩)) hroot hslots rfl hl hs' depth
          simp only [Visitor.traced, visitor, henter, Walk.left, Walk.leaving,
            Walk.below] at hbelow ⊢
          simp only [hbelow.1, Bool.false_eq_true, if_false]
          exact hbelow.2

theorem tracks_siblings (c : Cutter) (nodes : List Node) {s : Progress × List (Event Progress)}
    {beyond : List Node} (depth : Nat) (h : Tracks c s outside before (nodes ++ beyond) l) :
    let r := Walk.siblings c.recorder c.recorder_nonGrowing depth beyond s before nodes
    Tracks c r.1 outside r.2 beyond (c.levelAll nodes beyond l) :=
  tracks_siblings_of (fun n _ => c.visitTracks n) depth h

/-- All children that were lost on the walk over a document. -/
def lost (c : Cutter) (tree : Node) : List Node :=
  (Walk.toEnd c.recorder c.recorder_nonGrowing ({}, []) tree).1.2.flatMap Event.dropped

/-- The state of the cutter at the end of a document. -/
def progressAfter (l : Level) : Progress :=
  { mode := l.modeAfter
    slides := l.slides + Piece.slideCount l.pieces
    rootExcluded := l.mode == .outer }

theorem leave_top (hq : Tracks c (q, es) [] l.done [] l) (hn : n.isContainer = true) :
    c.leave q ⟨n.withChildren l.done, 0, none⟩ =
      ⟨progressAfter l, n.withChildren (c.childrenOf l), false, false⟩ := by
  obtain ⟨mode, slots, slides, rootExcluded⟩ := q
  obtain ⟨hmode, hslides, -, -, ⟨slot', hslots, hagree⟩, hroot, hquiet⟩ := hq
  simp only at hmode hslides hslots hroot
  subst hmode hslides hslots hroot
  rw [progressAfter, Level.modeAfter]
  cases hassembly : l.assembly? with
  | none =>
    rw [hassembly] at hagree
    cases hagree
    rw [childrenOf_of_none c hassembly, l.pieces_of_none hassembly, Piece.slideCount_map_bare]
    simp only [leave, Progress.closed, List.head?_cons, endSkip]
    cases hm : l.mode <;> rfl
  | some a =>
    rw [hassembly] at hagree
    cases hagree with
    | @both plan _ hplan =>
      have hmode : l.mode.suppressesDescent = false := by
        cases hs : l.mode.suppressesDescent with
        | false => rfl
        | true => cases (hquiet hs).symm.trans hassembly
      rw [c.leave_of_some hmode hplan l.slides false hn, childrenOf, l.pieces_of_some hassembly]
      simp only [reportCut, hmode, Bool.false_eq_true, if_false]
      cases hm : l.mode <;> first | rfl | simp [hm, SkipMode.suppressesDescent] at hmode

theorem enter_top {tree : Node} (hroot : tree.isContainer = true) :
    c.enter {} (Site.top tree) = ⟨Progress.opened {}, tree, false, false⟩ := by
  have hfires : c.fires? .stopped tree = none := by
    cases tree <;> first | rfl | simp [Node.isContainer, Node.children?] at hroot
  simp [enter, Site.top, Site.hasParent, SkipMode.suppressesDescent, hfires]

theorem kept_top {tree : Node} (hroot : tree.isContainer = true) :
    (c.enter {} (Site.top tree)).removed = false := by
  rw [enter_top hroot]

theorem entered_top {tree : Node} (hroot : tree.isContainer = true) :
    (c.enter {} (Site.top tree)).skipped = false := by
  rw [enter_top hroot]

theorem recorder_toEnd (c : Cutter) {tree : Node} (hroot : tree.isContainer = true) :
    let r := Walk.toEnd c.recorder c.recorder_nonGrowing ({}, []) tree
    r.1.1 = progressAfter (c.levelOf tree) ∧
      r.2 = tree.withChildren (c.childrenOf (c.levelOf tree)) ∧
      r.1.2.flatMap Event.dropped = (c.levelOf tree).dropped ++ (c.levelOf tree).losses := by
  have henter := enter_top (c := c) hroot
  have hentered : c.recorder.enter ({}, []) (Site.top tree) = ⟨(Progress.opened {},
      [⟨.enter, {}, Site.top tree, ⟨Progress.opened {}, tree, false, false⟩⟩]), tree, false,
        false⟩ := by
    simp only [Visitor.traced, visitor, henter, List.nil_append]
  have hinside : Tracks c (Progress.opened {},
      [⟨.enter, {}, Site.top tree, ⟨Progress.opened {}, tree, false, false⟩⟩]) [] []
      (tree.children?.getD [] ++ []) {} :=
    tracks_inside (p := {}) (l := {}) _ _ rfl rfl rfl rfl
  have hq := c.tracks_siblings (tree.children?.getD []) 1 hinside
  have hbelow : Walk.below c.recorder c.recorder_nonGrowing ({}, []) (Site.top tree) =
      Walk.siblings c.recorder c.recorder_nonGrowing 1 [] (Progress.opened {},
        [⟨.enter, {}, Site.top tree, ⟨Progress.opened {}, tree, false, false⟩⟩]) []
        (tree.children?.getD []) := by
    rw [Walk.below, hentered]
    rfl
  generalize hw : Walk.below c.recorder c.recorder_nonGrowing ({}, []) (Site.top tree) = w at hbelow
  rw [← hbelow] at hq
  obtain ⟨⟨q, es⟩, done⟩ := w
  have hdone : (c.levelOf tree).done = done := hq.done
  subst hdone
  have hleave := leave_top hq hroot
  obtain ⟨slot, hslots, hagree⟩ := hq.slots
  have hleaf (hn : tree.children? = none) : (c.levelOf tree).assembly? = none := by
    rw [Node.isContainer, hn] at hroot
    cases hroot
  have hevent := dropped_leave hagree hslots hleaf 0 none
  have hleaving : Walk.leaving c.recorder c.recorder_nonGrowing ({}, []) (Site.top tree) =
      ⟨tree.withChildren (c.levelOf tree).done, 0, none⟩ := by
    rw [Walk.leaving, hw, hentered]
    rfl
  have hleft : Walk.left c.recorder c.recorder_nonGrowing ({}, []) (Site.top tree) =
      c.recorder.leave (q, es) ⟨tree.withChildren (c.levelOf tree).done, 0, none⟩ := by
    rw [Walk.left, hw, hleaving]
  intro r
  have hr : r = Walk.toEnd c.recorder c.recorder_nonGrowing ({}, []) tree := rfl
  rw [Walk.toEnd_eq, Walk.subtree_eq, hleft, hentered] at hr
  simp only [Visitor.traced, visitor, hleave, Bool.false_eq_true, if_false, Option.getD_some] at hr
  rw [hr]
  refine ⟨rfl, rfl, ?_⟩
  rw [List.flatMap_append, List.flatMap_singleton, hevent, hq.dropped]
  rfl

theorem walk_eq (c : Cutter) {tree : Node} (hroot : tree.isContainer = true) :
    c.walk tree = (progressAfter (c.levelOf tree),
      tree.withChildren (c.childrenOf (c.levelOf tree))) := by
  have h := c.recorder_toEnd hroot
  rw [walk, ← Walk.toEnd_traced]
  exact Prod.ext h.1 h.2.1

theorem lost_eq (c : Cutter) {tree : Node} (hroot : tree.isContainer = true) :
    c.lost tree = (c.levelOf tree).dropped ++ (c.levelOf tree).losses :=
  (c.recorder_toEnd hroot).2.2

end Cutter
end SlideDeck
