import SlideDeck.Proofs.Slides.Layout
import SlideDeck.Proofs.Slides.Whole

/-!
How far `inner` and `outer` reach. From the comment on, the enclosing node has no plan and the walk
skips its children one by one; then the node is left, and with that nothing is skipped any more.
-/
namespace SlideDeck
namespace Cutter

/-- What a walk leaves of siblings: some comments with directives are gone, and each other sibling
is there, with the children that it was left with. -/
inductive Leaves (c : Cutter) : List Node → List Node → Prop
  | nil : Leaves c [] []
  | gone {n : Node} {ns ms : List Node} (unmarked : c.isMarker n = false)
      (directive : (c.directive? n).isSome = true) (rest : Leaves c ns ms) : Leaves c (n :: ns) ms
  | stays {n : Node} {ns ms : List Node} (cs : List Node) (rest : Leaves c ns ms) :
      Leaves c (n :: ns) (n.withChildren cs :: ms)

/-- The calls for siblings that are all skipped, in the state `q`. -/
def skips (q : Progress) (depth : Nat) : List Node → List Node → List (Event Progress)
  | _, [] => []
  | before, n :: after =>
    ⟨.enter, q, ⟨n, depth, some ⟨before, after⟩⟩, ⟨q, n, false, true⟩⟩ ::
      skips q depth (before ++ [n]) after

variable {c : Cutter} {n : Node} {xs ys : List Node} {s q : Progress} {site : Site} {d : Directive}

theorem exists_left_node (c : Cutter) (s : Progress) (site : Site) :
    ∃ cs, (Walk.left c.visitor c.visitor_nonGrowing s site).node = site.node.withChildren cs := by
  have hleave (q : Progress) (site : Site) :
      (c.leave q site).node = site.node ∨
        ∃ cs, (c.leave q site).node = site.node.withChildren cs := by
    rcases hclosed : q.closed with ⟨plan?, p⟩
    cases plan? with
    | none => exact .inl (by simp only [leave, hclosed])
    | some plan =>
      have hfinish : (c.leave q site).node = (c.finish plan site p).1 := by
        simp only [leave, hclosed]
      rw [hfinish, finish]
      cases site.node.children? with
      | none => exact .inl rfl
      | some children => exact .inr ⟨_, rfl⟩
  rw [Walk.left, leaving_eq]
  rcases hleave (Walk.below c.visitor c.visitor_nonGrowing s site).1 { site with
    node := site.node.withChildren (Walk.below c.visitor c.visitor_nonGrowing s site).2 } with
    hnode | ⟨cs, hnode⟩
  · exact ⟨_, hnode⟩
  · exact ⟨cs, hnode.trans (Node.withChildren_withChildren _ _ _)⟩

theorem leaves_siblings (c : Cutter) (s : Progress) (depth : Nat)
    (beyond before nodes : List Node) :
    ∃ left, (Walk.siblings c.visitor c.visitor_nonGrowing depth beyond s before nodes).2 =
      before ++ left ∧ c.Leaves nodes left := by
  induction nodes generalizing s before with
  | nil => exact ⟨[], (List.append_nil _).symm, .nil⟩
  | cons n rest ih =>
    have hvisits := c.visits_subtree s ⟨n, depth, some ⟨before, rest ++ beyond⟩⟩
    rw [Walk.siblings]
    generalize Walk.subtree c.visitor c.visitor_nonGrowing s
      ⟨n, depth, some ⟨before, rest ++ beyond⟩⟩ = r at hvisits ⊢
    obtain ⟨left, hleft, hleaves⟩ := ih r.1 (before ++ r.2.toList)
    rw [hleft, List.append_assoc]
    refine ⟨_, rfl, ?_⟩
    cases hvisits with
    | removed removed =>
      obtain ⟨d, mode, hfires, -⟩ := enter_of_removed removed
      refine .gone (of_fires? hfires).2 ?_ hleaves
      rw [(transition_of_fires? hfires).1, Option.isSome_some]
    | skipped kept skipped =>
      have hstays := Leaves.stays (n := n) (n.children?.getD []) hleaves
      rwa [Node.withChildren_getD] at hstays
    | left kept entered =>
      obtain ⟨cs, hnode⟩ := c.exists_left_node s ⟨n, depth, some ⟨before, rest ++ beyond⟩⟩
      rw [hnode]
      exact .stays cs hleaves

theorem recorder_siblings_of_suppressed (hs : q.mode.suppressesDescent = true)
    (es : List (Event Progress)) (depth : Nat) (before nodes : List Node) :
    Walk.siblings c.recorder c.recorder_nonGrowing depth [] (q, es) before nodes =
      ((q, es ++ skips q depth before nodes), before ++ nodes) := by
  induction nodes generalizing es before with
  | nil => rw [Walk.siblings, skips, List.append_nil, List.append_nil]
  | cons n rest ih =>
    have hvisit : Walk.subtree c.recorder c.recorder_nonGrowing (q, es)
        ⟨n, depth, some ⟨before, rest⟩⟩ = ((q, es ++ [⟨.enter, q, ⟨n, depth, some ⟨before, rest⟩⟩,
          ⟨q, n, false, true⟩⟩]), some n) := by
      simp only [Walk.subtree_eq, Visitor.traced, visitor, enter_of_suppressed hs,
        Bool.false_eq_true, if_false, if_true]
    rw [Walk.siblings, List.append_nil, hvisit, skips]
    simp only [Option.toList_some, ih, List.append_assoc, List.singleton_append]

/-- A node that is left without a plan stays as it is, and its mode ends with it. -/
theorem leave_of_suppressed (hs : q.mode.suppressesDescent = true) (hplan : q.closed.1 = none)
    (site : Site) :
    (c.leave q site).node = site.node ∧ (c.leave q site).state.mode = .stopped := by
  have hend (p : Progress) (hp : p.mode.suppressesDescent = true) :
      (c.endSkip site p).mode = .stopped := by
    unfold endSkip
    cases hm : p.mode with
    | stopped => rw [hm] at hp; cases hp
    | start => rw [hm] at hp; cases hp
    | inner => rfl
    | outer =>
      cases site.place? with
      | none => rfl
      | some place =>
        simp only [Progress.plan]
        split <;> rfl
  rcases hclosed : q.closed with ⟨plan?, p⟩
  rw [hclosed] at hplan
  have hp : p.mode = q.mode := (congrArg (fun r => r.2.mode) hclosed).symm
  simp only at hplan
  subst hplan
  simp only [leave, hclosed, true_and]
  exact hend p (by rw [hp, hs])

/-- No node has a plan when it is left where no child is visited any more. -/
theorem closed_of_suppressed (hroot : s.rootExcluded = false)
    (kept : (c.enter s site).removed = false) (entered : (c.enter s site).skipped = false)
    (hs : (Walk.below c.visitor c.visitor_nonGrowing s site).1.mode.suppressesDescent = true) :
    (Walk.below c.visitor c.visitor_nonGrowing s site).1.closed.1 = none := by
  cases hplan : (Walk.below c.visitor c.visitor_nonGrowing s site).1.closed.1 with
  | none => rfl
  | some plan =>
    have hquiet := quiet_below hroot kept entered hplan
    exact absurd (hquiet.symm.trans hs) Bool.false_ne_true

theorem Fires.enter_eq (h : c.Fires s site d xs n ys) :
    ∃ mode, c.fires? (Walk.arrival c.visitor c.visitor_nonGrowing s site xs (n :: ys)).1.mode n =
        some (d, mode) ∧
      c.enter (Walk.arrival c.visitor c.visitor_nonGrowing s site xs (n :: ys)).1
        (Walk.childSite c.visitor c.visitor_nonGrowing s site xs n ys) =
      ⟨follow d mode (Walk.arrival c.visitor c.visitor_nonGrowing s site xs (n :: ys)).1, n, true,
        false⟩ := by
  obtain ⟨mode, hfires⟩ := h.fires
  refine ⟨mode, hfires, ?_⟩
  have hawake : (Walk.arrival c.visitor c.visitor_nonGrowing s site xs
      (n :: ys)).1.mode.suppressesDescent = false :=
    awake_of_fires? (l := .ofProgress _) hfires
  rw [enter, hawake, if_neg Bool.false_ne_true]
  have hmarker : c.isMarker (Walk.childSite c.visitor c.visitor_nonGrowing s site xs n ys).node =
      false := (of_fires? hfires).2
  rw [hmarker, Bool.and_false, if_neg Bool.false_ne_true]
  simp only [Walk.childSite, hfires]

/-- In the state behind the comment no child is visited any more, and the node has no plan. -/
theorem Fires.suppresses (h : c.Fires s site d xs n ys) (hd : d.discardsParent = true) :
    ∃ q, c.enter (Walk.arrival c.visitor c.visitor_nonGrowing s site xs (n :: ys)).1
        (Walk.childSite c.visitor c.visitor_nonGrowing s site xs n ys) = ⟨q, n, true, false⟩ ∧
      q.mode.suppressesDescent = true ∧ q.closed.1 = none := by
  obtain ⟨mode, hfires, henter⟩ := h.enter_eq
  have hmode := (mode_of_fires? (l := .ofProgress _) hfires hd).1
  refine ⟨_, henter, ?_⟩
  rw [follow, hd, if_pos rfl, Progress.discard]
  cases hslots : (Walk.arrival c.visitor c.visitor_nonGrowing s site xs (n :: ys)).1.slots with
  | nil => exact ⟨hmode, by simp [Progress.closed]⟩
  | cons slot outside => exact ⟨hmode, rfl⟩

theorem arrival_recorder (c : Cutter) (s : Progress) (site : Site) (es : List (Event Progress))
    (nodes todo : List Node) :
    let r := Walk.arrival c.recorder c.recorder_nonGrowing (s, es) site nodes todo
    (r.1.1, r.2) = Walk.arrival c.visitor c.visitor_nonGrowing s site nodes todo :=
  Walk.siblings_traced c.visitor_nonGrowing _ _ _ _ _ _

/-- The calls from the comment to the end of the enclosing node: the comment is taken out, the
children behind it are skipped, and the node is left. -/
theorem Fires.record (h : c.Fires s site d xs n ys) (es : List (Event Progress))
    (hcomment : c.enter (Walk.arrival c.visitor c.visitor_nonGrowing s site xs (n :: ys)).1
      (Walk.childSite c.visitor c.visitor_nonGrowing s site xs n ys) = ⟨q, n, true, false⟩)
    (hs : q.mode.suppressesDescent = true) :
    let a := Walk.arrival c.visitor c.visitor_nonGrowing s site xs (n :: ys)
    let comment := Walk.childSite c.visitor c.visitor_nonGrowing s site xs n ys
    let leaving : Site := { site with node := site.node.withChildren (a.2 ++ ys) }
    (Walk.subtree c.recorder c.recorder_nonGrowing (s, es) site).1.2 =
      (Walk.arrival c.recorder c.recorder_nonGrowing (s, es) site xs (n :: ys)).1.2 ++
        ⟨.enter, a.1, comment, ⟨q, n, true, false⟩⟩ :: skips q (site.depth + 1) a.2 ys ++
        [⟨.leave, q, leaving, c.leave q leaving⟩] := by
  intro a comment leaving
  have hcomment : c.enter a.1 comment = ⟨q, n, true, false⟩ := hcomment
  have hentered : c.recorder.enter (s, es) site = ⟨((c.enter s site).state,
      es ++ [⟨.enter, s, site, c.enter s site⟩]), site.node, false, false⟩ := by
    simp only [Visitor.traced, visitor, c.enter_node, h.kept, h.entered]
  have harrival := c.arrival_recorder s site es xs (n :: ys)
  generalize hA : Walk.arrival c.recorder c.recorder_nonGrowing (s, es) site xs (n :: ys) = A
    at harrival ⊢
  obtain ⟨⟨p, record⟩, before⟩ := A
  obtain ⟨rfl, rfl⟩ : p = a.1 ∧ before = a.2 := Prod.mk.inj harrival
  have hsite : Walk.childSite c.recorder c.recorder_nonGrowing (s, es) site xs n ys = comment := by
    rw [Walk.childSite, hA]
    rfl
  have hvisit : Walk.subtree c.recorder c.recorder_nonGrowing (a.1, record) comment =
      ((q, record ++ [⟨.enter, a.1, comment, ⟨q, n, true, false⟩⟩]), none) := by
    simp only [Walk.subtree_eq, Visitor.traced, visitor, hcomment, if_true]
  have hbelow : Walk.below c.recorder c.recorder_nonGrowing (s, es) site =
      ((q, record ++ ⟨.enter, a.1, comment, ⟨q, n, true, false⟩⟩ ::
        skips q (site.depth + 1) a.2 ys), a.2 ++ ys) := by
    have hchildren : (c.recorder.enter (s, es) site).node.children? = some (xs ++ n :: ys) := by
      rw [hentered, h.children]
    rw [Walk.below_eq c.recorder_nonGrowing hchildren, hA, hsite, hvisit]
    simp only [Option.toList_none, List.append_nil, recorder_siblings_of_suppressed hs,
      List.append_assoc, List.singleton_append]
  have hleaving : Walk.leaving c.recorder c.recorder_nonGrowing (s, es) site = leaving := by
    rw [Walk.leaving, hbelow, hentered]
  rw [Walk.subtree_eq, Walk.left, hleaving, hbelow, hentered]
  simp only [Visitor.traced, visitor, Bool.false_eq_true, if_false, List.append_assoc,
    List.cons_append]

/-- A directive that takes back what was planned and fires at the child `n` of a node, behind the
children `xs` and before `ys`, reaches to the end of the node and no further. -/
structure Confined (c : Cutter) (s : Progress) (site : Site) (xs : List Node) (n : Node)
    (ys : List Node) : Prop where
  /-- What stands before the comment are the children there, in no slide and with all markers. -/
  earlier : c.Leaves xs (Walk.arrival c.visitor c.visitor_nonGrowing s site xs (n :: ys)).2
  /-- The node is left with these and with the children behind the comment, which are as they
  were. -/
  left : (Walk.left c.visitor c.visitor_nonGrowing s site).node = site.node.withChildren
    ((Walk.arrival c.visitor c.visitor_nonGrowing s site xs (n :: ys)).2 ++ ys)
  /-- From the comment on the node has no plan, the children are skipped, and the next node that is
  left is the node itself. -/
  calls : let a := Walk.arrival c.visitor c.visitor_nonGrowing s site xs (n :: ys)
    let comment := Walk.childSite c.visitor c.visitor_nonGrowing s site xs n ys
    let leaving : Site := { site with node := site.node.withChildren (a.2 ++ ys) }
    ∃ q, c.enter a.1 comment = ⟨q, n, true, false⟩ ∧ q.mode.suppressesDescent = true ∧
      q.closed.1 = none ∧ ∀ es,
        (Walk.subtree c.recorder c.recorder_nonGrowing (s, es) site).1.2 =
          (Walk.arrival c.recorder c.recorder_nonGrowing (s, es) site xs (n :: ys)).1.2 ++
            ⟨.enter, a.1, comment, ⟨q, n, true, false⟩⟩ :: skips q (site.depth + 1) a.2 ys ++
            [⟨.leave, q, leaving, c.leave q leaving⟩]
  stopped : (Walk.left c.visitor c.visitor_nonGrowing s site).state.mode = .stopped

theorem Fires.confined (h : c.Fires s site d xs n ys) (hd : d.discardsParent = true)
    (hroot : s.rootExcluded = false) : c.Confined s site xs n ys := by
  obtain ⟨q, henter, hs, hplan⟩ := h.suppresses hd
  have hbelow : Walk.below c.visitor c.visitor_nonGrowing s site =
      (q, (Walk.arrival c.visitor c.visitor_nonGrowing s site xs (n :: ys)).2 ++ ys) := by
    have hvisit : Walk.subtree c.visitor c.visitor_nonGrowing
        (Walk.arrival c.visitor c.visitor_nonGrowing s site xs (n :: ys)).1
        (Walk.childSite c.visitor c.visitor_nonGrowing s site xs n ys) = (q, none) := by
      rw [Walk.subtree_eq, show c.visitor.enter _ _ = _ from henter]
      rfl
    rw [Walk.below_eq c.visitor_nonGrowing ((c.children?_enter s site).trans h.children), hvisit,
      Option.toList_none, List.append_nil, siblings_of_suppressed hs]
  obtain ⟨left, hleft, hleaves⟩ :=
    c.leaves_siblings (c.enter s site).state (site.depth + 1) (n :: ys) [] xs
  refine ⟨?_, h.left_node hd hroot, ⟨q, henter, hs, hplan, fun es => h.record es henter hs⟩, ?_⟩
  · rw [show (Walk.arrival c.visitor c.visitor_nonGrowing s site xs (n :: ys)).2 = left from hleft]
    exact hleaves
  · rw [Walk.left, leaving_eq, hbelow]
    exact (leave_of_suppressed hs hplan _).2

/-- The mode in which no child is visited any more comes from a comment among the children of the
node that is left next. -/
theorem exists_fires_of_suppressed (hroot : s.rootExcluded = false)
    (kept : (c.enter s site).removed = false) (entered : (c.enter s site).skipped = false)
    (hs : (Walk.below c.visitor c.visitor_nonGrowing s site).1.mode.suppressesDescent = true) :
    ∃ d xs n ys, c.Fires s site d xs n ys ∧ d.discardsParent = true := by
  obtain ⟨_, _, hend⟩ := tracks_leaving hroot kept entered
  have hawake : (Level.ofProgress s).inside.mode.suppressesDescent = false := by
    cases hm : s.mode.suppressesDescent with
    | false => exact hm
    | true =>
      rw [enter_of_suppressed hm] at entered
      cases entered
  rw [hend.mode, levelBelow] at hs
  obtain ⟨xs, n, ys, d, hchildren, hfires⟩ :=
    exists_fires?_of_suppressed (coherent_of_none rfl _) hawake hs
  rw [List.append_nil] at hfires
  have hsite : site.node.children? = some (xs ++ n :: ys) := by
    cases hnode : site.node.children? with
    | none => simp [hnode] at hchildren
    | some children => rw [← hchildren, hnode, Option.getD_some]
  obtain ⟨_, _, harrival⟩ := tracks_child hroot kept entered xs (n :: ys)
  refine ⟨d, xs, n, ys, ⟨kept, entered, hsite, _, harrival.mode ▸ hfires⟩, ?_⟩
  rw [← suppressesDescent_of_fires? hfires]
  exact hs

theorem skipMode_cut (c : Cutter) (tree : Node) :
    (c.cut tree).1.skipMode = (c.walk tree).1.mode := by
  simp only [cut]
  split <;> rfl

/-- Where `inner` or `outer` fires, it reaches to the end of the enclosing node and no further. No
other node is left while such a directive is in force, none has a plan that is carried out then, and
none is in force at the end of a document. -/
theorem skip_confined (c : Cutter) {tree : Node} (hroot : tree.isContainer = true) :
    (∀ s site d xs n ys, Walk.Comes c.visitor c.visitor_nonGrowing {} tree s site →
      c.Fires s site d xs n ys → d.discardsParent = true → c.Confined s site xs n ys) ∧
    (∀ s site, Walk.Comes c.visitor c.visitor_nonGrowing {} tree s site →
      (c.enter s site).removed = false → (c.enter s site).skipped = false →
      let p := (Walk.below c.visitor c.visitor_nonGrowing s site).1
      p.mode.suppressesDescent = true → p.closed.1 = none ∧
        ∃ d xs n ys, c.Fires s site d xs n ys ∧ d.discardsParent = true) ∧
    ((c.cut tree).1.skipMode = .stopped ∨ (c.cut tree).1.skipMode = .start) := by
  refine ⟨?_, ?_, ?_⟩
  · intro s site d xs n ys comes fires discards
    exact fires.confined discards (rootExcluded_of_comes comes)
  · intro s site comes kept entered p hs
    have hexcluded := rootExcluded_of_comes comes
    exact ⟨closed_of_suppressed hexcluded kept entered hs,
      exists_fires_of_suppressed hexcluded kept entered hs⟩
  · have hawake := (c.levelOf tree).modeAfter_awake
    rw [skipMode_cut, walk_eq c hroot]
    show (c.levelOf tree).modeAfter = _ ∨ (c.levelOf tree).modeAfter = _
    cases hm : (c.levelOf tree).modeAfter with
    | stopped => exact .inl rfl
    | start => exact .inr rfl
    | outer => rw [hm] at hawake; cases hawake
    | inner => rw [hm] at hawake; cases hawake

/-- A comment for `inner` behind a child that is cut and a marker, and before further markers and
comments. -/
theorem skip_confined_nested :
    let c := Cutter.ofKeyword "hr" "Slide" ⟨[]⟩ "skip"
    let hr : Node := .element "hr" ⟨[]⟩ []
    let box : Node := .component (some "Box") ⟨[]⟩ [.text "a", hr, .text "b"]
    let note := Node.note "skip inner"
    let later : List Node := [hr, box, .note "skip stop", .note "skip outer"]
    let tree : Node := .root [.element "main" ⟨[]⟩ ([box, hr] ++ note :: later), hr]
    tree.isContainer = true ∧ (c.cut tree).1.skipMode = .stopped ∧
      let s := (Walk.arrival c.visitor c.visitor_nonGrowing {} (Site.top tree) []
        [.element "main" ⟨[]⟩ ([box, hr] ++ note :: later), hr]).1
      let site := Walk.childSite c.visitor c.visitor_nonGrowing {} (Site.top tree) []
        (.element "main" ⟨[]⟩ ([box, hr] ++ note :: later)) [hr]
      c.Fires s site .inner [box, hr] note later ∧ c.Confined s site [box, hr] note later := by
  intro c hr box note later tree
  refine ⟨rfl, by decide +kernel, ?_⟩
  intro s site
  have hroot : tree.isContainer = true := rfl
  have hcomes : Walk.Comes c.visitor c.visitor_nonGrowing {} tree s site :=
    .child .top rfl rfl rfl
  have hfires : c.Fires s site .inner [box, hr] note later :=
    ⟨by decide +kernel, by decide +kernel, rfl, .inner, by decide +kernel⟩
  exact ⟨hfires, (c.skip_confined hroot).1 _ _ _ _ _ _ hcomes hfires rfl⟩

end Cutter
end SlideDeck
