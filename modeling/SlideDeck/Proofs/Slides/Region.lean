import SlideDeck.Proofs.Slides.LookAhead
import SlideDeck.Proofs.Slides.Relabelling

/-!
Regions between `start` and `stop`. The walk passes all of a region. So it passes a node whose first
child is the comment `inner`, and nodes that are not named as markers are, and documents in which
one stands for the other are cut alike.
-/
namespace SlideDeck
namespace Cutter

variable {c : Cutter} {n start stop : Node} {nodes after : List Node} {l : Level}
  {mode next : SkipMode} {d : Directive}

theorem fires?_of_directive? (h : c.directive? n = some d) (ht : mode.transition d = some next) :
    c.fires? mode n = some (d, next) := by
  rw [fires?, h, Option.bind_some, ht, Option.map_some]

/-- The nodes between the two comments are passed, and these are gone. -/
theorem levelAll_region (hstart : c.directive? start = some .start)
    (hstop : c.directive? stop = some .stop) (hnodes : ∀ n ∈ nodes, c.Undirected n)
    (hmode : l.mode = .stopped) :
    c.levelAll (start :: nodes ++ stop :: after) [] l = c.levelAll after [] (l.passAll nodes) := by
  have hfirst : c.fires? l.mode start = some (.start, .start) := by
    rw [hmode]
    exact fires?_of_directive? hstart rfl
  have hlast : c.fires? ({ l.passAll nodes with mode := .start } : Level).mode stop =
      some (.stop, .stopped) := fires?_of_directive? hstop rfl
  rw [List.cons_append, levelAll_cons, level_of_fires? hfirst, levelAll_append,
    show l.follow .start .start = { l with mode := .start } from rfl,
    levelAll_of_inert fun n hn => (hnodes n hn).inert_start, Level.passAll_with_mode, levelAll_cons,
    level_of_fires? hlast]
  congr 1
  show ({ l.passAll nodes with mode := .stopped } : Level) = l.passAll nodes
  rw [← hmode, ← Level.passAll_mode nodes l]

theorem markerNext_of_directive? (h : (c.directive? n).isSome = true) (rest : List Node) :
    c.markerNext (n :: rest) = false := by
  obtain ⟨d, hd⟩ := Option.isSome_iff_exists.mp h
  obtain ⟨mode, next, ht⟩ : ∃ mode next, SkipMode.transition mode d = some next := by
    cases d
    exacts [⟨.stopped, .start, rfl⟩, ⟨.start, .stopped, rfl⟩, ⟨.stopped, .outer, rfl⟩,
      ⟨.stopped, .inner, rfl⟩]
  obtain ⟨hblank, hmarker⟩ := of_fires? (fires?_of_directive? hd ht)
  rw [markerNext_cons, hblank, hmarker]
  rfl

/-- A node with `inner` in front of its children is passed, and the comment is gone. -/
theorem level_inner {inner : Node} (hn : n.isContainer = true) (hmarker : c.isMarker n = false)
    (hinner : c.directive? inner = some .inner) (hmode : l.mode = .stopped) :
    c.level (n.withChildren (inner :: n.children?.getD [])) after l = l.pass n := by
  have hfires : c.fires? (c.levelAll [] (inner :: n.children?.getD []) l.inside).mode inner =
      some (.inner, .inner) := by
    rw [levelAll_nil, show l.inside.mode = .stopped from hmode]
    exact fires?_of_directive? hinner rfl
  have hbelow := levelAll_of_fires? hfires rfl
  rw [List.nil_append, levelAll_nil] at hbelow
  have hafter (done : List Node) : l.after { l.inside with
      mode := .inner, assembly? := none, done := done } = l := by
    simp [Level.after, Level.inside, Level.modeAfter, SkipMode.suppressesDescent, Level.pieces,
      Level.losses, ← hmode]
  rw [level_container hn hmode, hmarker, if_neg Bool.false_ne_true, hbelow, ascend,
    childrenOf_of_none c rfl, hafter, if_neg (by simp), if_neg (by simp)]
  show l.pass (n.withChildren (n.children?.getD [])) = _
  rw [Node.withChildren_getD]

/-- A region around a node that is no marker and `inner` in that node come to the same. -/
theorem cut_region_eq_inner (c : Cutter) {tree node start stop inner : Node} {ctx : Context}
    {front back : List Node} (hroot : tree.isContainer = true) (hnode : node.isContainer = true)
    (hmarker : c.isMarker node = false) (hstart : c.directive? start = some .start)
    (hstop : c.directive? stop = some .stop) (hinner : c.directive? inner = some .inner)
    (hfree : c.Undirected (tree.withChildren (ctx.fill (front ++ node :: back)))) :
    c.cut (tree.withChildren (ctx.fill (front ++ start :: node :: stop :: back))) =
      c.cut (tree.withChildren (ctx.fill
        (front ++ node.withChildren (inner :: node.children?.getD []) :: back))) := by
  have hfreeAt : ∀ n ∈ front ++ node :: back, c.Undirected n :=
    fun n hn => hfree.of_mem (ctx.mem_preorder hroot hn)
  have hfreeFront : ∀ n ∈ front, c.Undirected n :=
    fun n hn => hfreeAt n (List.mem_append_left _ hn)
  have hfreeNode : ∀ n ∈ [node], c.Undirected n :=
    List.forall_mem_singleton.mpr (hfreeAt node (by simp))
  refine c.relabels_id.cut_fill hroot hfree rfl fun l hmode hnone _ => ?_
  have hnext : c.markerNext (start :: node :: stop :: back) =
      c.markerNext (node.withChildren (inner :: node.children?.getD []) :: back) := by
    rw [markerNext_of_directive? (by rw [hstart, Option.isSome_some]), markerNext_container hnode,
      hmarker]
  rw [Level.map_id, levelAll_append, levelAll_append, List.append_nil, List.append_nil,
    levelAll_congr hnext]
  generalize hl : c.levelAll front
    (node.withChildren (inner :: node.children?.getD []) :: back) l = l'
  have hmode' : l'.mode = .stopped := by rw [← hl, mode_levelAll hfreeFront, hmode]
  have hregion : c.levelAll (start :: node :: stop :: back) [] l' =
      c.levelAll back [] (l'.pass node) := levelAll_region hstart hstop hfreeNode hmode'
  rw [hregion, levelAll_cons, List.append_nil, level_inner hnode hmarker hinner hmode']

/-- A node with a marker in it, below the top and between a child that is cut and a marker. -/
theorem cut_region_eq_inner_nested :
    let c := Cutter.ofKeyword "hr" "Slide" ⟨[]⟩ "skip"
    let hr : Node := .element "hr" ⟨[]⟩ []
    let box : Node := .component (some "Box") ⟨[]⟩ [.text "a", hr, .text "b"]
    let ctx : Context := .within [.text "c"] (.element "main" ⟨[]⟩ []) rfl .gap [hr, box]
    let document (children : List Node) := (Node.root []).withChildren (ctx.fill children)
    c.isMarker box = false ∧ c.Undirected (document ([box, .text " "] ++ box :: [hr, .text "d"])) ∧
      c.cut (document ([box, .text " "] ++
          .note "skip start" :: box :: .note "skip stop" :: [hr, .text "d"])) =
        c.cut (document ([box, .text " "] ++
          box.withChildren (.note "skip inner" :: box.children?.getD []) :: [hr, .text "d"])) := by
  intro c hr box ctx document
  have hfree : c.Undirected (document ([box, .text " "] ++ box :: [hr, .text "d"])) := by
    unfold Undirected
    decide
  exact ⟨rfl, hfree, c.cut_region_eq_inner rfl rfl rfl (by decide) (by decide) (by decide) hfree⟩

theorem relabels_renamed (c : Cutter) {old : String} (h : old ≠ c.wrapper) (new : String) :
    Relabels c c (Node.renamed old new) where
  toKeepsShape := Node.keepsShape_renamed old new
  marker := rfl
  skip := rfl
  wrap nodes := by
    rw [wrap, wrap, Node.renamed, Node.rename_of_ne h.symm, Node.renamedAll_eq_map]

/-- Without the names of markers, nothing cuts. -/
theorem Undirected.inert_renamed {new : String} (h : c.Undirected n) (hnew : new ≠ c.marker)
    (hmarker : c.marker ≠ "") (mode : SkipMode) :
    c.Inert mode (n.renamed c.marker new) := by
  intro m hm
  rw [(Node.keepsShape_renamed c.marker new).preorder] at hm
  obtain ⟨k, hk, rfl⟩ := List.mem_map.mp hm
  have hname := Node.name?_renamed hnew hmarker k
  have hfires : c.fires? mode (k.renamed c.marker new) = c.fires? mode k := by
    simp only [Cutter.fires?, directive?, Node.comments_renamed]
  refine ⟨?_, hfires.trans ((h.of_mem hk).fires? mode)⟩
  rw [isMarker, Node.hasName, beq_eq_false_iff_ne.mpr hname, Bool.and_false]

/-- A region comes to the same as its nodes do when those named as markers are have another name,
that is taken back afterwards. -/
theorem cut_region_eq_renamed (c : Cutter) {tree start stop : Node} {ctx : Context}
    {front region back : List Node} {name : String} (hroot : tree.isContainer = true)
    (hmarker : c.marker ≠ "") (hstart : c.directive? start = some .start)
    (hstop : c.directive? stop = some .stop)
    (hfree : c.Undirected (tree.withChildren (ctx.fill (front ++ region ++ back))))
    (hfresh : ∀ n ∈ (tree.withChildren (ctx.fill (front ++ region ++ back))).preorder,
      n.name? ≠ some name)
    (hname : name ≠ c.marker) (hwrapper : name ≠ c.wrapper) :
    let renamed := c.cut (tree.withChildren
      (ctx.fill (front ++ region.map (Node.renamed c.marker name) ++ back)))
    c.cut (tree.withChildren (ctx.fill (front ++ start :: region ++ stop :: back))) =
      (renamed.1, renamed.2.renamed name c.marker) := by
  intro renamed
  have hfreeAt : ∀ n ∈ front ++ region ++ back, c.Undirected n :=
    fun n hn => hfree.of_mem (ctx.mem_preorder hroot hn)
  have hfreshAt : ∀ n ∈ front ++ region ++ back, ∀ m ∈ n.preorder, m.name? ≠ some name :=
    fun n hn m hm => hfresh m (Node.mem_preorder_trans (ctx.mem_preorder hroot hn) hm)
  have hrelabels := c.relabels_renamed hwrapper c.marker
  refine hrelabels.cut_fill hroot hfree (Node.renamed_eq hfresh) fun l hmode hnone hl => ?_
  simp only [List.forall_mem_append] at hfreeAt hfreshAt
  obtain ⟨⟨hfreeFront, hfreeRegion⟩, -⟩ := hfreeAt
  obtain ⟨⟨hfreshFront, hfreshRegion⟩, hfreshBack⟩ := hfreshAt
  have hinert : ∀ n ∈ region.map (Node.renamed c.marker name), c.Inert .stopped n := by
    intro n hn
    obtain ⟨m, hm, rfl⟩ := List.mem_map.mp hn
    exact (hfreeRegion m hm).inert_renamed hname hmarker .stopped
  have hback : (region.map (Node.renamed c.marker name)).map (Node.renamed name c.marker) =
      region := by
    rw [List.map_map]
    exact (List.map_congr_left fun n hn => Node.renamed_renamed (hfreshRegion n hn)).trans
      (List.map_id _)
  have hnext : c.markerNext (start :: region ++ stop :: back) = false :=
    markerNext_of_directive? (by rw [hstart, Option.isSome_some]) _
  generalize hl' : c.levelAll front (start :: region ++ stop :: back) l = l'
  have hmode' : l'.mode = .stopped := by rw [← hl', mode_levelAll hfreeFront, hmode]
  have hsame : l'.map (Node.renamed name c.marker) = l' := by
    rw [← hl', ← hrelabels.levelAll fun n hn => Node.renamed_eq (hfreshFront n hn), hl]
  calc c.levelAll (front ++ start :: region ++ stop :: back) [] l
      = c.levelAll back [] (l'.passAll region) := by
        rw [List.append_assoc, levelAll_append, List.append_nil, hl',
          levelAll_region hstart hstop hfreeRegion hmode']
    _ = c.levelAll back [] ((l'.passAll (region.map (Node.renamed c.marker name))).map
          (Node.renamed name c.marker)) := by
        rw [Level.map_passAll hrelabels.toKeepsShape, hsame, hback]
    _ = (c.levelAll back [] (l'.passAll (region.map (Node.renamed c.marker name)))).map
          (Node.renamed name c.marker) :=
        hrelabels.levelAll (fun n hn => Node.renamed_eq (hfreshBack n hn)) [] _
    _ = (c.levelAll (front ++ region.map (Node.renamed c.marker name) ++ back) [] l).map
          (Node.renamed name c.marker) := by
        rw [List.append_assoc, levelAll_inert_between hfreeFront hinert hnext hmode hnone, hl']

/-- A blank, a marker and a node with a marker in it, between a child that is cut and a marker. -/
theorem cut_region_eq_renamed_nested :
    let c := Cutter.ofKeyword "hr" "Slide" ⟨[]⟩ "skip"
    let hr : Node := .element "hr" ⟨[]⟩ []
    let box : Node := .component (some "Box") ⟨[]⟩ [.text "a", hr, .text "b"]
    let ctx : Context := .within [.text "c"] (.element "main" ⟨[]⟩ []) rfl .gap [hr, box]
    let document (children : List Node) := (Node.root []).withChildren (ctx.fill children)
    let region : List Node := [.text " ", hr, box]
    let renamed := c.cut (document ([box] ++ region.map (Node.renamed "hr" "rule") ++ [hr]))
    c.Undirected (document ([box] ++ region ++ [hr])) ∧
      (∀ n ∈ (document ([box] ++ region ++ [hr])).preorder, n.name? ≠ some "rule") ∧
      c.cut (document ([box] ++ .note "skip start" :: region ++ .note "skip stop" :: [hr])) =
        (renamed.1, renamed.2.renamed "rule" "hr") := by
  intro c hr box ctx document region renamed
  have hfree : c.Undirected (document ([box] ++ region ++ [hr])) := by
    unfold Undirected
    decide
  have hfresh : ∀ n ∈ (document ([box] ++ region ++ [hr])).preorder, n.name? ≠ some "rule" := by
    decide
  exact ⟨hfree, hfresh, c.cut_region_eq_renamed rfl (by decide) (by decide) (by decide) hfree hfresh
    (by decide) (by decide)⟩

end Cutter
end SlideDeck
