import SlideDeck.Proofs.Slides.Tally

/-!
The number of slides. Every slide that is built stands in the document at the end or was lost again
with a marker that was dropped, so the number that is reported is right just when no slide was lost.
-/
namespace SlideDeck
namespace Cutter

/-- The number of slides among and below nodes. -/
def slidesIn (c : Cutter) (nodes : List Node) : Nat :=
  (Node.preorderAll nodes).countP (Node.isElementNamed c.wrapper)

variable {c : Cutter} {n : Node} {after : List Node} {l : Level}

theorem slidesIn_eq_tally (c : Cutter) (nodes : List Node) :
    c.slidesIn nodes = Node.tally (Node.isElementNamed c.wrapper) nodes := rfl

@[simp] theorem slidesIn_nil (c : Cutter) : c.slidesIn [] = 0 := rfl

@[simp] theorem slidesIn_append (c : Cutter) (xs ys : List Node) :
    c.slidesIn (xs ++ ys) = c.slidesIn xs + c.slidesIn ys :=
  Node.tally_append _ xs ys

theorem slidesIn_cons (c : Cutter) (n : Node) (nodes : List Node) :
    c.slidesIn (n :: nodes) = c.slidesIn [n] + c.slidesIn nodes :=
  c.slidesIn_append [n] nodes

theorem slidesIn_singleton (c : Cutter) (n : Node) :
    c.slidesIn [n] = c.slidesIn (n.children?.getD []) + (n.isElementNamed c.wrapper).toNat :=
  Node.tally_singleton _ n

theorem length_elementsNamed (c : Cutter) (n : Node) :
    (n.elementsNamed c.wrapper).length = c.slidesIn [n] := by
  rw [Node.elementsNamed_eq, ← List.countP_eq_length_filter, Node.countP_preorder]
  rfl

theorem slidesIn_of_lacks {nodes : List Node} (h : ∀ n ∈ nodes, n.Lacks c.wrapper) :
    c.slidesIn nodes = 0 := by
  rw [slidesIn, List.countP_eq_zero]
  intro m hm
  obtain ⟨n, hn, hmn⟩ := Node.mem_preorderAll.mp hm
  simp [h n hn m hmn]

theorem countable_slides (c : Cutter) : Countable c (Node.isElementNamed c.wrapper) where
  withChildren := Node.isElementNamed_withChildren c.wrapper
  undirected n h := by
    obtain ⟨d, hd⟩ := Option.isSome_iff_exists.mp h
    obtain ⟨v, cs, rfl⟩ := eq_expression_of_directive? hd
    rfl

theorem slideWeight_slides (c : Cutter) : c.slideWeight (Node.isElementNamed c.wrapper) = 1 := by
  simp [slideWeight, wrap, Node.isElementNamed]

theorem slidesIn_left (hn : n.Lacks c.wrapper) :
    c.slidesIn [n.withChildren (c.childrenOf (c.levelBelow n l))] =
      c.slidesIn (c.childrenOf (c.levelBelow n l)) := by
  have hleft := tally_left c.countable_slides n l
  rwa [hn n n.mem_preorder_self, Bool.toNat_false, Nat.add_zero] at hleft

/-- All slides that were built in children stand in them or were dropped. -/
theorem slides_levelAll {nodes : List Node} (h : ∀ n ∈ nodes, n.Lacks c.wrapper)
    (beyond : List Node) : (c.levelAll nodes beyond {}).slides =
      c.slidesIn (c.levelAll nodes beyond {}).done +
        c.slidesIn (c.levelAll nodes beyond {}).dropped := by
  have htallies : Tallies c _ {} nodes (c.levelAll nodes beyond {}) :=
    tallies_levelAll c.countable_slides (coherent_of_none rfl _)
  have htotal := htallies.total
  have hnone := slidesIn_of_lacks h
  rw [slideWeight_slides] at htotal
  simp only [slidesIn_eq_tally, Node.tally_nil] at htotal hnone ⊢
  omega

theorem slidesIn_eq_zero_iff {nodes : List Node} :
    c.slidesIn nodes = 0 ↔ ∀ m ∈ nodes, m.elementsNamed c.wrapper = [] := by
  induction nodes with
  | nil => simp
  | cons n rest ih =>
    rw [slidesIn_cons, Nat.add_eq_zero_iff, ih, ← length_elementsNamed, List.length_eq_zero_iff,
      List.forall_mem_cons]

/-- Every slide that is built stands in the document at the end or in a child that was lost. -/
theorem slides_eq_add (c : Cutter) {tree : Node} (hroot : tree.isContainer = true)
    (hfresh : tree.elementsNamed c.wrapper = []) :
    (c.cut tree).1.slides =
      ((c.cut tree).2.elementsNamed c.wrapper).length + c.slidesIn (c.lost tree) := by
  have htally := tally_cut c.countable_slides hroot
  have hnone : c.slidesIn [tree] = 0 := by
    rw [← length_elementsNamed, hfresh, List.length_nil]
  rw [slideWeight_slides] at htally
  rw [length_elementsNamed]
  simp only [slidesIn_eq_tally] at hnone ⊢
  omega

/-- When nothing is skipped at the end, some slide was built. -/
theorem slides_pos (c : Cutter) {tree : Node} (hroot : tree.isContainer = true)
    (hmode : (c.cut tree).1.skipMode = .stopped) (hexcluded : (c.cut tree).1.rootExcluded = false) :
    0 < (c.cut tree).1.slides := by
  have hchildren : ∃ children, (c.walk tree).2.children? = some children := by
    rw [walk_eq c hroot]
    exact ⟨_, Node.children?_withChildren_of_isContainer hroot _⟩
  obtain ⟨children, hchildren⟩ := hchildren
  rw [cut] at hmode hexcluded ⊢
  simp only [hchildren] at hmode hexcluded ⊢
  cases hfallback : needsFallback (c.walk tree).1 with
  | true => simp
  | false =>
    rw [hfallback] at hmode hexcluded
    simp only at hmode hexcluded ⊢
    simp [needsFallback, hmode, hexcluded] at hfallback
    omega

/-- No slide was lost, and none stands at a level that is not cut unless the enclosing node is
kept out of slides. -/
structure Lossless (c : Cutter) (l : Level) : Prop where
  mode : l.mode ≠ .inner
  uncut : l.assembly? = none → l.mode ≠ .outer → c.slidesIn l.done = 0
  earlier : c.slidesIn l.dropped = 0
  dropped : c.slidesIn l.assembly.dropped = 0

theorem lossless_inside (h : Lossless c l) : Lossless c l.inside :=
  ⟨h.mode, fun _ _ => rfl, h.earlier, rfl⟩

theorem Lossless.losses (h : Lossless c l) : c.slidesIn l.losses = 0 := by
  rw [l.losses_eq]
  exact h.dropped

theorem modeAfter_ne_inner (l : Level) : l.modeAfter ≠ .inner := by
  intro h
  have := l.modeAfter_awake
  rw [h] at this
  cases this

theorem Lossless.follow {d : Directive} {mode : SkipMode} (h : Lossless c l)
    (hn : c.directive? n ≠ some .inner) (hf : c.fires? l.mode n = some (d, mode)) :
    Lossless c (l.follow d mode) := by
  obtain ⟨hd, ht⟩ := transition_of_fires? hf
  have huncut := h.uncut
  have hswitch (hsame : d.discardsParent = false) (hne : mode ≠ .inner)
      (hmode : l.mode ≠ .outer) : Lossless c (l.follow d mode) := by
    rw [Level.follow, hsame]
    exact ⟨hne, fun hnone _ => huncut hnone hmode, h.earlier, h.dropped⟩
  cases hm : l.mode with
  | stopped =>
    rw [hm] at ht
    cases d with
    | start =>
      cases ht
      exact hswitch rfl (by decide) (by rw [hm]; decide)
    | stop => cases ht
    | outer =>
      cases ht
      exact ⟨fun hm => (by cases hm), fun _ ho => absurd rfl ho, h.earlier, rfl⟩
    | inner => exact absurd hd hn
  | start =>
    rw [hm] at ht
    cases d with
    | stop =>
      cases ht
      exact hswitch rfl (by decide) (by rw [hm]; decide)
    | _ => cases ht
  | _ =>
    rw [hm] at ht
    cases ht

theorem Lossless.level (h : Lossless c l) (hn : n.Lacks c.wrapper) (hl : Coherent c l (n :: after))
    (hinner : c.directive? n ≠ some .inner) (hbelow : Lossless c (c.levelBelow n l)) :
    Lossless c (c.level n after l) := by
  have hsteps := c.steps_level n after l
  generalize c.level n after l = r at hsteps ⊢
  cases hsteps with
  | skip suppressed =>
    have hnone := hl.quiet suppressed
    have houter : l.mode = .outer := by
      cases hm : l.mode with
      | outer => rfl
      | inner => exact absurd hm h.mode
      | _ => rw [hm] at suppressed; cases suppressed
    have hpass : (l.pass n).assembly? = none := by
      rw [Level.pass, hnone]
      rfl
    refine ⟨h.mode, fun _ ho => absurd houter ho, h.earlier, ?_⟩
    rw [Level.assembly, hpass]
    rfl
  | follow fires => exact h.follow hinner fires
  | @below l₀ awake opens =>
    have hdropped₀ : c.slidesIn l₀.assembly.dropped = 0 := by
      cases opens with
      | plain unmet => exact h.dropped
      | marker splits met => exact h.dropped
    have hascends := c.ascends_ascend n after l₀ (c.levelBelow n l)
    have hmode := c.ascend_mode n after l₀ (c.levelBelow n l)
    have hearlier := c.ascend_dropped n after l₀ (c.levelBelow n l)
    generalize c.ascend n after l₀ (c.levelBelow n l) = r at hascends hmode hearlier ⊢
    have hne : r.mode ≠ .inner := by
      rw [hmode]
      exact modeAfter_ne_inner _
    have hlost : c.slidesIn r.dropped = 0 := by
      rw [hearlier, slidesIn_append, hbelow.earlier, hbelow.losses]
    cases hascends with
    | cut assembly => exact ⟨hne, fun hnone => (by cases hnone), hlost, hdropped₀⟩
    | outer assembly mode =>
      refine ⟨hne, fun hnone => (by cases hnone), hlost, ?_⟩
      show c.slidesIn (l₀.assembly.addOuter _).dropped = 0
      unfold Assembly.addOuter
      split
      · exact hdropped₀
      · exact hdropped₀
    | pass assembly mode =>
      have hnode : c.slidesIn [n.withChildren (c.levelBelow n l).done] = 0 := by
        have hleft := slidesIn_left (l := l) hn
        rw [c.childrenOf_of_none assembly] at hleft
        rw [hleft]
        exact hbelow.uncut assembly mode
      refine ⟨hne, fun hnone _ => ?_, hlost, ?_⟩
      · have hnone₀ : l₀.assembly? = none := Option.map_eq_none_iff.mp hnone
        have hawake : l.mode ≠ .outer := by
          intro hm
          rw [hm] at awake
          cases awake
        cases opens with
        | plain unmet =>
          simp only [Level.pass, Level.after, slidesIn_append]
          rw [hnode, h.uncut hnone₀ hawake]
        | marker splits met => cases hnone₀
      · rw [Level.assembly_pass]
        rcases Assembly.contents_add (hl.opens awake opens).loose
          (n.withChildren (c.levelBelow n l).done) with ⟨-, hd⟩ | ⟨-, -, -, hd⟩
        · exact (congrArg c.slidesIn hd).trans hdropped₀
        · refine (congrArg c.slidesIn hd).trans ?_
          rw [slidesIn_append, hdropped₀, hnode]

theorem lossless_level {tree : Node} (h : Lossless c l) (hl : Coherent c l (tree :: after))
    (hlacks : tree.Lacks c.wrapper)
    (hinner : ∀ n ∈ tree.preorder, c.directive? n ≠ some .inner) :
    Lossless c (c.level tree after l) := by
  refine level_run (R := fun l xs _ r => (∀ x ∈ xs, x.Lacks c.wrapper ∧
    ∀ n ∈ x.preorder, c.directive? n ≠ some .inner) → Lossless c l → Lossless c r)
    (fun l _ _ h => h) ?_ ?_ tree hl ?_ h
  · intro l₁ l₂ l₃ xs ys todo hxs hys hall h
    exact hys (fun x hx => hall x (List.mem_append_right _ hx))
      (hxs (fun x hx => hall x (List.mem_append_left _ hx)) h)
  · intro n after l hl hbelow hall h
    obtain ⟨hn, hdirective⟩ := hall n List.mem_cons_self
    exact h.level hn hl (hdirective n n.mem_preorder_self) (hbelow (fun k hk =>
      ⟨hn.child hk, fun m hm => hdirective m (Node.mem_preorder_of_child hk hm)⟩)
        (lossless_inside h))
  · intro x hx
    rw [List.mem_singleton.mp hx]
    exact ⟨hlacks, hinner⟩

theorem slidesIn_lost {tree : Node} (hroot : tree.isContainer = true)
    (hlacks : tree.Lacks c.wrapper) (hinner : ∀ n ∈ tree.preorder, c.directive? n ≠ some .inner) :
    c.slidesIn (c.lost tree) = 0 := by
  have hstart : Lossless c {} := ⟨by decide, fun _ _ => rfl, rfl, rfl⟩
  have hlevel : Lossless c (c.levelOf tree) :=
    levelAll_run (R := fun l _ _ r => Lossless c l → Lossless c r) (fun _ _ h => h)
      (fun hxs hys h => hys (hxs h))
      (fun n hn after l hl h => lossless_level h hl (hlacks.child hn) fun m hm =>
        hinner m (Node.mem_preorder_of_child hn hm))
      (coherent_of_none rfl (tree.children?.getD [] ++ [])) hstart
  rw [c.lost_eq hroot, slidesIn_append, hlevel.earlier, hlevel.losses]

/-- The number of slides that is reported is the number of slides in the new document just when no
slide was lost with a marker that was dropped, and so whenever `inner` does not occur. When it is
and nothing is skipped at the end, there is a slide in the document. -/
theorem slides_eq_iff (c : Cutter) {tree : Node} (hroot : tree.isContainer = true)
    (hfresh : tree.elementsNamed c.wrapper = []) :
    let slides := (c.cut tree).1.slides
    let standing := (c.cut tree).2.elementsNamed c.wrapper
    (slides = standing.length ↔ ∀ m ∈ c.lost tree, m.elementsNamed c.wrapper = []) ∧
      ((∀ n ∈ tree.preorder, c.directive? n ≠ some .inner) → slides = standing.length) ∧
      (slides = standing.length → (c.cut tree).1.skipMode = .stopped →
        (c.cut tree).1.rootExcluded = false → standing ≠ []) := by
  intro slides standing
  have hadd : slides = standing.length + c.slidesIn (c.lost tree) := c.slides_eq_add hroot hfresh
  refine ⟨?_, fun hinner => ?_, fun heq hmode hexcluded hnil => ?_⟩
  · rw [← slidesIn_eq_zero_iff]
    omega
  · have hnone := slidesIn_lost hroot (Node.lacks_iff.mpr hfresh) hinner
    omega
  · have hzero : (c.cut tree).1.slides = 0 := by
      rw [show (c.cut tree).1.slides = standing.length from heq, hnil]
      rfl
    have hpos := c.slides_pos hroot hmode hexcluded
    omega

theorem slides_eq_iff_nested :
    let c := Cutter.ofKeyword "hr" "Slide" ⟨[]⟩ "skip"
    let hr (cs : List Node) : Node := .element "hr" ⟨[]⟩ cs
    let tree : Node := .root [.text "a", hr [.text "b", hr [], .text "c"], .note "skip outer"]
    tree.isContainer = true ∧ tree.elementsNamed c.wrapper = [] ∧
      (c.cut tree).1.slides = ((c.cut tree).2.elementsNamed c.wrapper).length := by
  intro c hr tree
  have hfresh : tree.elementsNamed c.wrapper = [] := by
    rw [Node.elementsNamed_eq]
    rfl
  have hinner : ∀ n ∈ tree.preorder, c.directive? n ≠ some .inner := by decide +kernel
  exact ⟨rfl, hfresh, (c.slides_eq_iff rfl hfresh).2.1 hinner⟩

/-- A marker in which slides were built before `inner` fires is dropped with them. -/
theorem slides_lost_with_marker :
    let c := Cutter.ofKeyword "hr" "Slide" ⟨[]⟩ "skip"
    let hr (cs : List Node) : Node := .element "hr" ⟨[]⟩ cs
    let box (cs : List Node) : Node := .component (some "Box") ⟨[]⟩ cs
    let tree : Node := .root [.text "a",
      hr [box [.text "b", hr [], .text "c"], .note "skip inner"], .text "d"]
    tree.isContainer = true ∧ tree.elementsNamed c.wrapper = [] ∧ (c.cut tree).1.slides = 4 ∧
      ((c.cut tree).2.elementsNamed c.wrapper).length = 2 := by
  intro c hr box tree
  refine ⟨rfl, ?_, ?_, ?_⟩
  · rw [Node.elementsNamed_eq]
    rfl
  · decide +kernel
  · rw [Node.elementsNamed_eq]
    decide +kernel

end Cutter
end SlideDeck
