import SlideDeck.Proofs.Slides.Agreement

/-!
Tallies. Cutting a document puts slides in and takes out the comments at which directives fire. All
its other nodes are there at the end, or were lost with a marker that was dropped.
-/
namespace SlideDeck

namespace Node

/-- The number of nodes among and below nodes that have a property. -/
def tally (p : Node → Bool) (nodes : List Node) : Nat := (preorderAll nodes).countP p

variable {p : Node → Bool}

@[simp] theorem tally_nil (p : Node → Bool) : tally p [] = 0 := rfl

@[simp] theorem tally_append (p : Node → Bool) (xs ys : List Node) :
    tally p (xs ++ ys) = tally p xs + tally p ys := by
  rw [tally, preorderAll_append, List.countP_append]
  rfl

theorem tally_cons (p : Node → Bool) (n : Node) (nodes : List Node) :
    tally p (n :: nodes) = tally p [n] + tally p nodes :=
  tally_append p [n] nodes

theorem tally_singleton (p : Node → Bool) (n : Node) :
    tally p [n] = tally p (n.children?.getD []) + (p n).toNat := by
  rw [tally, preorderAll, preorderAll, List.append_nil, preorder_eq, List.countP_cons]
  cases p n <;> rfl

theorem countP_preorder (p : Node → Bool) (n : Node) : n.preorder.countP p = tally p [n] := by
  rw [tally, preorderAll, preorderAll, List.append_nil]

theorem tally_filter_add_filter (p q : Node → Bool) (nodes : List Node) :
    tally p (nodes.filter q) + tally p (nodes.filter (!q ·)) = tally p nodes := by
  induction nodes with
  | nil => rfl
  | cons n rest ih =>
    rw [tally_cons p n rest, ← ih]
    cases hn : q n with
    | true =>
      rw [List.filter_cons_of_pos hn, List.filter_cons_of_neg (by simp [hn]), tally_cons]
      omega
    | false =>
      rw [List.filter_cons_of_neg (by simp [hn]), List.filter_cons_of_pos (by simp [hn]),
        tally_cons p n (rest.filter _)]
      omega

end Node

open Node (tally tally_nil tally_append tally_cons tally_singleton tally_filter_add_filter)

namespace Cutter

/-- A property of nodes that does not depend on their children, and that no node has in which a
directive is read. -/
structure Countable (c : Cutter) (p : Node → Bool) : Prop where
  withChildren : ∀ n cs, p (n.withChildren cs) = p n
  undirected : ∀ n, (c.directive? n).isSome = true → p n = false

variable {c : Cutter} {p : Node → Bool} {n : Node} {after : List Node} {l : Level}

/-- How much a slide counts besides what is in it. -/
def slideWeight (c : Cutter) (p : Node → Bool) : Nat := (p (c.wrap [])).toNat

namespace Countable

theorem wrap (h : Countable c p) (nodes : List Node) :
    tally p [c.wrap nodes] = tally p nodes + c.slideWeight p := by
  have hp : p (c.wrap nodes) = p (c.wrap []) := h.withChildren (c.wrap []) nodes
  rw [tally_singleton, hp]
  rfl

theorem build (h : Countable c p) (pieces : List Piece) :
    tally p (pieces.map (Piece.build c.wrap)) =
      c.slideWeight p * Piece.slideCount pieces + tally p (Piece.contents pieces) := by
  induction pieces with
  | nil => rfl
  | cons q qs ih =>
    rw [List.map_cons, tally_cons, ih, Piece.contents_cons, tally_append, Piece.slideCount_cons,
      Nat.mul_add]
    cases q with
    | slide nodes =>
      simp only [Piece.build, h.wrap, Piece.nodes, Piece.isSlide, Bool.toNat_true]
      omega
    | bare node =>
      simp only [Piece.build, Piece.nodes, Piece.isSlide, Bool.toNat_false]
      omega

/-- What is counted in the new children and in what was lost is what was counted before and the
slides that are put down. -/
theorem childrenOf (h : Countable c p)
    (hsplit : tally p l.assembly.contents + tally p l.assembly.dropped = tally p l.done) :
    tally p (c.childrenOf l) + tally p l.losses =
      c.slideWeight p * Piece.slideCount l.pieces + tally p l.done := by
  rw [Cutter.childrenOf, h.build, contents_pieces, l.losses_eq]
  omega

end Countable

/-- The level `r` is the level `l` behind the nodes. What it holds and what it dropped are what was
seen; and what was counted before, with what is counted in the nodes and for the slides built since,
stands among its children or was dropped. -/
structure Tallies (c : Cutter) (p : Node → Bool) (l : Level) (nodes : List Node) (r : Level) :
    Prop where
  split : tally p l.assembly.contents + tally p l.assembly.dropped = tally p l.done →
    tally p r.assembly.contents + tally p r.assembly.dropped = tally p r.done
  total : tally p l.done + tally p l.dropped + tally p nodes + c.slideWeight p * r.slides =
    tally p r.done + tally p r.dropped + c.slideWeight p * l.slides

theorem tallies_refl (c : Cutter) (p : Node → Bool) (l : Level) : Tallies c p l [] l :=
  ⟨fun h => h, rfl⟩

theorem Tallies.trans {l₁ l₂ l₃ : Level} {xs ys : List Node} (h : Tallies c p l₁ xs l₂)
    (h' : Tallies c p l₂ ys l₃) : Tallies c p l₁ (xs ++ ys) l₃ := by
  refine ⟨fun hs => h'.split (h.split hs), ?_⟩
  have h₁ := h.total
  have h₂ := h'.total
  rw [tally_append]
  omega

theorem split_level (hl : Coherent c l (n :: after))
    (h : tally p l.assembly.contents + tally p l.assembly.dropped = tally p l.done) :
    tally p (c.level n after l).assembly.contents + tally p (c.level n after l).assembly.dropped =
      tally p (c.level n after l).done := by
  have hpassage := passage_level hl
  generalize c.level n after l = r at hpassage ⊢
  cases hpassage with
  | keep visited done contents dropped planned =>
    rw [done, contents, dropped, tally_append, tally_append]
    omega
  | lose visited marker done contents dropped planned =>
    rw [done, contents, dropped, tally_append, tally_append]
    omega
  | remove directive done assembly =>
    rcases assembly with hsame | ⟨hnone, -⟩
    · rw [Level.assembly_congr hsame done, done]
      exact h
    · rw [Level.assembly, hnone, Option.getD_none, Assembly.contents_ofLoose]
      rfl

theorem tally_left (h : Countable c p) (n : Node) (l : Level) :
    tally p [n.withChildren (c.childrenOf (c.levelBelow n l))] =
      tally p (c.childrenOf (c.levelBelow n l)) + (p n).toNat := by
  rw [tally_singleton, h.withChildren, Node.children?_withChildren]
  cases hchildren : n.children? with
  | none =>
    have hempty : c.childrenOf (c.levelBelow n l) = [] := by
      rw [levelBelow, hchildren, Option.getD_none, levelAll_nil, childrenOf_of_none c rfl]
      rfl
    rw [hempty]
    rfl
  | some cs => rfl

theorem tallies_step (h : Countable c p) (hl : Coherent c l (n :: after))
    (hbelow : Tallies c p l.inside (n.children?.getD []) (c.levelBelow n l)) :
    Tallies c p l [n] (c.level n after l) := by
  refine ⟨split_level hl, ?_⟩
  have hsteps := c.steps_level n after l
  generalize c.level n after l = r at hsteps ⊢
  cases hsteps with
  | skip suppressed =>
    simp only [Level.pass, tally_append]
    omega
  | follow fires =>
    have hdirective := (transition_of_fires? fires).1
    obtain ⟨v, cs, rfl⟩ := eq_expression_of_directive? hdirective
    rw [tally_singleton, h.undirected _ (Option.isSome_of_eq_some hdirective)]
    rfl
  | @below l₀ awake opens =>
    have hdone : l₀.done = l.done := by
      cases opens with
      | plain unmet => rfl
      | marker splits met => rfl
    have hchildren := h.childrenOf (hbelow.split rfl)
    have htotal := hbelow.total
    simp only [Level.inside, tally_nil] at htotal
    rw [ascend_slides, ascend_done, ascend_dropped, hdone, tally_append, tally_append,
      tally_left h, tally_singleton, Nat.mul_add]
    omega

theorem tallies_level (h : Countable c p) (hl : Coherent c l (n :: after)) :
    Tallies c p l [n] (c.level n after l) :=
  level_run (R := fun l nodes _ r => Tallies c p l nodes r) (fun l _ => c.tallies_refl p l)
    Tallies.trans (fun _ _ _ hl hbelow => tallies_step h hl hbelow) n hl

theorem tallies_levelAll (h : Countable c p) {nodes todo : List Node}
    (hl : Coherent c l (nodes ++ todo)) : Tallies c p l nodes (c.levelAll nodes todo l) :=
  levelAll_run (R := fun l nodes _ r => Tallies c p l nodes r) (fun l _ => c.tallies_refl p l)
    Tallies.trans (fun _ _ _ _ hl => tallies_level h hl) hl

/-- Everything that is counted in a document is counted in its new children or in what was lost
again, and so is every slide that was built. -/
theorem tally_childrenOf (h : Countable c p) {tree : Node} (hroot : tree.isContainer = true) :
    tally p (c.childrenOf (c.levelOf tree)) + tally p (c.lost tree) =
      tally p (tree.children?.getD []) +
        c.slideWeight p * (progressAfter (c.levelOf tree)).slides := by
  have htallies : Tallies c p {} (tree.children?.getD []) (c.levelOf tree) :=
    tallies_levelAll h (coherent_of_none rfl _)
  have hchildren := h.childrenOf (htallies.split rfl)
  have htotal := htallies.total
  simp only [tally_nil] at htotal
  rw [c.lost_eq hroot, tally_append, progressAfter]
  simp only [Nat.mul_add]
  omega

theorem tally_wrapWhole (h : Countable c p) (nodes : List Node) :
    tally p (c.wrapWhole nodes) = tally p nodes + c.slideWeight p := by
  rw [wrapWhole, tally_append, h.wrap, ← Nat.add_assoc, tally_filter_add_filter]

/-- Everything that is counted in a document, and every slide that was built, is in the new document
or in what was lost. -/
theorem tally_cut (h : Countable c p) {tree : Node} (hroot : tree.isContainer = true) :
    tally p [(c.cut tree).2] + tally p (c.lost tree) =
      tally p [tree] + c.slideWeight p * (c.cut tree).1.slides := by
  have htop (children : List Node) :
      tally p [tree.withChildren children] = tally p children + (p tree).toNat := by
    rw [tally_singleton, h.withChildren, Node.children?_withChildren_of_isContainer hroot]
    rfl
  have hchildren := tally_childrenOf h hroot
  rw [cut, walk_eq c hroot]
  simp only [Node.children?_withChildren_of_isContainer hroot]
  cases needsFallback (progressAfter (c.levelOf tree)) with
  | false =>
    simp only [htop, tally_singleton p tree]
    omega
  | true =>
    simp only [Node.withChildren_withChildren, htop, tally_wrapWhole h, tally_singleton p tree,
      Nat.mul_add]
    omega

end Cutter
end SlideDeck
