import SlideDeck.Proofs.Walk.Subtree

/-!
Two walks over the same tree in step. Visitors that answer alike wherever they see the same node go
over the tree together, whatever each of them puts in the place of the nodes that it leaves.
-/
namespace SlideDeck

/-- The sites are at the same place. What was left in the places of the siblings before them may
differ, and those behind them are the same. -/
structure Site.Abreast (a b : Site) : Prop where
  depth : a.depth = b.depth
  index? : a.index? = b.index?
  after : a.place?.map Place.after = b.place?.map Place.after

theorem Site.Abreast.hasParent {a b : Site} (h : a.Abreast b) : a.hasParent = b.hasParent := by
  have hindex := congrArg Option.isSome h.index?
  rwa [Site.index?, Site.index?, Option.isSome_map, Option.isSome_map] at hindex

/-- In related states the visitors answer alike: to `enter` at the same node with the same node, and
to `leave` at the same place whatever the nodes there have become. -/
structure Visitor.InStep {σ τ : Type} (v : Visitor σ) (w : Visitor τ) (R : σ → τ → Prop) :
    Prop where
  state_enter : ∀ {s t a b}, R s t → a.Abreast b → a.node = b.node →
    R (v.enter s a).state (w.enter t b).state
  node : ∀ {s t a b}, R s t → a.Abreast b → a.node = b.node →
    (v.enter s a).node = (w.enter t b).node
  removed_enter : ∀ {s t a b}, R s t → a.Abreast b → a.node = b.node →
    (v.enter s a).removed = (w.enter t b).removed
  skipped : ∀ {s t a b}, R s t → a.Abreast b → a.node = b.node →
    (v.enter s a).skipped = (w.enter t b).skipped
  state_leave : ∀ {s t a b}, R s t → a.Abreast b → R (v.leave s a).state (w.leave t b).state
  removed_leave : ∀ {s t a b}, R s t → a.Abreast b →
    (v.leave s a).removed = (w.leave t b).removed

namespace Walk

variable {σ τ : Type} {v : Visitor σ} {w : Visitor τ} {R : σ → τ → Prop}

/-- From related states, the visits of the node end in related states, and both leave a node in its
place or neither does. -/
def VisitsInStep (hv : v.NonGrowing) (hw : w.NonGrowing) (R : σ → τ → Prop) (node : Node) : Prop :=
  ∀ {s t a b}, R s t → a.Abreast b → a.node = node → b.node = node →
    R (subtree v hv s a).1 (subtree w hw t b).1 ∧
      (subtree v hv s a).2.isSome = (subtree w hw t b).2.isSome

theorem siblings_inStep_of (hv : v.NonGrowing) (hw : w.NonGrowing) {nodes : List Node}
    (h : ∀ n ∈ nodes, VisitsInStep hv hw R n) (depth : Nat) (beyond : List Node) {s : σ} {t : τ}
    (hst : R s t) {before before' : List Node} (hbefore : before.length = before'.length) :
    R (siblings v hv depth beyond s before nodes).1
      (siblings w hw depth beyond t before' nodes).1 := by
  induction nodes generalizing s t before before' with
  | nil => exact hst
  | cons n rest ih =>
    have habreast : (Site.mk n depth (some ⟨before, rest ++ beyond⟩)).Abreast
        ⟨n, depth, some ⟨before', rest ++ beyond⟩⟩ := ⟨rfl, congrArg some hbefore, rfl⟩
    obtain ⟨hstate, hkept⟩ := h n List.mem_cons_self hst habreast rfl rfl
    refine ih (fun m hm => h m (List.mem_cons_of_mem n hm)) hstate ?_
    rw [List.length_append, List.length_append, hbefore, Option.length_toList,
      Option.length_toList, hkept]

/-- By induction on the size of the node and not on the node: the children that are visited are
those that `enter` leaves. -/
theorem visitsInStep (h : v.InStep w R) (hv : v.NonGrowing) (hw : w.NonGrowing) (node : Node) :
    VisitsInStep hv hw R node := by
  induction hsize : node.size using Nat.strongRecOn generalizing node with
  | ind size ih =>
    intro s t a b hst hab ha hb
    have hnode : a.node = b.node := ha.trans hb.symm
    have hentered := h.state_enter hst hab hnode
    have hreplaced := h.node hst hab hnode
    have hbelow : R (below v hv s a).1 (below w hw t b).1 := by
      rw [below, below, ← hreplaced, ← hab.depth]
      refine siblings_inStep_of hv hw (fun n hn => ih n.size ?_ n rfl) _ _ hentered rfl
      rw [← hsize, ← ha]
      exact Nat.lt_of_lt_of_le (Node.size_lt_of_mem hn) (hv s a)
    have hleaving : (leaving v hv s a).Abreast (leaving w hw t b) := ⟨hab.1, hab.2, hab.3⟩
    rw [subtree_eq, subtree_eq, ← h.removed_enter hst hab hnode, ← h.skipped hst hab hnode]
    by_cases hr : (v.enter s a).removed = true
    · rw [if_pos hr, if_pos hr]
      exact ⟨hentered, rfl⟩
    · rw [if_neg hr, if_neg hr]
      by_cases hs : (v.enter s a).skipped = true
      · rw [if_pos hs, if_pos hs]
        exact ⟨hentered, rfl⟩
      · have hremoved : (left v hv s a).removed = (left w hw t b).removed :=
          h.removed_leave hbelow hleaving
        rw [if_neg hs, if_neg hs, ← hremoved]
        refine ⟨h.state_leave hbelow hleaving, ?_⟩
        cases (left v hv s a).removed <;> rfl

/-- Walks in step end in related states. -/
theorem toEnd_inStep (h : v.InStep w R) (hv : v.NonGrowing) (hw : w.NonGrowing) {s : σ} {t : τ}
    (hst : R s t) (tree : Node) : R (toEnd v hv s tree).1 (toEnd w hw t tree).1 := by
  rw [toEnd_eq, toEnd_eq]
  exact (visitsInStep h hv hw tree hst ⟨rfl, rfl, rfl⟩ rfl rfl).1

end Walk
end SlideDeck
