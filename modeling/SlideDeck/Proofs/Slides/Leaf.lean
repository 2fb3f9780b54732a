import SlideDeck.Plugin
import SlideDeck.Proofs.Slides.Whole

/-!
Documents that can hold no children. The walk sees such a document once, as a node without a parent.
Nothing in it is cut and nothing put around it, but a directive that fires in it takes it out of its
own place.
-/
namespace SlideDeck

/-- What a walk counts that builds no slide and ends in normal mode. -/
def Stats.idle : Stats := ⟨0, false, .stopped, false⟩

namespace Cutter

/-- What becomes of a document that can hold no children. -/
def onLeaf (c : Cutter) (tree : Node) : Stats × Node :=
  match c.fires? .stopped tree with
  | none => (Stats.idle, tree)
  | some (_, mode) => ({ Stats.idle with skipMode := mode }, .root [])

variable {c : Cutter} {tree : Node}

theorem transition_stopped_eq_none_iff {d : Directive} :
    SkipMode.stopped.transition d = none ↔ d = .stop := by
  cases d <;> simp [SkipMode.transition]

theorem fires?_stopped_eq_none_iff :
    c.fires? .stopped tree = none ↔ ∀ d, c.directive? tree = some d → d = .stop := by
  cases hd : c.directive? tree with
  | none => simp [fires?, hd]
  | some d => simp [fires?, hd, transition_stopped_eq_none_iff]

theorem cut_eq_onLeaf (leaf : tree.children? = none) : c.cut tree = c.onLeaf tree := by
  rw [cut_of_leaf leaf, onLeaf]
  cases c.fires? .stopped tree <;> rfl

theorem onLeaf_eq_iff : c.onLeaf tree = (Stats.idle, tree) ↔
    ∀ d, c.directive? tree = some d → d = .stop := by
  rw [← fires?_stopped_eq_none_iff, onLeaf]
  cases hfires : c.fires? .stopped tree with
  | none => simp
  | some r =>
    obtain ⟨v, cs, rfl⟩ := eq_expression_of_directive? (transition_of_fires? hfires).1
    simp

end Cutter

namespace Plugin

variable {tree : Node}

/-- A document without room for an import is cut with the name that the options give the slides. -/
theorem apply_of_leaf (p : Plugin) (leaf : tree.children? = none) :
    p.apply tree = (p.cutter p.options.wrapper).cut tree := by
  have hbind : p.bindWrapper tree = (p.options.wrapper, tree) := by
    cases hpath : p.options.importPath? with
    | none => simp [bindWrapper, hpath]
    | some path => simp [bindWrapper, hpath, Node.addImport, Node.binding?, leaf]
  simp only [apply, hbind]

/-- A document that can hold no children is left as it is by a cutter and by a plugin, with nothing
counted, just when the first directive in its comments, if there is any, is `stop`. An expression
with another one is taken out: an empty root stands in its place, in the mode of the directive. -/
theorem leaf_untouched_iff (p : Plugin) (c : Cutter) (leaf : tree.isContainer = false) :
    c.cut tree = c.onLeaf tree ∧
      (c.cut tree = (Stats.idle, tree) ↔ ∀ d, c.directive? tree = some d → d = .stop) ∧
      p.apply tree = (p.cutter p.options.wrapper).onLeaf tree ∧
      (p.apply tree = (Stats.idle, tree) ↔
        ∀ d, (p.cutter p.options.wrapper).directive? tree = some d → d = .stop) := by
  have hleaf : tree.children? = none := by simpa [Node.isContainer] using leaf
  have hcut := Cutter.cut_eq_onLeaf (c := c) hleaf
  have happly : p.apply tree = (p.cutter p.options.wrapper).onLeaf tree :=
    (p.apply_of_leaf hleaf).trans (Cutter.cut_eq_onLeaf hleaf)
  refine ⟨hcut, ?_, happly, ?_⟩
  · rw [hcut, Cutter.onLeaf_eq_iff]
  · rw [happly, Cutter.onLeaf_eq_iff]

/-- The plugin that cuts at rules and imports its slides. -/
def byRules : Plugin :=
  ⟨{ marker := "hr", wrapper := "Slide", importPath? := some "@deck" }, by decide⟩

/-- A `stop` that fires nowhere stays, as do the other kinds of documents without children. -/
theorem leaf_untouched_iff_stop :
    let tree := Node.note " splitwrap-skip stop "
    tree.isContainer = false ∧ byRules.apply tree = (Stats.idle, tree) := by
  intro tree
  have leaf : tree.isContainer = false := rfl
  refine ⟨leaf, (leaf_untouched_iff byRules (byRules.cutter "Slide") leaf).2.2.2.mpr ?_⟩
  have hstop : (byRules.cutter "Slide").directive? tree = some .stop := by decide +kernel
  intro d hd
  exact Option.some.inj (hd.symm.trans hstop)

/-- An expression with a `start` is gone, and the mode of the directive is left. -/
theorem leaf_removed :
    let tree := Node.note " splitwrap-skip start "
    tree.isContainer = false ∧
      (byRules.cutter "Slide").cut tree = (⟨0, false, .start, false⟩, .root []) ∧
      ¬ (byRules.cutter "Slide").cut tree = (Stats.idle, tree) := by
  intro tree
  have hfires : (byRules.cutter "Slide").fires? .stopped tree = some (.start, .start) := by
    decide +kernel
  have hcut : (byRules.cutter "Slide").cut tree = (⟨0, false, .start, false⟩, .root []) := by
    rw [Cutter.cut_eq_onLeaf rfl, Cutter.onLeaf, hfires]
    rfl
  refine ⟨rfl, hcut, fun h => ?_⟩
  rw [hcut] at h
  cases h

end Plugin
end SlideDeck
