import SlideDeck.Node.Basic

/-!
Walking a tree depth first. A visitor is called before the children of a node and again after them.
It sees the node and its siblings, may put another node in the place of the one it is called for,
may have it removed, and may keep the walk from going below it. Only nodes that are neither removed
nor skipped are left again.

A visitor that keeps adding children before the walk goes below them can make a walk endless. Walks
are therefore bounded by the depth they may reach; one that ended ends alike when it may reach
deeper. A visitor that never enlarges the tree it enters ends within the size of the tree, and its
walk has a result without any bound being given.
-/
namespace SlideDeck

/-- The siblings of a node: those before it, as the walk has left them, and those after it. -/
structure Place where
  before : List Node
  after : List Node

namespace Place

/-- The index of the node among the children of its parent. -/
def index (place : Place) : Nat := place.before.length

/-- All children of the parent, when `node` stands in the place. -/
def around (place : Place) (node : Node) : List Node := place.before ++ node :: place.after

@[simp] theorem length_around (place : Place) (node : Node) :
    (place.around node).length = place.before.length + 1 + place.after.length := by
  simp only [around, List.length_append, List.length_cons]
  omega

@[simp] theorem getElem?_around (place : Place) (node : Node) :
    (place.around node)[place.index]? = some node := by
  simp [around, index]

end Place

/-- What a visitor sees: the node, its depth, and its siblings unless it is the top of the tree. -/
structure Site where
  node : Node
  depth : Nat
  place? : Option Place

namespace Site

def top (tree : Node) : Site := ⟨tree, 0, none⟩

def hasParent (site : Site) : Bool := site.place?.isSome

/-- The index of the node among the children of its parent. -/
def index? (site : Site) : Option Nat := site.place?.map Place.index

/-- All children of the parent, the node among them. -/
def siblings? (site : Site) : Option (List Node) := site.place?.map (·.around site.node)

end Site

/-- The answer to a call: the next state of the visitor, the node that now stands in the place, and
what becomes of it when the call returns. Removing goes before skipping. -/
structure Reply (σ : Type) where
  state : σ
  node : Node
  removed : Bool := false
  skipped : Bool := false

/-- What is done at each node of a walk, with a state that is handed on from call to call. -/
structure Visitor (σ : Type) where
  /-- Called before the children are visited. -/
  enter : σ → Site → Reply σ
  /-- Called after the children were visited; skipping has no meaning here. -/
  leave : σ → Site → Reply σ

namespace Walk

variable {σ : Type}

/-- Visits siblings from left to right. A removed one leaves its index to the next. -/
def visitAll (visit : σ → Site → Option (σ × Option Node)) (depth : Nat) :
    σ → List Node → List Node → Option (σ × List Node)
  | s, before, [] => some (s, before)
  | s, before, node :: after => do
    let (s, kept?) ← visit s ⟨node, depth, some ⟨before, after⟩⟩
    visitAll visit depth s (before ++ kept?.toList) after

/-- Visits a node and what is below it, down to `reach` levels. The result is the state and the node
that is left in its place, if any; there is none when the walk would go deeper. -/
def visit (v : Visitor σ) : Nat → σ → Site → Option (σ × Option Node)
  | 0, _, _ => none
  | reach + 1, s, site =>
    let entered := v.enter s site
    if entered.removed then some (entered.state, none)
    else if entered.skipped then some (entered.state, some entered.node)
    else do
      let children := entered.node.children?.getD []
      let (s, children) ← visitAll (visit v reach) (site.depth + 1) entered.state [] children
      let left := v.leave s { site with node := entered.node.withChildren children }
      some (left.state, if left.removed then none else some left.node)

/-- Walks a tree down to `reach` levels. When the top is removed, an empty root stands in for it. -/
def within? (reach : Nat) (v : Visitor σ) (s : σ) (tree : Node) : Option (σ × Node) :=
  (visit v reach s (Site.top tree)).map fun (s, kept?) => (s, kept?.getD (.root []))

end Walk

/-- Entering never puts a larger tree in the place of one. -/
def Visitor.NonGrowing {σ : Type} (v : Visitor σ) : Prop :=
  ∀ s site, (v.enter s site).node.size ≤ site.node.size

namespace Walk

variable {σ : Type}

theorem visitAll_isSome {visit : σ → Site → Option (σ × Option Node)} {bound : Nat}
    (hv : ∀ s site, site.node.size ≤ bound → (visit s site).isSome = true) (depth : Nat)
    (nodes : List Node) (hn : Node.sizeAll nodes ≤ bound) (s : σ) (before : List Node) :
    (visitAll visit depth s before nodes).isSome = true := by
  induction nodes generalizing s before with
  | nil => rfl
  | cons n rest ih =>
    simp only [Node.sizeAll] at hn
    obtain ⟨⟨t, kept?⟩, ht⟩ := Option.isSome_iff_exists.mp
      (hv s ⟨n, depth, some ⟨before, rest⟩⟩ (by simp only; omega))
    simp only [visitAll, ht, Option.bind_eq_bind, Option.bind_some]
    exact ih (by omega) t _

/-- A visitor that does not enlarge what it enters is done within the size of the tree. -/
theorem visit_isSome {v : Visitor σ} (hv : v.NonGrowing) (reach : Nat) (s : σ) (site : Site)
    (h : site.node.size ≤ reach) : (visit v reach s site).isSome = true := by
  induction reach generalizing s site with
  | zero => exact absurd h (by have := site.node.size_pos; omega)
  | succ reach ih =>
    rw [visit]
    split
    · rfl
    · split
      · rfl
      · have hs := hv s site
        rw [Node.size_eq] at hs
        obtain ⟨⟨t, cs⟩, ht⟩ := Option.isSome_iff_exists.mp <|
          visitAll_isSome ih (site.depth + 1) ((v.enter s site).node.children?.getD [])
            (by omega) (v.enter s site).state []
        simp [ht]

theorem within?_isSome {v : Visitor σ} (hv : v.NonGrowing) (s : σ) (tree : Node) :
    (within? tree.size v s tree).isSome = true := by
  rw [within?, Option.isSome_map]
  exact visit_isSome hv tree.size s (Site.top tree) (Nat.le_refl _)

theorem visitAll_eq_some_of_imp {f g : σ → Site → Option (σ × Option Node)}
    (hfg : ∀ s site r, f s site = some r → g s site = some r) (depth : Nat) (nodes : List Node)
    (s : σ) (before : List Node) (r : σ × List Node)
    (h : visitAll f depth s before nodes = some r) : visitAll g depth s before nodes = some r := by
  induction nodes generalizing s before with
  | nil => exact h
  | cons n rest ih =>
    simp only [visitAll, Option.bind_eq_bind, Option.bind_eq_some_iff] at h ⊢
    obtain ⟨⟨t, kept?⟩, ht, hr⟩ := h
    exact ⟨(t, kept?), hfg _ _ _ ht, ih t _ hr⟩

/-- A walk that ended ends alike when it may reach deeper. -/
theorem visit_succ {v : Visitor σ} (reach : Nat) (s : σ) (site : Site) (r : σ × Option Node)
    (h : visit v reach s site = some r) : visit v (reach + 1) s site = some r := by
  induction reach generalizing s site r with
  | zero => simp [visit] at h
  | succ reach ih =>
    rw [visit] at h ⊢
    by_cases hr : (v.enter s site).removed = true
    · rwa [if_pos hr] at h ⊢
    · by_cases hs : (v.enter s site).skipped = true
      · rwa [if_neg hr, if_pos hs] at h ⊢
      · simp only [if_neg hr, if_neg hs, Option.bind_eq_bind, Option.bind_eq_some_iff] at h ⊢
        obtain ⟨⟨t, cs⟩, ht, hl⟩ := h
        exact ⟨(t, cs), visitAll_eq_some_of_imp ih _ _ _ _ _ ht, hl⟩

/-- Walks a tree to its end, with a visitor that does not enlarge what it enters. -/
def toEnd (v : Visitor σ) (hv : v.NonGrowing) (s : σ) (tree : Node) : σ × Node :=
  (within? tree.size v s tree).get (within?_isSome hv s tree)

end Walk
end SlideDeck
