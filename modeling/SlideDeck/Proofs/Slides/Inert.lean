import SlideDeck.Proofs.Slides.Reference
import SlideDeck.Proofs.Slides.Whole

/-!
Nodes at which nothing happens. In a mode in which neither they nor the nodes below them cut or
fire, the walk passes them as they are. What comes behind a child matters only by whether it is a
marker.
-/
namespace SlideDeck

namespace Level

/-- Takes in children, one after another, none of which was cut. -/
def passAll (nodes : List Node) (l : Level) : Level := nodes.foldl (fun l n => l.pass n) l

variable {l : Level}

@[simp] theorem passAll_nil (l : Level) : l.passAll [] = l := rfl

@[simp] theorem passAll_cons (n : Node) (rest : List Node) (l : Level) :
    l.passAll (n :: rest) = (l.pass n).passAll rest := rfl

@[simp] theorem passAll_mode (nodes : List Node) (l : Level) :
    (l.passAll nodes).mode = l.mode := by
  induction nodes generalizing l with
  | nil => rfl
  | cons n rest ih => exact ih (l.pass n)

theorem passAll_with_mode (mode : SkipMode) (nodes : List Node) (l : Level) :
    ({ l with mode := mode } : Level).passAll nodes = { l.passAll nodes with mode := mode } := by
  induction nodes generalizing l with
  | nil => rfl
  | cons n rest ih => exact ih (l.pass n)

theorem passAll_of_none (h : l.assembly? = none) (nodes : List Node) :
    l.passAll nodes = { l with done := l.done ++ nodes } := by
  induction nodes generalizing l with
  | nil => rw [passAll_nil, List.append_nil]
  | cons n rest ih =>
    have hpass : l.pass n = { l with done := l.done ++ [n] } := by
      rw [pass, h]
      rfl
    rw [passAll_cons, hpass, ih (l := { l with done := l.done ++ [n] }) h]
    simp only [List.append_assoc, List.singleton_append]

theorem after_passAll (h : l.mode.suppressesDescent = false) (nodes : List Node) :
    l.after (l.inside.passAll nodes) = l := by
  rw [passAll_of_none (l := l.inside) rfl]
  simp [after, inside, modeAfter, h, pieces, losses]

end Level

namespace Cutter

variable {c : Cutter} {n : Node} {nodes xs ys : List Node} {l : Level} {mode : SkipMode}

theorem markerNext_cons (c : Cutter) (n : Node) (rest : List Node) :
    c.markerNext (n :: rest) = if n.isWhitespace then c.markerNext rest else c.isMarker n := by
  unfold markerNext
  cases h : n.isWhitespace <;> simp [h]

theorem markerNext_append (h : c.markerNext xs = c.markerNext ys) (nodes : List Node) :
    c.markerNext (nodes ++ xs) = c.markerNext (nodes ++ ys) := by
  induction nodes with
  | nil => exact h
  | cons n rest ih => rw [List.cons_append, List.cons_append, markerNext_cons, markerNext_cons, ih]

theorem level_congr (h : c.markerNext xs = c.markerNext ys) (n : Node) (l : Level) :
    c.level n xs l = c.level n ys l := by
  simp only [level_eq, around, ascend, h]

/-- The children behind a level matter only by whether a marker comes next. -/
theorem levelAll_congr (h : c.markerNext xs = c.markerNext ys) (nodes : List Node) (l : Level) :
    c.levelAll nodes xs l = c.levelAll nodes ys l := by
  induction nodes generalizing l with
  | nil => rw [levelAll_nil, levelAll_nil]
  | cons n rest ih =>
    rw [levelAll_cons, levelAll_cons, level_congr (markerNext_append h rest), ih]

theorem mode_levelAll_of (step : ∀ n ∈ nodes, ∀ after l, (c.level n after l).mode = l.mode)
    (beyond : List Node) (l : Level) : (c.levelAll nodes beyond l).mode = l.mode := by
  induction nodes generalizing l with
  | nil => rw [levelAll_nil]
  | cons n rest ih =>
    rw [levelAll_cons, ih fun m hm => step m (List.mem_cons_of_mem n hm),
      step n List.mem_cons_self]

theorem Undirected.mode_level (h : c.Undirected n) (after : List Node) (l : Level) :
    (c.level n after l).mode = l.mode := by
  induction n using Node.induction_children generalizing after l with
  | step n ih =>
    have hbelow : (c.levelBelow n l).mode = l.mode :=
      mode_levelAll_of (fun k hk => ih k hk (h.child hk)) [] l.inside
    have hsteps := c.steps_level n after l
    generalize c.level n after l = r at hsteps ⊢
    cases hsteps with
    | skip suppressed => rfl
    | follow fires =>
      rw [h.fires?] at fires
      cases fires
    | below awake opens =>
      rw [ascend_mode, Level.modeAfter, hbelow, awake, if_neg Bool.false_ne_true]

theorem mode_levelAll (h : ∀ n ∈ nodes, c.Undirected n) (beyond : List Node) (l : Level) :
    (c.levelAll nodes beyond l).mode = l.mode :=
  mode_levelAll_of (fun n hn => (h n hn).mode_level) beyond l

/-- Neither the node nor one below it cuts or fires in that mode. -/
def Inert (c : Cutter) (mode : SkipMode) (n : Node) : Prop :=
  ∀ m ∈ n.preorder, (mode.splits && c.isMarker m) = false ∧ c.fires? mode m = none

theorem Inert.child (h : c.Inert mode n) {child : Node} (hc : child ∈ n.children?.getD []) :
    c.Inert mode child := fun m hm => h m (Node.mem_preorder_of_child hc hm)

theorem levelAll_of_passes
    (step : ∀ n ∈ nodes, ∀ after (l : Level), l.mode = mode → c.level n after l = l.pass n)
    (beyond : List Node) (hmode : l.mode = mode) :
    c.levelAll nodes beyond l = l.passAll nodes := by
  induction nodes generalizing l with
  | nil => rw [levelAll_nil, Level.passAll_nil]
  | cons n rest ih =>
    rw [levelAll_cons, step n List.mem_cons_self _ _ hmode, Level.passAll_cons,
      ih (fun m hm => step m (List.mem_cons_of_mem n hm)) (l := l.pass n) hmode]

theorem Inert.level (h : c.Inert mode n) (after : List Node) (hmode : l.mode = mode) :
    c.level n after l = l.pass n := by
  induction n using Node.induction_children generalizing after l with
  | step n ih =>
    obtain ⟨hmarker, hfires⟩ := h n n.mem_preorder_self
    rw [level_eq, around, hmode]
    by_cases hs : mode.suppressesDescent = true
    · rw [if_pos hs]
    · rw [if_neg hs, hmarker, if_neg Bool.false_ne_true, hfires]
      have hawake : l.mode.suppressesDescent = false := by
        rw [hmode]
        simpa using hs
      have houter : ¬ l.inside.mode = .outer := by
        intro houter
        rw [show l.mode = .outer from houter] at hawake
        cases hawake
      have hbelow : c.levelAll (n.children?.getD []) [] l.inside =
          l.inside.passAll (n.children?.getD []) :=
        levelAll_of_passes (fun k hk after _ => ih k hk (h.child hk) after) [] hmode
      have hnone : (l.inside.passAll (n.children?.getD [])).assembly? = none := by
        rw [Level.passAll_of_none rfl]
        rfl
      have hchildren : c.childrenOf (l.inside.passAll (n.children?.getD [])) =
          n.children?.getD [] := by
        rw [c.childrenOf_of_none hnone, Level.passAll_of_none rfl]
        rfl
      show c.ascend n after l _ = _
      rw [hbelow, ascend, hchildren, Node.withChildren_getD, Level.after_passAll hawake,
        if_neg (by simp [hnone]), Level.passAll_mode, if_neg houter]

theorem levelAll_of_inert (h : ∀ n ∈ nodes, c.Inert l.mode n) (beyond : List Node) :
    c.levelAll nodes beyond l = l.passAll nodes :=
  levelAll_of_passes (fun n hn after _ => (h n hn).level after) beyond rfl

theorem Undirected.of_mem (h : c.Undirected n) {m : Node} (hm : m ∈ n.preorder) :
    c.Undirected m := fun k hk => h k (Node.mem_preorder_trans hm hk)

/-- Where a region was started, nothing cuts. -/
theorem Undirected.inert_start (h : c.Undirected n) : c.Inert .start n := by
  intro m hm
  exact ⟨rfl, (h.of_mem hm).fires? .start⟩

end Cutter
end SlideDeck
