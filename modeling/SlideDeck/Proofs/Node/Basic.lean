import SlideDeck.Node.Order

/-!
Induction on trees, what other children leave unchanged about a node, and the two orders of the
nodes of a tree, which agree.
-/
namespace SlideDeck
namespace Node

theorem size_lt_of_mem {node child : Node} (h : child ∈ node.children?.getD []) :
    child.size < node.size := by
  have hle : ∀ nodes : List Node, child ∈ nodes → child.size ≤ sizeAll nodes := by
    intro nodes hm
    induction nodes with
    | nil => cases hm
    | cons n rest ih =>
      rw [sizeAll]
      rcases List.mem_cons.mp hm with rfl | hm
      · omega
      · have := ih hm
        omega
  have := hle _ h
  rw [size_eq node]
  omega

theorem mem_children {node child : Node} {xs ys : List Node}
    (h : node.children? = some (xs ++ child :: ys)) : child ∈ node.children?.getD [] := by
  rw [h]
  simp

/-- Induction on trees: what holds of a node when it holds of its children holds of every node. -/
theorem induction_children {motive : Node → Prop}
    (step : ∀ node : Node, (∀ child ∈ node.children?.getD [], motive child) → motive node)
    (node : Node) : motive node := by
  generalize hs : node.size = size
  induction size using Nat.strongRecOn generalizing node with
  | ind size ih =>
    subst hs
    exact step node fun child hc => ih _ (size_lt_of_mem hc) child rfl

theorem children?_of_isWhitespace {n : Node} (h : n.isWhitespace = true) : n.children? = none := by
  cases n with
  | text v => rfl
  | _ => simp [isWhitespace] at h

theorem isContainer_of_children? {n : Node} {cs : List Node} (h : n.children? = some cs) :
    n.isContainer = true := by
  rw [isContainer, h]
  rfl

theorem isWhitespace_of_isContainer {n : Node} (h : n.isContainer = true) :
    n.isWhitespace = false := by
  cases n with
  | text v => simp [isContainer, children?] at h
  | _ => rfl

theorem isWhitespace_withChildren (n : Node) (cs : List Node) :
    (n.withChildren cs).isWhitespace = n.isWhitespace := by
  cases n <;> rfl

theorem withChildren_getD (n : Node) : n.withChildren (n.children?.getD []) = n := by
  cases n <;> rfl

theorem isPreamble_withChildren (n : Node) (cs : List Node) :
    (n.withChildren cs).isPreamble = n.isPreamble := by
  cases n <;> rfl

theorem withChildren_of_leaf {n : Node} (h : n.children? = none) (cs : List Node) :
    n.withChildren cs = n := by
  cases n <;> first | rfl | cases h

theorem withChildren_of_isWhitespace {n : Node} (h : n.isWhitespace = true) (cs : List Node) :
    n.withChildren cs = n :=
  withChildren_of_leaf (children?_of_isWhitespace h) cs

theorem children?_of_isPreamble {n : Node} (h : n.isPreamble = true) : n.children? = none := by
  cases n <;> first | rfl | cases h

theorem children?_withChildren_of_isContainer {n : Node} (h : n.isContainer = true)
    (cs : List Node) : (n.withChildren cs).children? = some cs := by
  obtain ⟨ds, hds⟩ := Option.isSome_iff_exists.mp h
  rw [children?_withChildren, hds, Option.map_some]

theorem preorder_eq (n : Node) : n.preorder = n :: preorderAll (n.children?.getD []) := by
  cases n <;> simp [preorder, preorderAll, children?]

theorem mem_preorder_self (n : Node) : n ∈ n.preorder := by
  rw [preorder_eq]
  exact List.mem_cons_self

@[simp] theorem preorderAll_append (xs ys : List Node) :
    preorderAll (xs ++ ys) = preorderAll xs ++ preorderAll ys := by
  induction xs with
  | nil => rfl
  | cons x xs ih => simp only [List.cons_append, preorderAll, ih, List.append_assoc]

theorem mem_preorderAll {nodes : List Node} {m : Node} :
    m ∈ preorderAll nodes ↔ ∃ n ∈ nodes, m ∈ n.preorder := by
  induction nodes with
  | nil => simp [preorderAll]
  | cons n rest ih => simp [preorderAll, ih]

theorem mem_preorder_of_child {n child m : Node} (hc : child ∈ n.children?.getD [])
    (hm : m ∈ child.preorder) : m ∈ n.preorder := by
  rw [preorder_eq]
  exact List.mem_cons_of_mem _ (mem_preorderAll.mpr ⟨child, hc, hm⟩)

theorem mem_preorder_trans {n m k : Node} (hm : m ∈ n.preorder) (hk : k ∈ m.preorder) :
    k ∈ n.preorder := by
  induction n using induction_children with
  | step n ih =>
    rw [preorder_eq] at hm
    rcases List.mem_cons.mp hm with rfl | hm
    · exact hk
    · obtain ⟨child, hc, hm⟩ := mem_preorderAll.mp hm
      exact mem_preorder_of_child hc (ih child hc hm)

theorem size_le_of_mem_preorder {n m : Node} (h : m ∈ n.preorder) : m.size ≤ n.size := by
  induction n using induction_children with
  | step n ih =>
    rw [preorder_eq] at h
    rcases List.mem_cons.mp h with rfl | h
    · exact Nat.le_refl _
    · obtain ⟨child, hc, hm⟩ := mem_preorderAll.mp h
      have hle := ih child hc hm
      have hlt := size_lt_of_mem hc
      omega

theorem length_preorderAll {nodes : List Node} (h : ∀ n ∈ nodes, n.preorder.length = n.size) :
    (preorderAll nodes).length = sizeAll nodes := by
  induction nodes with
  | nil => rfl
  | cons n rest ih =>
    rw [preorderAll, sizeAll, List.length_append, h n List.mem_cons_self,
      ih fun m hm => h m (List.mem_cons_of_mem n hm)]

theorem length_preorder (n : Node) : n.preorder.length = n.size := by
  induction n using induction_children with
  | step n ih =>
    rw [preorder_eq, size_eq, List.length_cons, length_preorderAll ih]
    omega

end Node

/-- The stack hands out the nodes in the order of the recursion. -/
theorem Descendants.toList_eq (d : Descendants) : d.toList = Node.preorderAll d.pending := by
  induction d using Descendants.toList.induct with
  | case1 d h =>
    unfold Descendants.toList
    split
    · cases hp : d.pending with
      | nil => rfl
      | cons n rest => simp [next?, hp] at h
    · next hn => simp [h] at hn
  | case2 d n e h _ ih =>
    unfold Descendants.toList
    split
    · next hn => simp [h] at hn
    · next m f hn =>
      obtain ⟨rfl, rfl⟩ := Prod.mk.inj (Option.some.inj (h.symm.trans hn))
      cases hp : d.pending with
      | nil => simp [next?, hp] at h
      | cons k rest =>
        rw [next?, hp] at h
        obtain ⟨rfl, rfl⟩ := Prod.mk.inj (Option.some.inj h)
        rw [ih, Node.preorderAll, Node.preorder_eq, Node.preorderAll_append]
        rfl

namespace Node

theorem nodeCount_eq (n : Node) : n.nodeCount = n.size := by
  rw [nodeCount, Descendants.toList_eq, descendants, preorderAll, preorderAll, List.append_nil,
    length_preorder]

theorem elementsNamed_eq (tag : String) (n : Node) :
    n.elementsNamed tag = n.preorder.filter (isElementNamed tag) := by
  rw [elementsNamed, Descendants.toList_eq, descendants, preorderAll, preorderAll,
    List.append_nil]

theorem isElementNamed_withChildren (tag : String) (n : Node) (cs : List Node) :
    (n.withChildren cs).isElementNamed tag = n.isElementNamed tag := by
  cases n <;> rfl

def Lacks (tag : String) (n : Node) : Prop := ∀ m ∈ n.preorder, m.isElementNamed tag = false

theorem lacks_iff {tag : String} {n : Node} : n.Lacks tag ↔ n.elementsNamed tag = [] := by
  rw [elementsNamed_eq, List.filter_eq_nil_iff]
  exact forall₂_congr fun m _ => (Bool.not_eq_true _).symm.to_iff

theorem Lacks.child {tag : String} {n child : Node} (h : n.Lacks tag)
    (hc : child ∈ n.children?.getD []) : child.Lacks tag :=
  fun m hm => h m (mem_preorder_of_child hc hm)

/-- Below the only element of a name there is none. -/
theorem elementsNamed_below {tag : String} {n w : Node} (h : n.elementsNamed tag = [w]) :
    ∀ m ∈ w.children?.getD [], m.elementsNamed tag = [] := by
  have hmem (m : Node) : m ∈ n.preorder ∧ m.isElementNamed tag = true ↔ m = w := by
    rw [← List.mem_filter, ← elementsNamed_eq, h, List.mem_singleton]
  intro m hm
  refine List.eq_nil_iff_forall_not_mem.mpr fun k hk => ?_
  rw [elementsNamed_eq, List.mem_filter] at hk
  have hw : k = w := (hmem k).mp
    ⟨mem_preorder_trans ((hmem w).mpr rfl).1 (mem_preorder_of_child hm hk.1), hk.2⟩
  have hlt := size_lt_of_mem hm
  have hle := size_le_of_mem_preorder hk.1
  rw [hw] at hle
  omega

end Node
end SlideDeck
