import SlideDeck.Proofs.Node.Basic

/-!
Documents with a gap, and changes of labels. What is put in the gap is all that two documents differ
in, and a change of labels leaves the shape of a document as it is.
-/
namespace SlideDeck

/-- The children of a node with a gap: all of them, or the children of a node among or below
them. -/
inductive Context where
  | gap
  | within (before : List Node) (node : Node) (container : node.isContainer = true)
      (inside : Context) (after : List Node)

namespace Context

/-- The children with other children in the gap. -/
def fill (children : List Node) : Context → List Node
  | gap => children
  | within before node _ inside after =>
    before ++ node.withChildren (inside.fill children) :: after

theorem preorderAll_subset (ctx : Context) (children : List Node) :
    Node.preorderAll children ⊆ Node.preorderAll (ctx.fill children) := by
  induction ctx with
  | gap => exact fun m hm => hm
  | within before node container inside after ih =>
    intro m hm
    rw [fill, Node.preorderAll_append, Node.preorderAll, Node.preorder_eq,
      Node.children?_withChildren_of_isContainer container, Option.getD_some]
    simp [ih hm]

theorem mem_preorder (ctx : Context) {tree n : Node} {children : List Node}
    (hroot : tree.isContainer = true) (hn : n ∈ children) :
    n ∈ (tree.withChildren (ctx.fill children)).preorder := by
  rw [Node.preorder_eq, Node.children?_withChildren_of_isContainer hroot]
  exact List.mem_cons_of_mem _ (ctx.preorderAll_subset children
    (Node.mem_preorderAll.mpr ⟨n, hn, n.mem_preorder_self⟩))

end Context

namespace Node

/-- A change of labels. It looks at no children, and leaves blanks and preamble what they are. -/
structure KeepsShape (g : Node → Node) : Prop where
  withChildren : ∀ n cs, g (n.withChildren cs) = (g n).withChildren (cs.map g)
  children? : ∀ n, (g n).children? = n.children?.map (List.map g)
  isWhitespace : ∀ n, (g n).isWhitespace = n.isWhitespace
  isPreamble : ∀ n, (g n).isPreamble = n.isPreamble

theorem keepsShape_id : KeepsShape id where
  withChildren n cs := by rw [List.map_id]; rfl
  children? n := by cases n <;> simp [Node.children?]
  isWhitespace _ := rfl
  isPreamble _ := rfl

namespace KeepsShape

variable {g : Node → Node} {n : Node} {cs : List Node}

/-- The children of a node that does not change do not change. -/
theorem child (hg : KeepsShape g) (h : g n = n) {m : Node} (hm : m ∈ n.children?.getD []) :
    g m = m := by
  have hchildren := hg.children? n
  rw [h] at hchildren
  cases hcs : n.children? with
  | none =>
    rw [hcs] at hm
    cases hm
  | some cs =>
    rw [hcs] at hm hchildren
    have hsame : cs.map g = cs.map id := by
      rw [List.map_id]
      exact (Option.some.inj hchildren).symm
    exact List.map_inj_left.mp hsame m hm

theorem withChildren_eq (hg : KeepsShape g) (h : g (n.withChildren cs) = n.withChildren cs)
    (ds : List Node) : g (n.withChildren ds) = n.withChildren (ds.map g) := by
  calc g (n.withChildren ds)
      = (g n).withChildren (ds.map g) := hg.withChildren n ds
    _ = (g (n.withChildren cs)).withChildren (ds.map g) := by
        rw [hg.withChildren, withChildren_withChildren]
    _ = n.withChildren (ds.map g) := by rw [h, withChildren_withChildren]

theorem comp {f : Node → Node} (hg : KeepsShape g) (hf : KeepsShape f) : KeepsShape (g ∘ f) where
  withChildren n cs := by simp [hf.withChildren, hg.withChildren]
  children? n := by cases h : n.children? <;> simp [hf.children?, hg.children?, h]
  isWhitespace n := (hg.isWhitespace _).trans (hf.isWhitespace n)
  isPreamble n := (hg.isPreamble _).trans (hf.isPreamble n)

/-- What changes neither the label of a node nor one below it does not change the node. -/
theorem eq_self (hg : KeepsShape g)
    (h : ∀ m ∈ n.preorder, g (m.withChildren []) = m.withChildren []) : g n = n := by
  induction n using induction_children with
  | step n ih =>
    have hbelow : (n.children?.getD []).map g = n.children?.getD [] :=
      (List.map_congr_left fun k hk => ih k hk fun m hm => h m (mem_preorder_of_child hk hm)).trans
        (List.map_id _)
    have hn := hg.withChildren_eq (h n n.mem_preorder_self) (n.children?.getD [])
    rwa [hbelow, withChildren_getD] at hn

theorem children_getD (hg : KeepsShape g) (n : Node) :
    (g n).children?.getD [] = (n.children?.getD []).map g := by
  rw [hg.children?]
  cases n.children? <;> rfl

theorem preorder (hg : KeepsShape g) (n : Node) : (g n).preorder = n.preorder.map g := by
  induction n using induction_children with
  | step n ih =>
    have hall : ∀ nodes : List Node, (∀ m ∈ nodes, (g m).preorder = m.preorder.map g) →
        preorderAll (nodes.map g) = (preorderAll nodes).map g := by
      intro nodes
      induction nodes with
      | nil => exact fun _ => rfl
      | cons m rest ih =>
        intro h
        rw [List.map_cons, preorderAll, preorderAll, List.map_append, h m List.mem_cons_self,
          ih fun k hk => h k (List.mem_cons_of_mem m hk)]
    rw [preorder_eq, hg.children_getD, hall _ ih, preorder_eq n, List.map_cons]

end KeepsShape

def rename (old new name : String) : String := if name = old then new else name

theorem rename_of_ne {old new name : String} (h : name ≠ old) : rename old new name = name :=
  if_neg h

theorem rename_ne {old new : String} (h : new ≠ old) (name : String) :
    rename old new name ≠ old := by
  unfold rename
  split
  · exact h
  · assumption

theorem rename_rename {old new name : String} (h : name ≠ new) :
    rename new old (rename old new name) = name := by
  by_cases hname : name = old
  · subst hname
    rw [rename, rename, if_pos rfl, if_pos rfl]
  · rw [rename_of_ne hname, rename_of_ne h]

mutual

/-- The node with a name changed in it and below it. A fragment has no name to change. -/
def renamed (old new : String) : Node → Node
  | .root cs => .root (renamedAll old new cs)
  | .element t p cs => .element (rename old new t) p (renamedAll old new cs)
  | .component n p cs => .component (n.map (rename old new)) p (renamedAll old new cs)
  | .text v => .text v
  | .expression v cs => .expression v cs
  | .doctype n => .doctype n
  | .esm v ds => .esm v ds
  | .comment v => .comment v
  | .raw v => .raw v

def renamedAll (old new : String) : List Node → List Node
  | [] => []
  | n :: rest => renamed old new n :: renamedAll old new rest

end

theorem renamedAll_eq_map (old new : String) (nodes : List Node) :
    renamedAll old new nodes = nodes.map (renamed old new) := by
  induction nodes with
  | nil => rfl
  | cons n rest ih => rw [renamedAll, ih, List.map_cons]

theorem keepsShape_renamed (old new : String) : KeepsShape (renamed old new) where
  withChildren n cs := by cases n <;> simp [renamed, Node.withChildren, renamedAll_eq_map]
  children? n := by cases n <;> simp [renamed, Node.children?, renamedAll_eq_map]
  isWhitespace n := by cases n <;> rfl
  isPreamble n := by cases n <;> rfl

theorem comments_renamed (old new : String) (n : Node) :
    (n.renamed old new).comments = n.comments := by
  cases n <;> rfl

theorem name?_renamed {old new : String} (hnew : new ≠ old) (hold : old ≠ "") (n : Node) :
    (n.renamed old new).name? ≠ some old := by
  cases n with
  | element t p cs => simpa [renamed, name?] using rename_ne hnew t
  | component n p cs =>
    cases n with
    | none => simpa [renamed, name?] using hold.symm
    | some n => simpa [renamed, name?] using rename_ne hnew n
  | _ => simp [renamed, name?]

variable {old new : String}

/-- Renaming changes nothing where the name does not occur. -/
theorem renamed_eq {n : Node} (h : ∀ m ∈ n.preorder, m.name? ≠ some old) :
    n.renamed old new = n := by
  refine (keepsShape_renamed old new).eq_self fun m hm => ?_
  have hname := h m hm
  cases m with
  | element t p cs =>
    have ht : t ≠ old := by simpa [name?] using hname
    simp [renamed, renamedAll, withChildren, rename_of_ne ht]
  | component name p cs =>
    cases name with
    | none => rfl
    | some k =>
      have hk : k ≠ old := by simpa [name?] using hname
      simp [renamed, renamedAll, withChildren, rename_of_ne hk]
  | _ => rfl

/-- A name that does not occur can be given and taken back. -/
theorem renamed_renamed {n : Node} (h : ∀ m ∈ n.preorder, m.name? ≠ some new) :
    (n.renamed old new).renamed new old = n := by
  have hshape := (keepsShape_renamed new old).comp (keepsShape_renamed old new)
  refine hshape.eq_self fun m hm => ?_
  have hname := h m hm
  cases m with
  | element t p cs =>
    have ht : t ≠ new := by simpa [name?] using hname
    simp [renamed, renamedAll, withChildren, rename_rename ht]
  | component name p cs =>
    cases name with
    | none => rfl
    | some k =>
      have hk : k ≠ new := by simpa [name?] using hname
      simp [renamed, renamedAll, withChildren, rename_rename hk]
  | _ => rfl

end Node
end SlideDeck
