import SlideDeck.Node.Markup
import SlideDeck.Proofs.Node.Leaves
import SlideDeck.Proofs.Slides.Blanks

/-!
Markup without blanks. Leaving blanks out while the markup is written comes to the same as writing
the tree without them, but for void elements that hold nothing but blanks: these are closed at once
only when they have no children at all.
-/
namespace SlideDeck
namespace Node
open Markup

def emptyBlank : Node → Node
  | text v => text (if Text.allBlank v then "" else v)
  | n => n

/-- The tree with an empty text in the place of every blank. -/
def emptied : Node → Node := mapLeaves emptyBlank

theorem markupAll_emptied {nodes : List Node}
    (h : ∀ n ∈ nodes, n.emptied.markup false = n.markup true) :
    markupAll false (nodes.map emptied) = markupAll true nodes := by
  induction nodes with
  | nil => rfl
  | cons n rest ih =>
    rw [List.map_cons, markupAll, markupAll, h n List.mem_cons_self,
      ih fun m hm => h m (List.mem_cons_of_mem n hm)]

/-- A blank that is left out is written like an empty text. -/
theorem markup_emptied (n : Node) : n.emptied.markup false = n.markup true := by
  induction n using induction_children with
  | step n ih =>
    have hbelow := markupAll_emptied ih
    rw [show (n.children?.getD []).map emptied = mapLeavesAll emptyBlank (n.children?.getD []) from
      (mapLeavesAll_eq_map _ _).symm] at hbelow
    cases n with
    | root cs => exact hbelow
    | element t p cs =>
      have hempty : (mapLeavesAll emptyBlank cs).isEmpty = cs.isEmpty := by cases cs <;> rfl
      have hcs : markupAll false (mapLeavesAll emptyBlank cs) = markupAll true cs := hbelow
      rw [emptied, mapLeaves, markup, markup, hempty, hcs]
    | component name p cs =>
      have hcs : markupAll false (mapLeavesAll emptyBlank cs) = markupAll true cs := hbelow
      rw [emptied, mapLeaves, markup, markup, hcs]
    | text v =>
      rw [emptied, mapLeaves, emptyBlank, markup, markup, Bool.false_and, Bool.true_and,
        if_neg Bool.false_ne_true]
      split
      · rfl
      · rfl
    | _ => rfl

/-- A void element that has children, all of them blanks. -/
def isHollow : Node → Bool
  | element tag _ cs => voidTags.contains tag && !cs.isEmpty && cs.all isWhitespace
  | _ => false

/-- By how many characters a hollow element is longer than one that is closed at once. -/
def surplus (n : Node) : Nat := if n.isHollow then (n.name?.getD "").length + 1 else 0

theorem surplus_eq_zero_iff {n : Node} : n.surplus = 0 ↔ n.isHollow = false := by
  rw [surplus]
  cases n.isHollow <;> simp

theorem markup_blank {n : Node} (h : n.isWhitespace = true) : n.markup true = "" := by
  cases n with
  | text v =>
    have hv : Text.allBlank v = true := h
    rw [markup, hv, Bool.true_and, if_pos rfl]
  | _ => cases h

theorem preorder_blank {n : Node} (h : n.isWhitespace = true) : n.preorder = [n] := by
  rw [preorder_eq, children?_of_isWhitespace h]
  rfl

theorem isHollow_blank {n : Node} (h : n.isWhitespace = true) : n.isHollow = false := by
  cases n with
  | text v => rfl
  | _ => cases h

theorem markupAll_blanks {nodes : List Node} (h : nodes.all isWhitespace = true) :
    markupAll true nodes = "" := by
  induction nodes with
  | nil => rfl
  | cons n rest ih =>
    rw [List.all_cons, Bool.and_eq_true] at h
    rw [markupAll, markup_blank h.1, ih h.2]
    rfl

theorem strippedAll_eq_nil_iff {nodes : List Node} :
    strippedAll nodes = [] ↔ nodes.all isWhitespace = true := by
  simp [strippedAll_eq]

/-- An element that is not hollow is closed at once with its blanks when it is without them. -/
theorem closes_stripped {tag : String} {p : Props} {cs : List Node}
    (h : isHollow (element tag p cs) = false) :
    ((strippedAll cs).isEmpty && voidTags.contains tag) =
      (cs.isEmpty && voidTags.contains tag) := by
  cases hvoid : voidTags.contains tag with
  | false => rw [Bool.and_false, Bool.and_false]
  | true =>
    rw [isHollow, hvoid, Bool.true_and] at h
    have hempty : (strippedAll cs).isEmpty = cs.all isWhitespace := by
      rw [Bool.eq_iff_iff, List.isEmpty_iff, strippedAll_eq_nil_iff]
    rw [hempty, Bool.and_true, Bool.and_true]
    cases cs with
    | nil => rfl
    | cons n rest => simpa using h

theorem markupAll_stripped {nodes : List Node}
    (step : ∀ n ∈ nodes, n.isWhitespace = false → (∀ m ∈ n.preorder, m.isHollow = false) →
      n.markup true = n.stripped.markup false)
    (h : ∀ m ∈ preorderAll nodes, m.isHollow = false) :
    markupAll true nodes = markupAll false (strippedAll nodes) := by
  induction nodes with
  | nil => rfl
  | cons n rest ih =>
    rw [preorderAll, List.forall_mem_append] at h
    have hrest := ih (fun m hm => step m (List.mem_cons_of_mem n hm)) h.2
    cases hn : n.isWhitespace with
    | true => rw [markupAll, markup_blank hn, hrest, strippedAll_cons_blank hn, String.empty_append]
    | false =>
      rw [markupAll, step n List.mem_cons_self hn h.1, hrest, strippedAll_cons hn, markupAll]

/-- Without hollow elements, leaving blanks out and taking them away come to the same. -/
theorem markup_stripped {n : Node} (hn : n.isWhitespace = false)
    (h : ∀ m ∈ n.preorder, m.isHollow = false) : n.markup true = n.stripped.markup false := by
  induction n using induction_children with
  | step n ih =>
    rw [preorder_eq, List.forall_mem_cons] at h
    have hbelow := markupAll_stripped ih h.2
    cases n with
    | root cs => exact hbelow
    | element tag p cs =>
      have hcs : markupAll true cs = markupAll false (strippedAll cs) := hbelow
      rw [stripped, markup, markup, closes_stripped h.1, hcs]
    | component name p cs =>
      have hcs : markupAll true cs = markupAll false (strippedAll cs) := hbelow
      rw [stripped, markup, markup, hcs]
    | text v =>
      rw [isWhitespace] at hn
      rw [stripped, markup, markup, hn, Bool.and_false, Bool.and_false]
    | _ => rfl

def surplusIn : List Node → Nat
  | [] => 0
  | n :: rest => n.surplus + surplusIn rest

theorem surplusIn_cons (n : Node) (nodes : List Node) :
    surplusIn (n :: nodes) = n.surplus + surplusIn nodes := rfl

@[simp] theorem surplusIn_append (xs ys : List Node) :
    surplusIn (xs ++ ys) = surplusIn xs + surplusIn ys := by
  induction xs with
  | nil => exact (Nat.zero_add _).symm
  | cons n rest ih => rw [List.cons_append, surplusIn_cons, surplusIn_cons, ih, Nat.add_assoc]

theorem surplus_eq_zero_of_mem {nodes : List Node} (h : surplusIn nodes = 0) {n : Node}
    (hn : n ∈ nodes) : n.surplus = 0 := by
  induction nodes with
  | nil => cases hn
  | cons m rest ih =>
    rw [surplusIn_cons, Nat.add_eq_zero_iff] at h
    rcases List.mem_cons.mp hn with rfl | hn
    · exact h.1
    · exact ih h.2 hn

theorem surplusIn_blank {n : Node} (h : n.isWhitespace = true) : surplusIn n.preorder = 0 := by
  rw [preorder_blank h, surplusIn_cons, surplus_eq_zero_iff.mpr (isHollow_blank h)]
  rfl

theorem surplusIn_blanks {nodes : List Node} (h : nodes.all isWhitespace = true) :
    surplusIn (preorderAll nodes) = 0 := by
  induction nodes with
  | nil => rfl
  | cons n rest ih =>
    rw [List.all_cons, Bool.and_eq_true] at h
    rw [preorderAll, surplusIn_append, surplusIn_blank h.1, ih h.2]

theorem length_container (name : String) (p : Props) (inside : String) :
    (container name p inside).length =
      2 * name.length + (propList p).length + inside.length + 5 := by
  have hopen : "<".length = 1 := rfl
  have hclose : ">".length = 1 := rfl
  have hend : "</".length = 2 := rfl
  simp only [container, String.length_append, hopen, hclose, hend]
  omega

theorem length_closed (tag : String) (p : Props) :
    ("<" ++ tag ++ propList p ++ " />").length = tag.length + (propList p).length + 4 := by
  have hopen : "<".length = 1 := rfl
  have hclose : " />".length = 3 := rfl
  simp only [String.length_append, hopen, hclose]
  omega

theorem length_markupAll_stripped {nodes : List Node}
    (step : ∀ n ∈ nodes, n.isWhitespace = false → (n.markup true).length =
      (n.stripped.markup false).length + surplusIn n.preorder) :
    (markupAll true nodes).length =
      (markupAll false (strippedAll nodes)).length + surplusIn (preorderAll nodes) := by
  induction nodes with
  | nil => rfl
  | cons n rest ih =>
    have hrest := ih fun m hm => step m (List.mem_cons_of_mem n hm)
    cases hn : n.isWhitespace with
    | true =>
      rw [markupAll, markup_blank hn, strippedAll_cons_blank hn, preorderAll, surplusIn_append,
        surplusIn_blank hn, String.empty_append, hrest, Nat.zero_add]
    | false =>
      rw [markupAll, strippedAll_cons hn, markupAll, String.length_append, String.length_append,
        step n List.mem_cons_self hn, hrest, preorderAll, surplusIn_append]
      omega

/-- Every hollow element writes its tag once more, and one character besides. -/
theorem length_markup_stripped {n : Node} (hn : n.isWhitespace = false) :
    (n.markup true).length = (n.stripped.markup false).length + surplusIn n.preorder := by
  induction n using induction_children with
  | step n ih =>
    have hbelow := length_markupAll_stripped ih
    rw [preorder_eq, surplusIn_cons]
    cases n with
    | root cs =>
      rw [stripped, markup, markup, surplus_eq_zero_iff.mpr rfl, Nat.zero_add]
      exact hbelow
    | element tag p cs =>
      have hcs : (markupAll true cs).length =
          (markupAll false (strippedAll cs)).length + surplusIn (preorderAll cs) := hbelow
      rw [stripped, markup, markup, children?, Option.getD_some, surplus, name?, Option.getD_some]
      cases hhollow : isHollow (element tag p cs) with
      | false =>
        rw [if_neg Bool.false_ne_true, closes_stripped hhollow]
        cases hclosed : cs.isEmpty && voidTags.contains tag with
        | true =>
          have hnil : cs = [] := List.isEmpty_iff.mp (Bool.and_eq_true_iff.mp hclosed).1
          have hnone : surplusIn (preorderAll cs) = 0 := by
            rw [hnil]
            rfl
          rw [if_pos rfl, if_pos rfl, hnone]
          omega
        | false =>
          rw [if_neg Bool.false_ne_true, if_neg Bool.false_ne_true, length_container,
            length_container, hcs]
          omega
      | true =>
        have hvoid := hhollow
        rw [isHollow, Bool.and_eq_true, Bool.and_eq_true] at hvoid
        obtain ⟨⟨hvoid, hchildren⟩, hblanks⟩ := hvoid
        have hopen : ¬ (cs.isEmpty && voidTags.contains tag) = true := by
          rw [Bool.not_eq_true'] at hchildren
          rw [hchildren, Bool.false_and]
          exact Bool.false_ne_true
        have hclosed : ((strippedAll cs).isEmpty && voidTags.contains tag) = true := by
          rw [strippedAll_eq_nil_iff.mpr hblanks, hvoid]
          rfl
        rw [if_neg hopen, if_pos hclosed, if_pos rfl, length_container, length_closed,
          markupAll_blanks hblanks, surplusIn_blanks hblanks]
        have hempty : "".length = 0 := rfl
        omega
    | component name p cs =>
      have hcs : (markupAll true cs).length =
          (markupAll false (strippedAll cs)).length + surplusIn (preorderAll cs) := hbelow
      rw [stripped, markup, markup, children?, Option.getD_some, surplus_eq_zero_iff.mpr rfl,
        length_container, length_container, hcs]
      omega
    | text v =>
      rw [isWhitespace] at hn
      have hnone : surplusIn (preorderAll ((text v).children?.getD [])) = 0 := rfl
      rw [stripped, markup, markup, hn, Bool.and_false, Bool.and_false,
        surplus_eq_zero_iff.mpr rfl, hnone, Nat.add_zero]
    | _ => rfl

/-- Markup without blanks is the markup of the tree with its blanks made empty. It is the markup of
the tree with its blanks taken away just when no element in it is hollow. -/
theorem markup_minified_iff {tree : Node} (h : tree.isWhitespace = false) :
    tree.markup true = tree.emptied.markup false ∧
      (tree.markup true = tree.stripped.markup false ↔
        ∀ n ∈ tree.preorder, n.isHollow = false) := by
  refine ⟨tree.markup_emptied.symm, fun heq n hn => ?_, markup_stripped h⟩
  have hlength := length_markup_stripped h
  rw [heq] at hlength
  have hzero : surplusIn tree.preorder = 0 := by omega
  exact surplus_eq_zero_iff.mp (surplus_eq_zero_of_mem hzero hn)

/-- Blanks at every depth, in and beside a void element that has text in it too. -/
theorem markup_minified_iff_nested :
    let tree : Node := .root [.text "\n", .element "hr" ⟨[]⟩ [.text " ", .text "a"],
      .component (some "Box") ⟨[]⟩ [.text " ", .element "br" ⟨[]⟩ []], .text "\t"]
    tree.isWhitespace = false ∧ (∀ n ∈ tree.preorder, n.isHollow = false) ∧
      tree.markup true = tree.emptied.markup false ∧
      tree.markup true = tree.stripped.markup false := by
  intro tree
  have hsolid : ∀ n ∈ tree.preorder, n.isHollow = false := by decide
  obtain ⟨hemptied, hstripped⟩ := markup_minified_iff (show tree.isWhitespace = false from rfl)
  exact ⟨rfl, hsolid, hemptied, hstripped.mpr hsolid⟩

/-- A void element with a blank in it is not closed at once, and it is without the blank. -/
theorem markup_hollow :
    let tree : Node := .element "hr" ⟨[]⟩ [.text " "]
    tree.isWhitespace = false ∧ tree.markup true = "<hr></hr>" ∧
      tree.stripped.markup false = "<hr />" ∧
      ¬ tree.markup true = tree.stripped.markup false := by
  decide

end Node
end SlideDeck
